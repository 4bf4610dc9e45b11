import OS64.Ext2.Model
import OS64.Lib.Counting
import Mathlib.Order.Interval.Finset.Nat

/-!
# The regions of the volume

The blocks of the volume fall into regions: the superblock, the group descriptor,
the two bitmaps, the inode table and the data. What they hold is the *view* of a
state (`OS64.Ext2.State.view`): two tables of bits, a table of inodes, and the data
blocks. Every primitive of the driver changes one table of the view and keeps the
four counters right (`OS64.Ext2.Regular`); from here on nothing looks at block
numbers below 260.
-/

namespace OS64

namespace Ext2

open List Function ByteMem Bits Fallible

/-! ### Blocks -/

variable {b : ByteMem} {i ino : ℕ} {bits : ℕ → Bool} {d : ℤ}

/-- The part of a buffer that fits into a block. -/
def clip (b : ByteMem) : ByteMem := fun x => if x < 4096 then b x else 0

theorem clip_apply (b : ByteMem) {x : ℕ} (h : x < 4096) : clip b x = b x := if_pos h

theorem readLE_clip (b : ByteMem) {k a : ℕ} (h : a + k ≤ 4096) : readLE (clip b) k a = readLE b k a :=
  readLE_congr fun x _ hx => clip_apply b (by omega)

theorem bit_clip (b : ByteMem) (h : i < 32768) : bit (clip b) i = bit b i := by
  rw [bit, bit, clip_apply b (by omega)]

/-- The sectors after some of the writes of a block. -/
theorem foldl_sectors (disk : Disk) (start : ℕ) (b : ByteMem) : ∀ (k lba : ℕ),
    (List.range k).foldl (fun disk i => update disk (start + i)
      fun x => if x < 512 then b (i * 512 + x) else 0) disk lba =
    if start ≤ lba ∧ lba < start + k then fun x => if x < 512 then b ((lba - start) * 512 + x) else 0
    else disk lba
  | 0, lba => by
    rw [if_neg (by omega)]
    rfl
  | k + 1, lba => by
    rw [range_succ, foldl_append, foldl_cons, foldl_nil, update_apply]
    by_cases hlast : lba = start + k
    · rw [if_pos hlast, if_pos (show start ≤ lba ∧ lba < start + (k + 1) by omega), hlast, Nat.add_sub_cancel_left]
    · rw [if_neg hlast, foldl_sectors disk start b k lba]
      by_cases hin : start ≤ lba ∧ lba < start + k
      · rw [if_pos hin, if_pos (by omega)]
      · rw [if_neg hin, if_neg (by omega)]

/-- **Reading back a block.** -/
theorem blockAt_writeAt (disk : Disk) (base n m : ℕ) (b : ByteMem) :
    blockAt (writeAt disk base n b) base m = if m = n then clip b else blockAt disk base m := by
  funext x
  rw [blockAt]
  by_cases hx : x < 4096
  · rw [if_pos hx, writeAt, foldl_sectors]
    by_cases hm : m = n
    · rw [if_pos (by omega), if_pos (Nat.mod_lt x (by decide)), if_pos hm, clip_apply b hx, hm]
      congr 1
      omega
    · rw [if_neg (by omega), if_neg hm, blockAt, if_pos hx]
  · rw [if_neg hx]
    split
    · rw [clip, if_neg hx]
    · rw [blockAt, if_neg hx]

/-- What never changes: where the volume is, and that it is mounted. -/
structure Layout (s : State) : Prop where
  base : s.base = 131072
  blocks : s.blocks = 16384
  mounted : s.mounted = true

/-- The state with another block `n`. -/
def State.writeBlock (s : State) (n : ℕ) (b : ByteMem) : State :=
  { s with disk := writeAt s.disk s.base n b }

theorem State.block_writeBlock (s : State) (n m : ℕ) (b : ByteMem) :
    (s.writeBlock n b).block m = if m = n then clip b else s.block m :=
  blockAt_writeAt s.disk s.base n m b

theorem Layout.writeBlock {s : State} (h : Layout s) (n : ℕ) (b : ByteMem) : Layout (s.writeBlock n b) :=
  ⟨h.base, h.blocks, h.mounted⟩

variable {s : State} {n : ℕ}

theorem run_bread_of_lt (hn : n < s.blocks) : (bread n).run s = (some (s.block n), s) := by
  rw [bread, run_bind_some (run_gets _ _), run_bind_some (run_require_pos hn s), run_gets]

theorem run_bwrite_of_lt (hn : n < s.blocks) (b : ByteMem) : (bwrite n b).run s = (some (), s.writeBlock n b) := by
  rw [bwrite, run_bind_some (run_gets _ _), run_bind_some (run_require_pos hn s), run_modify]
  rfl

theorem run_bread (h : Layout s) (hn : n < 16384) : (bread n).run s = (some (s.block n), s) :=
  run_bread_of_lt (by rwa [h.blocks])

theorem run_bwrite (h : Layout s) (hn : n < 16384) (b : ByteMem) : (bwrite n b).run s = (some (), s.writeBlock n b) :=
  run_bwrite_of_lt (by rwa [h.blocks]) b

section

variable {Q : ByteMem → State → Prop} {E : State → Prop}

theorem wp_bread (h : Layout s) (hn : n < 16384) : wp (bread n) Q E s ↔ Q (s.block n) s := wp_of_eq (run_bread h hn)

theorem wp_bwrite {Q : Unit → State → Prop} (h : Layout s) (hn : n < 16384) (b : ByteMem) :
    wp (bwrite n b) Q E s ↔ Q () (s.writeBlock n b) :=
  wp_of_eq (run_bwrite h hn b)

end

/-! ### The view -/

/-- What the regions hold. -/
structure View where
  blockBit : ℕ → Bool
  inodeBit : ℕ → Bool
  inode : ℕ → Inode
  data : ℕ → ByteMem

namespace View

/-- The view with another block bitmap. -/
def withBlockBits (v : View) (bits : ℕ → Bool) : View := ⟨bits, v.inodeBit, v.inode, v.data⟩

/-- The view with another inode bitmap. -/
def withInodeBits (v : View) (bits : ℕ → Bool) : View := ⟨v.blockBit, bits, v.inode, v.data⟩

/-- The view with block `b` in use, or not. -/
def setBlockBit (v : View) (b : ℕ) (x : Bool) : View :=
  v.withBlockBits (update v.blockBit b x)

/-- The view with inode `ino` in use, or not. -/
def setInodeBit (v : View) (ino : ℕ) (x : Bool) : View :=
  v.withInodeBits (update v.inodeBit (ino - 1) x)

/-- The view with another inode `ino`. -/
def setInode (v : View) (ino : ℕ) (n : Inode) : View :=
  ⟨v.blockBit, v.inodeBit, update v.inode ino n, v.data⟩

/-- The view with another data block `b`. -/
def setData (v : View) (b : ℕ) (c : ByteMem) : View :=
  ⟨v.blockBit, v.inodeBit, v.inode, update v.data b c⟩

/-- An inode that `alloc_inode` can take. -/
def FreeInode (v : View) (i : ℕ) : Prop := 11 ≤ i ∧ i ≤ 8192 ∧ v.inodeBit (i - 1) = false

/-- A block that `alloc_block` can take. -/
def FreeBlock (v : View) (b : ℕ) : Prop := 261 ≤ b ∧ b < 16384 ∧ v.blockBit b = false

end View

/-- The view of a state. Inode `ino` is at place `ino - 1` of the table. -/
def State.view (s : State) : View where
  blockBit := bit (s.block 2)
  inodeBit := bit (s.block 3)
  inode ino := if 1 ≤ ino ∧ ino ≤ 8192 then
    getRecord (s.block (4 + (ino - 1) / 32)) ((ino - 1) % 32 * 128) else zero
  data n := if 260 ≤ n ∧ n < 16384 then s.block n else zero

/-- The number of clear bits of a bitmap. -/
def clearBits (bits : ℕ → Bool) : ℕ := Counting.count (Finset.range 32768) bits (· = false)

/-- The four counters are right. -/
structure Counted (s : State) : Prop where
  superBlocks : r32 (s.block 0) 1036 = clearBits s.view.blockBit
  superInodes : r32 (s.block 0) 1040 = clearBits s.view.inodeBit
  groupBlocks : r16 (s.block 1) 12 = clearBits s.view.blockBit
  groupInodes : r16 (s.block 1) 14 = clearBits s.view.inodeBit

/-- The state of a volume between two primitives. -/
structure Regular (s : State) : Prop extends Layout s, Counted s

/-! ### Writing data and inodes -/

/-- A block that is not one of the first four leaves bitmaps and counters
alone. -/
theorem Regular.writeBlock (h : Regular s) (hn : 4 ≤ n) (b : ByteMem) : Regular (s.writeBlock n b) := by
  have hblock : ∀ m < 4, (s.writeBlock n b).block m = s.block m := by
    intro m hm
    rw [State.block_writeBlock, if_neg (by omega)]
  refine ⟨h.toLayout.writeBlock n b, ?_, ?_, ?_, ?_⟩
  · rw [hblock 0 (by decide), h.superBlocks, State.view, State.view, hblock 2 (by decide)]
  · rw [hblock 0 (by decide), h.superInodes, State.view, State.view, hblock 3 (by decide)]
  · rw [hblock 1 (by decide), h.groupBlocks, State.view, State.view, hblock 2 (by decide)]
  · rw [hblock 1 (by decide), h.groupInodes, State.view, State.view, hblock 3 (by decide)]

/-- **Writing a data block.** -/
theorem view_writeData (s : State) (hn : 260 ≤ n) (hn' : n < 16384) (b : ByteMem) :
    (s.writeBlock n b).view = s.view.setData n (clip b) := by
  simp only [State.view, View.setData, State.block_writeBlock, View.mk.injEq]
  refine ⟨?_, ?_, ?_, ?_⟩
  · rw [if_neg (by omega)]
  · rw [if_neg (by omega)]
  · funext ino
    split
    · rw [if_neg (by omega)]
    · rfl
  · funext m
    rw [update_apply]
    by_cases hm : m = n
    · rw [if_pos hm, if_pos hm, if_pos (by omega)]
    · rw [if_neg hm, if_neg hm]

/-- The part of a buffer that fits into a record. -/
def clipRecord (n : Inode) : Inode := fun i => if i < 128 then n i else 0

theorem getRecord_putRecord (b : ByteMem) (off off' : ℕ) (n : Inode)
    (h : off' = off ∨ off' + 128 ≤ off ∨ off + 128 ≤ off') :
    getRecord (putRecord b off n) off' = if off' = off then clipRecord n else getRecord b off' := by
  funext i
  rw [getRecord, putRecord]
  by_cases hoff : off' = off
  · rw [if_pos hoff, hoff, clipRecord]
    split
    · rw [if_pos (by omega), Nat.add_sub_cancel_left]
    · rfl
  · rw [if_neg hoff, getRecord]
    split
    · rw [if_neg (by omega)]
    · rfl

theorem getRecord_clip (b : ByteMem) {off : ℕ} (h : off + 128 ≤ 4096) : getRecord (clip b) off = getRecord b off := by
  funext i
  rw [getRecord, getRecord]
  split
  · rw [clip_apply b (by omega)]
  · rfl

/-- **Writing an inode.** -/
theorem view_writeInode (s : State) (h1 : 1 ≤ ino) (h2 : ino ≤ 8192) (r : Inode) :
    (s.writeBlock (4 + (ino - 1) / 32)
      (putRecord (s.block (4 + (ino - 1) / 32)) ((ino - 1) % 32 * 128) r)).view =
    s.view.setInode ino (clipRecord r) := by
  simp only [State.view, View.setInode, State.block_writeBlock, View.mk.injEq]
  refine ⟨?_, ?_, ?_, ?_⟩
  · rw [if_neg (by omega)]
  · rw [if_neg (by omega)]
  · funext ino'
    rw [update_apply]
    by_cases hino : ino' = ino
    · rw [if_pos hino, hino, if_pos ⟨h1, h2⟩, if_pos rfl, getRecord_clip _ (by omega),
        getRecord_putRecord _ _ _ _ (.inl rfl), if_pos rfl]
    · split
      · by_cases hblock : 4 + (ino' - 1) / 32 = 4 + (ino - 1) / 32
        · rw [if_pos hblock, getRecord_clip _ (by omega), getRecord_putRecord _ _ _ _ (by omega),
            if_neg (by omega), hblock]
        · rw [if_neg hblock]
      · rfl
  · funext m
    split
    · rw [if_neg (by omega)]
    · rfl

/-- `inode_get` on an inode of the table. -/
theorem run_inodeGet (h : Layout s) (h1 : 1 ≤ ino) (h2 : ino ≤ 8192) :
    (inodeGet ino).run s = (some (s.view.inode ino), s) := by
  have hblock : (ino - 1) * 128 / 4096 = (ino - 1) / 32 := by omega
  have hoff : (ino - 1) * 128 % 4096 = (ino - 1) % 32 * 128 := by omega
  rw [inodeGet, run_bind_some (run_require_pos ⟨by omega, h2⟩ s)]
  simp only [hblock, hoff]
  rw [run_bind_some (run_bread h (by rw [inodeTable]; omega)), run_pure, State.view]
  simp only [if_pos (And.intro h1 h2), inodeTable]

variable {Q : Unit → State → Prop} {E : State → Prop} {first limit : ℕ}

/-- **`inode_put`** on an inode of the table. -/
theorem wp_inodePut (h : Regular s) (h1 : 1 ≤ ino) (h2 : ino ≤ 8192) (r : Inode)
    (hQ : ∀ s', Regular s' → s'.view = s.view.setInode ino (clipRecord r) → Q () s') :
    wp (inodePut ino r) Q E s := by
  have hoff : (ino + (2 ^ 32 - 1)) % 2 ^ 32 * 128 % 2 ^ 32 = (ino - 1) * 128 := by omega
  have hblock : (ino - 1) * 128 / 4096 = (ino - 1) / 32 := by omega
  have hrest : (ino - 1) * 128 % 4096 = (ino - 1) % 32 * 128 := by omega
  rw [inodePut]
  simp only [hoff, hblock, hrest, inodeTable]
  rw [wp_bind, wp_bread h.toLayout (by omega), wp_bwrite h.toLayout (by omega)]
  exact hQ _ (h.writeBlock (by omega) _) (view_writeInode s h1 h2 r)

/-! ### Counters -/

theorem clearBits_le (bits : ℕ → Bool) : clearBits bits ≤ 32768 := by
  have h := Counting.count_le_card (S := Finset.range 32768) (f := bits) (P := (· = false))
  rwa [Finset.card_range] at h

theorem adjust_eq {v w : ℕ} (h : (w : ℤ) = v + d) (hw : w ≤ 32768) : adjust v d = w := by
  rw [adjust, ← h, Int.emod_eq_of_lt (by omega) (by omega), Int.toNat_natCast]

/-- A change of the first four blocks leaves inodes and data alone. -/
theorem view_writeLow (s : State) (hn : n < 4) (b : ByteMem) : (s.writeBlock n b).view =
    ⟨bit ((s.writeBlock n b).block 2), bit ((s.writeBlock n b).block 3), s.view.inode, s.view.data⟩ := by
  have hblock : ∀ m, 4 ≤ m → (s.writeBlock n b).block m = s.block m := by
    intro m hm
    rw [State.block_writeBlock, if_neg (by omega)]
  simp only [State.view, View.mk.injEq, true_and]
  constructor
  · funext ino
    rw [hblock _ (by omega)]
  · funext m
    split
    · rw [hblock m (by omega)]
    · rfl

/-- The first two blocks do not belong to the view. -/
theorem view_writeHead (s : State) (hn : n < 2) (b : ByteMem) : (s.writeBlock n b).view = s.view := by
  rw [view_writeLow s (by omega), State.block_writeBlock, State.block_writeBlock, if_neg (by omega), if_neg (by omega)]
  rfl

/-- **`counters`** makes the counters right again, when the bitmaps have changed
by as many bits as it is told. -/
theorem wp_counters (h : Layout s) {db di dd : ℤ}
    (blocks nodes : ℕ) (hsb : r32 (s.block 0) 1036 = blocks) (hsi : r32 (s.block 0) 1040 = nodes)
    (hgb : r16 (s.block 1) 12 = blocks) (hgi : r16 (s.block 1) 14 = nodes)
    (hb : (clearBits s.view.blockBit : ℤ) = blocks + db)
    (hi : (clearBits s.view.inodeBit : ℤ) = nodes + di)
    (hQ : ∀ s', Regular s' → s'.view = s.view → Q () s') : wp (counters db di dd) Q E s := by
  have hble := clearBits_le s.view.blockBit
  have hile := clearBits_le s.view.inodeBit
  have hadjb := adjust_eq hb hble
  have hadji := adjust_eq hi hile
  rw [counters, wp_bind, wp_bread h (by decide), wp_bind, wp_bwrite h (by decide), wp_bind,
    wp_bread (h.writeBlock _ _) (by decide), wp_bwrite (h.writeBlock _ _) (by decide)]
  generalize hs₁ : s.writeBlock 0 (superCounters (s.block 0) db di) = s₁
  have hview₁ : s₁.view = s.view := by
    rw [← hs₁, view_writeHead s (by decide)]
  have h0 : s₁.block 0 = clip (superCounters (s.block 0) db di) := by
    rw [← hs₁, State.block_writeBlock, if_pos rfl]
  have h1 : s₁.block 1 = s.block 1 := by
    rw [← hs₁, State.block_writeBlock, if_neg (by decide)]
  have hlayout : Layout s₁ := hs₁ ▸ h.writeBlock _ _
  have hview : (s₁.writeBlock 1 (groupCounters (s₁.block 1) db di dd)).view = s.view := by
    rw [view_writeHead s₁ (by decide), hview₁]
  refine hQ _ ⟨hlayout.writeBlock _ _, ?_, ?_, ?_, ?_⟩ hview
  · rw [hview, State.block_writeBlock, if_neg (by decide), h0, r32, readLE_clip _ (by decide),
      superCounters, w32, readLE_writeLE_of_disjoint _ (by decide), w32,
      readLE_writeLE_of_lt _ (by rw [hsb, hadjb]; omega), hsb, hadjb]
  · rw [hview, State.block_writeBlock, if_neg (by decide), h0, r32, readLE_clip _ (by decide),
      superCounters, w32, readLE_writeLE_of_lt _ (by rw [hsi, hadji]; omega), hsi, hadji]
  · rw [hview, State.block_writeBlock, if_pos rfl, h1, r16, readLE_clip _ (by decide), groupCounters]
    simp only [w16]
    rw [readLE_writeLE_of_disjoint _ (by decide), readLE_writeLE_of_disjoint _ (by decide),
      readLE_writeLE_of_lt _ (by rw [hgb, hadjb]; omega), hgb, hadjb]
  · rw [hview, State.block_writeBlock, if_pos rfl, h1, r16, readLE_clip _ (by decide), groupCounters]
    simp only [w16]
    rw [readLE_writeLE_of_disjoint _ (by decide)]
    have hgi' : r16 (writeLE (s.block 1) 2 12 (adjust (r16 (s.block 1) 12) db)) 14 = nodes := by
      exact hgi
    rw [readLE_writeLE_of_lt _ (by rw [hgi', hadji]; omega), hgi', hadji]

/-! ### Bitmaps -/

theorem bit_block_of_le (s : State) (m : ℕ) {j : ℕ} (h : 32768 ≤ j) : bit (s.block m) j = false := by
  rw [bit, State.block, blockAt, if_neg (by omega)]
  exact Nat.zero_testBit _

theorem bit_clip_setBit (s : State) (m : ℕ) (hi : i < 32768) :
    bit (clip (setBit (s.block m) i)) = update (bit (s.block m)) i true := by
  funext j
  rw [update_apply]
  by_cases hj : j < 32768
  · rw [bit_clip _ hj, bit_setBit]
  · rw [if_neg (by omega), bit_block_of_le s m (by omega), bit, clip, if_neg (by omega)]
    exact Nat.zero_testBit _

theorem bit_clip_clearBit (s : State) (m : ℕ) (hi : i < 32768) :
    bit (clip (clearBit (s.block m) i)) = update (bit (s.block m)) i false := by
  funext j
  rw [update_apply]
  by_cases hj : j < 32768
  · rw [bit_clip _ hj, bit_clearBit]
  · rw [if_neg (by omega), bit_block_of_le s m (by omega), bit, clip, if_neg (by omega)]
    exact Nat.zero_testBit _

theorem view_writeBlockBitmap (s : State) (hb : bit (clip b) = bits) :
    (s.writeBlock 2 b).view = s.view.withBlockBits bits := by
  rw [view_writeLow s (by decide), State.block_writeBlock, State.block_writeBlock, if_pos rfl, if_neg (by decide), hb]
  rfl

theorem view_writeInodeBitmap (s : State) (hb : bit (clip b) = bits) :
    (s.writeBlock 3 b).view = s.view.withInodeBits bits := by
  rw [view_writeLow s (by decide), State.block_writeBlock, State.block_writeBlock, if_neg (by decide), if_pos rfl, hb]
  rfl

variable {E : State → Prop}

theorem clearBits_set (hi : i < 32768) (hclear : bits i = false) :
    clearBits (update bits i true) + 1 = clearBits bits :=
  Counting.count_update_lost (Finset.mem_range.mpr hi) hclear (by decide)

theorem clearBits_clear (hi : i < 32768) (hset : bits i = true) :
    clearBits (update bits i false) = clearBits bits + 1 :=
  Counting.count_update_won (Finset.mem_range.mpr hi) (by rw [hset]; decide) rfl

/-- Counting after a change of a bitmap, which is none of the two blocks that are counted in. -/
theorem Regular.wp_counters_bitmap {m : ℕ} {v : View} {d' : ℤ} (h : Regular s) (hm : 2 ≤ m)
    (hview : (s.writeBlock m b).view = v) (hd : (clearBits v.blockBit : ℤ) = clearBits s.view.blockBit + d)
    (hd' : (clearBits v.inodeBit : ℤ) = clearBits s.view.inodeBit + d')
    (hQ : ∀ s', Regular s' → s'.view = v → Q () s') : wp (counters d d' 0) Q E (s.writeBlock m b) := by
  have hblock : ∀ k < 2, (s.writeBlock m b).block k = s.block k := by
    intro k hk
    rw [State.block_writeBlock, if_neg (by omega)]
  subst hview
  refine wp_counters (h.toLayout.writeBlock _ _) (clearBits s.view.blockBit) (clearBits s.view.inodeBit) ?_ ?_ ?_ ?_ hd
    hd' hQ
  · rw [hblock 0 (by decide), h.superBlocks]
  · rw [hblock 0 (by decide), h.superInodes]
  · rw [hblock 1 (by decide), h.groupBlocks]
  · rw [hblock 1 (by decide), h.groupInodes]

/-- Counting after a change of the block bitmap by `d` bits. -/
theorem Regular.wp_counters_blocks (h : Regular s) (hb : bit (clip b) = bits)
    (hd : (clearBits bits : ℤ) = clearBits s.view.blockBit + d)
    (hQ : ∀ s', Regular s' → s'.view = s.view.withBlockBits bits → Q () s') :
    wp (counters d 0 0) Q E (s.writeBlock 2 b) :=
  h.wp_counters_bitmap le_rfl (view_writeBlockBitmap s hb) hd (add_zero _).symm hQ

/-- Counting after a change of the inode bitmap by `d` bits. -/
theorem Regular.wp_counters_inodes (h : Regular s) (hb : bit (clip b) = bits)
    (hd : (clearBits bits : ℤ) = clearBits s.view.inodeBit + d)
    (hQ : ∀ s', Regular s' → s'.view = s.view.withInodeBits bits → Q () s') :
    wp (counters 0 d 0) Q E (s.writeBlock 3 b) :=
  h.wp_counters_bitmap (by decide) (view_writeInodeBitmap s hb) (add_zero _).symm hd hQ

/-- The search of `alloc_bit`. -/
theorem find_clear (h : (range' first (limit - first)).find? (fun i => !bit b i) = some i) :
    first ≤ i ∧ i < limit ∧ bit b i = false := by
  have hmem := mem_range'_1.mp (mem_of_find?_eq_some h)
  have hbit := find?_some h
  exact ⟨hmem.1, by omega, by simpa using hbit⟩

theorem find_clear_none (h : (range' first (limit - first)).find? (fun i => !bit b i) = none) (hi : first ≤ i)
    (hi' : i < limit) : bit b i ≠ false := by
  have hno := find?_eq_none.mp h i (mem_range'_1.mpr ⟨hi, by omega⟩)
  simpa using hno

/-- **`alloc_block`** takes a free block, if there is one. -/
theorem wp_allocBlock {Q : ℕ → State → Prop} (h : Regular s)
    (hQ : ∀ b s', s.view.FreeBlock b → Regular s' → s'.view = s.view.setBlockBit b true → Q b s')
    (hE : (∀ b, ¬s.view.FreeBlock b) → E s) : wp allocBlock Q E s := by
  rw [allocBlock, wp_bind, wp_gets, wp_bind, allocBit, wp_bind, blockBitmap,
    wp_bread h.toLayout (by decide), h.blocks, firstData]
  rcases hfind : (List.range' (260 + 1) (16384 - (260 + 1))).find? (fun i => !bit (s.block 2) i)
    with _ | i
  · exact hE fun b hb => find_clear_none hfind hb.1 hb.2.1 hb.2.2
  · obtain ⟨hi, hi', hbit⟩ := find_clear hfind
    have hbit' : s.view.blockBit i = false := hbit
    rw [wp_bind, wp_bwrite h.toLayout (by decide), wp_bind]
    refine h.wp_counters_blocks (bit_clip_setBit s 2 (by omega)) ?_ ?_
    · have hcount := clearBits_set (show i < 32768 by omega) hbit'
      change ((clearBits (update s.view.blockBit i true) : ℕ) : ℤ) = _
      simp only [Bool.false_eq_true, if_false]
      omega
    · intro s' hs' hview
      exact hQ i s' ⟨hi, hi', hbit'⟩ hs' hview

/-- **`alloc_inode`** takes a free inode, if there is one. -/
theorem wp_allocInode {Q : ℕ → State → Prop} (h : Regular s)
    (hQ : ∀ ino s', s.view.FreeInode ino → Regular s' → s'.view = s.view.setInodeBit ino true → Q ino s')
    (hE : (∀ ino, ¬s.view.FreeInode ino) → E s) : wp allocInode Q E s := by
  rw [allocInode, allocBit, wp_bind, inodeBitmap, wp_bread h.toLayout (by decide), inodes]
  rcases hfind : (range' 10 (8192 - 10)).find? (fun i => !bit (s.block 3) i) with _ | i
  · refine hE ?_
    rintro ino ⟨hlow, hhigh, hclear⟩
    exact find_clear_none hfind (by omega) (by omega) hclear
  · obtain ⟨hi, hi', hbit⟩ := find_clear hfind
    have hbit' : s.view.inodeBit i = false := hbit
    rw [wp_bind, wp_bwrite h.toLayout (by decide), wp_bind]
    refine h.wp_counters_inodes (bit_clip_setBit s 3 (by omega)) ?_ ?_
    · have hcount := clearBits_set (show i < 32768 by omega) hbit'
      change ((clearBits (update s.view.inodeBit i true) : ℕ) : ℤ) = _
      simp only [if_true]
      omega
    · intro s' hs' hview
      exact hQ (i + 1) s' ⟨by omega, by omega, hbit'⟩ hs' hview

/-- **`free_bit`** for a block in use. -/
theorem wp_freeBlock (h : Regular s) {b : ℕ} (hb : b < 32768) (hused : s.view.blockBit b = true)
    (hQ : ∀ s', Regular s' → s'.view = s.view.setBlockBit b false → Q () s') :
    wp (freeBit blockBitmap (b + 1) false) Q E s := by
  rw [freeBit, wp_bind, wp_require]
  refine ⟨fun _ => ?_, fun hno => absurd (Nat.succ_ne_zero b) hno⟩
  rw [wp_bind, blockBitmap, wp_bread h.toLayout (by decide), wp_bind, wp_bwrite h.toLayout (by decide),
    Nat.add_sub_cancel]
  refine h.wp_counters_blocks (bit_clip_clearBit s 2 hb) ?_ hQ
  have hcount := clearBits_clear hb hused
  change ((clearBits (update s.view.blockBit b false) : ℕ) : ℤ) = _
  simp only [Bool.false_eq_true, if_false]
  omega

/-- **`free_bit`** for an inode in use. -/
theorem wp_freeInode (h : Regular s) (h1 : 1 ≤ ino) (h2 : ino ≤ 8192) (hused : s.view.inodeBit (ino - 1) = true)
    (hQ : ∀ s', Regular s' →
      s'.view = s.view.setInodeBit ino false → Q () s') : wp (freeBit inodeBitmap ino true) Q E s := by
  rw [freeBit, wp_bind, wp_require]
  refine ⟨fun _ => ?_, fun hno => absurd (by omega : ino ≠ 0) hno⟩
  rw [wp_bind, inodeBitmap, wp_bread h.toLayout (by decide), wp_bind, wp_bwrite h.toLayout (by decide)]
  refine h.wp_counters_inodes (bit_clip_clearBit s 3 (by omega)) ?_ hQ
  have hcount := clearBits_clear (show ino - 1 < 32768 by omega) hused
  change ((clearBits (update s.view.inodeBit (ino - 1) false) : ℕ) : ℤ) = _
  simp only [if_true]
  omega

end Ext2

end OS64
