import OS64.Ext2.Blocks

/-!
# Formatting

`ext_variant_format` writes the tables of an empty volume: superblock, group
descriptor, both bitmaps, the inode table and the block of the root. From level 3 on
it then reserves 1025 blocks and makes them a file, the journal, in inode 8, which
no directory has an entry for. Whatever was on the disk before, the result is a
sound volume (`OS64.Ext2.formatted_extVariantFormat`).
-/

namespace OS64.Ext2

open List Function ByteMem Bits Fallible Pointers

/-! ### Bitmaps -/

theorem bit_foldl_setBit (l : List ℕ) (b : ByteMem) (i : ℕ) :
    bit (l.foldl setBit b) i = (bit b i || decide (i ∈ l)) := by
  induction l generalizing b with
  | nil => simp
  | cons j l ih =>
    rw [foldl_cons, ih, bit_setBit]
    by_cases hi : i = j
    · simp [hi]
    · simp [hi]

/-- A run of bits is set. -/
theorem bit_setBits (b : ByteMem) (first n i : ℕ) :
    bit (setBits b first n) i = (bit b i || decide (first ≤ i ∧ i < first + n)) := by
  rw [setBits, bit_foldl_setBit]
  congr 2
  rw [mem_range'_1]

theorem bit_zero (i : ℕ) : bit zero i = false := Nat.zero_testBit _

/-- The number of the clear bits, where these are all bits of an interval. -/
theorem clearBits_eq {bits : ℕ → Bool} {low high : ℕ} (hhigh : high ≤ 32768)
    (h : ∀ b < 32768, bits b = false ↔ low ≤ b ∧ b < high) : clearBits bits = high - low := by
  rw [clearBits, Counting.count, ← Nat.card_Ico]
  refine congrArg Finset.card ?_
  ext b
  rw [Finset.mem_filter, Finset.mem_range, Finset.mem_Ico]
  constructor
  · rintro ⟨hb, hclear⟩
    exact (h b hb).1 hclear
  · rintro hb
    exact ⟨by omega, (h b (by omega)).2 hb⟩

/-! ### An empty volume -/

/-- The tables of an empty volume. -/
structure Empty (s : State) : Prop extends Layout s where
  super : s.block 0 = clip (superBlock 16384)
  group : s.block 1 = clip (groupDescriptor 16384)
  blockBits : s.block 2 = clip (setBits (setBits zero 0 261) 16384 16384)
  inodeBits : s.block 3 = clip (setBits (setBits zero 0 10) 8192 24576)
  table : ∀ m, 4 < m → m < 260 → s.block m = zero
  first : s.block 4 = clip (putRecord zero 128 rootInode)
  root : s.block 260 = clip (newDirectory 2 2)

theorem clip_zero : clip zero = zero := by
  funext x
  exact ite_self _

/-- `s'` is `s` with another contents of some blocks. -/
structure Rewritten (s s' : State) (block : ℕ → ByteMem) : Prop where
  base : s'.base = s.base
  blocks : s'.blocks = s.blocks
  mounted : s'.mounted = s.mounted
  block : ∀ m, s'.block m = block m

theorem Rewritten.layout {s s' : State} {block : ℕ → ByteMem} (h : Rewritten s s' block) (hs : Layout s) : Layout s' :=
  ⟨h.base.trans hs.base, h.blocks.trans hs.blocks, h.mounted.trans hs.mounted⟩

theorem rewritten_writeBlock (s : State) (n : ℕ) (b : ByteMem) :
    Rewritten s (s.writeBlock n b) fun m => if m = n then clip b else s.block m :=
  ⟨rfl, rfl, rfl, fun m => State.block_writeBlock s n m b⟩

variable {s : State}

theorem run_bwrite_rewritten {n : ℕ} (hn : n < s.blocks) (b : ByteMem) :
    ∃ s', (bwrite n b).run s = (some (), s') ∧ Rewritten s s' fun m => if m = n then clip b else s.block m :=
  ⟨_, run_bwrite_of_lt hn b, rewritten_writeBlock s n b⟩

/-- Zeros in some blocks, with either of the two functions that write blocks. -/
theorem run_zeroBlocks (write : ℕ → ByteMem → M Unit) (l : List ℕ)
    (h : ∀ n ∈ l, ∀ s' : State, s'.base = s.base → s'.blocks = s.blocks →
      (write n zero).run s' = (some (), s'.writeBlock n zero)) :
    ∃ s', (zeroBlocks write l).run s = (some (), s') ∧ Rewritten s s' fun m => if m ∈ l then zero else s.block m := by
  induction l generalizing s with
  | nil => exact ⟨s, rfl, rfl, rfl, rfl, fun m => (if_neg not_mem_nil).symm⟩
  | cons n l ih =>
    obtain ⟨s', hrun, hbase, hblocks, hmounted, hblock⟩ :=
      ih (s := s.writeBlock n zero) fun m hm => h m (mem_cons_of_mem _ hm)
    refine ⟨s', ?_, hbase, hblocks, hmounted, fun m => ?_⟩
    · rw [zeroBlocks, run_bind_some (h n mem_cons_self s rfl rfl), hrun]
    · rw [hblock, State.block_writeBlock, clip_zero]
      by_cases hm : m ∈ l
      · rw [if_pos hm, if_pos (mem_cons_of_mem _ hm)]
      · rw [if_neg hm]
        by_cases heq : m = n
        · rw [if_pos heq, if_pos (heq ▸ mem_cons_self)]
        · rw [if_neg heq, if_neg]
          exact fun hmem => (mem_cons.1 hmem).elim heq hm

/-- The tables are written one after the other. -/
theorem run_tables (hbase : s.base = 131072) (hblocks : s.blocks = 16384) :
    ∃ s', Fallible.run (show M Unit from do
      bwrite 0 (superBlock 16384)
      bwrite 1 (groupDescriptor 16384)
      bwrite blockBitmap (setBits (setBits zero 0 261) 16384 16384)
      bwrite inodeBitmap (setBits (setBits zero 0 10) 8192 24576)
      zeroBlocks bwrite (List.range' inodeTable 256)
      inodePut rootIno rootInode
      let written ← recover (bwrite firstData (newDirectory rootIno rootIno))
      modify fun s => { s with mounted := written.isSome }
      require (written.isSome = true)) s = (some (), s') ∧ Empty s' := by
  obtain ⟨s₁, hrun₁, hw₁⟩ := run_bwrite_rewritten (s := s) (n := 0) (by omega) (superBlock 16384)
  have hb₁ : s₁.blocks = 16384 := hw₁.blocks.trans hblocks
  obtain ⟨s₂, hrun₂, hw₂⟩ := run_bwrite_rewritten (s := s₁) (n := 1) (by omega) (groupDescriptor 16384)
  have hb₂ : s₂.blocks = 16384 := hw₂.blocks.trans hb₁
  obtain ⟨s₃, hrun₃, hw₃⟩ := run_bwrite_rewritten (s := s₂) (n := 2) (by omega)
    (setBits (setBits zero 0 261) 16384 16384)
  have hb₃ : s₃.blocks = 16384 := hw₃.blocks.trans hb₂
  obtain ⟨s₄, hrun₄, hw₄⟩ := run_bwrite_rewritten (s := s₃) (n := 3) (by omega)
    (setBits (setBits zero 0 10) 8192 24576)
  have hb₄ : s₄.blocks = 16384 := hw₄.blocks.trans hb₃
  obtain ⟨s₅, hrun₅, hw₅⟩ := run_zeroBlocks bwrite (List.range' 4 256) (s := s₄) fun n hn s' _ hs' => by
    rw [mem_range'_1] at hn
    exact run_bwrite_of_lt (by omega) zero
  have hb₅ : s₅.blocks = 16384 := hw₅.blocks.trans hb₄
  -- the root is in a block of the table that is zero now
  have hfour : s₅.block 4 = zero := by
    rw [hw₅.block, if_pos]
    rw [mem_range'_1]
    omega
  obtain ⟨s₆, hrun₆, hw₆⟩ := run_bwrite_rewritten (s := s₅) (n := 4) (by omega) (putRecord zero 128 rootInode)
  have hb₆ : s₆.blocks = 16384 := hw₆.blocks.trans hb₅
  have hput : (inodePut rootIno rootInode).run s₅ = (some (), s₆) := by
    have hread : (bread 4).run s₅ = (some zero, s₅) := by
      rw [← hfour]
      exact run_bread_of_lt (by omega)
    exact (run_bind_some hread).trans hrun₆
  obtain ⟨s₇, hrun₇, hw₇⟩ := run_bwrite_rewritten (s := s₆) (n := 260) (by omega) (newDirectory 2 2)
  have hb₇ : s₇.blocks = 16384 := hw₇.blocks.trans hb₆
  have hrecover : (recover (bwrite firstData (newDirectory rootIno rootIno))).run s₆ = (some (some ()), s₇) := by
    exact congrArg (fun x => (some x.1, x.2)) hrun₇
  refine ⟨{ s₇ with mounted := true }, ?_, ?_⟩
  · rw [run_bind_some hrun₁, run_bind_some hrun₂]
    refine (run_bind_some hrun₃).trans ?_
    refine (run_bind_some hrun₄).trans ?_
    refine (run_bind_some hrun₅).trans ?_
    rw [run_bind_some hput, run_bind_some hrecover, run_bind_some (run_modify _ _)]
    exact run_require_pos rfl _
  · have hbase₇ : s₇.base = 131072 := by
      rw [hw₇.base, hw₆.base, hw₅.base, hw₄.base, hw₃.base, hw₂.base, hw₁.base, hbase]
    have hlow : ∀ m, m < 4 → s₇.block m = s₄.block m := by
      intro m hm
      rw [hw₇.block, if_neg (by omega), hw₆.block, if_neg (by omega), hw₅.block, if_neg]
      rw [mem_range'_1]
      omega
    refine ⟨⟨hbase₇, hb₇, rfl⟩, ?_, ?_, ?_, ?_, ?_, ?_, ?_⟩
    · refine (hlow 0 (by decide)).trans ?_
      rw [hw₄.block, if_neg (by decide), hw₃.block, if_neg (by decide), hw₂.block, if_neg (by decide),
        hw₁.block, if_pos rfl]
    · refine (hlow 1 (by decide)).trans ?_
      rw [hw₄.block, if_neg (by decide), hw₃.block, if_neg (by decide), hw₂.block, if_pos rfl]
    · refine (hlow 2 (by decide)).trans ?_
      rw [hw₄.block, if_neg (by decide), hw₃.block, if_pos rfl]
    · refine (hlow 3 (by decide)).trans ?_
      rw [hw₄.block, if_pos rfl]
    · intro m hm hm'
      refine (hw₇.block m).trans ?_
      rw [if_neg (by omega), hw₆.block, if_neg (by omega), hw₅.block, if_pos]
      rw [mem_range'_1]
      omega
    · refine (hw₇.block 4).trans ?_
      rw [if_neg (by decide), hw₆.block, if_pos rfl]
    · refine (hw₇.block 260).trans ?_
      rw [if_pos rfl]

/-- **`ext2_format`** makes an empty volume of any disk. -/
theorem run_ext2Format (s : State) : ∃ s', ext2Format.run s = (some (), s') ∧ Empty s' := by
  have hsize : Fat.varSectors / 8 = 16384 := rfl
  have hrest : 32768 - 16384 = 16384 := rfl
  have hrestInodes : 32768 - inodes = 24576 := rfl
  have hdata : firstData + 1 = 261 := rfl
  have hinodes : inodes = 8192 := rfl
  obtain ⟨s', hrun, hempty⟩ := run_tables (s := { s with base := Fat.varStart, blocks := 16384 }) rfl rfl
  refine ⟨s', ?_, hempty⟩
  rw [ext2Format, hsize, run_bind_some (run_modify _ _), run_bind_some (run_gets _ _)]
  dsimp only
  rw [run_bind_some (run_require_pos (by decide) _), hrest, hrestInodes, hdata, hinodes]
  exact hrun

/-! ### An empty volume is sound -/

section Empty

variable {s : State} (h : Empty s)

include h

variable {b : ℕ}

theorem Empty.blockBit (hb : b < 32768) : s.view.blockBit b = decide (b < 261 ∨ 16384 ≤ b) := by
  change bit (s.block 2) b = _
  rw [h.blockBits, bit_clip _ hb, bit_setBits, bit_setBits, bit_zero, Bool.false_or, ← Bool.decide_or]
  refine decide_eq_decide.2 ?_
  omega

theorem Empty.inodeBit (hb : b < 32768) : s.view.inodeBit b = decide (b < 10 ∨ 8192 ≤ b) := by
  change bit (s.block 3) b = _
  rw [h.inodeBits, bit_clip _ hb, bit_setBits, bit_setBits, bit_zero, Bool.false_or, ← Bool.decide_or]
  refine decide_eq_decide.2 ?_
  omega

/-- The root is the only inode. -/
theorem Empty.inode (i : ℕ) : s.view.inode i = if i = 2 then clipRecord rootInode else zero := by
  rw [State.view]
  dsimp only
  have hget : ∀ off, getRecord zero off = zero := fun off => by
    funext x
    exact ite_self _
  by_cases hi : 1 ≤ i ∧ i ≤ 8192
  · rw [if_pos hi]
    by_cases hfirst : i ≤ 32
    · rw [show 4 + (i - 1) / 32 = 4 by omega, h.first, getRecord_clip _ (by omega),
        getRecord_putRecord _ _ _ _ (by omega), hget]
      by_cases htwo : i = 2
      · rw [if_pos (by omega), if_pos htwo]
      · rw [if_neg (by omega), if_neg htwo]
    · rw [h.table _ (by omega) (by omega), hget, if_neg (by omega)]
  · rw [if_neg hi, if_neg (by omega)]

theorem Empty.regular : Regular s := by
  have hblocks : clearBits s.view.blockBit = 16384 - 261 := by
    refine clearBits_eq (by decide) fun b hb => ?_
    rw [h.blockBit hb, decide_eq_false_iff_not]
    omega
  have hinodes : clearBits s.view.inodeBit = 8192 - 10 := by
    refine clearBits_eq (by decide) fun b hb => ?_
    rw [h.inodeBit hb, decide_eq_false_iff_not]
    omega
  refine ⟨h.toLayout, ?_, ?_, ?_, ?_⟩
  · rw [hblocks, h.super, r32, readLE_clip _ (by decide)]
    decide +kernel
  · rw [hinodes, h.super, r32, readLE_clip _ (by decide)]
    decide +kernel
  · rw [hblocks, h.group, r16, readLE_clip _ (by decide)]
    decide +kernel
  · rw [hinodes, h.group, r16, readLE_clip _ (by decide)]
    decide +kernel

theorem Empty.isDir_iff {i : ℕ} : s.view.IsDir i ↔ i = 2 := by
  rw [View.IsDir, h.inode]
  by_cases hi : i = 2
  · rw [if_pos hi, isDir_clipRecord, rootInode, isDir_directoryInode]
    exact iff_of_true rfl hi
  · rw [if_neg hi, isDir_zero]
    exact iff_of_false Bool.false_ne_true hi

theorem Empty.ptr (i k : ℕ) : s.view.ptr i k = if i = 2 ∧ k = 0 then 260 else 0 := by
  rw [View.ptr, h.inode]
  by_cases hi : i = 2
  · rw [if_pos hi, pointer_clipRecord, rootInode, pointer_directoryInode _ (by decide), update_apply]
    simp only [hi, true_and, firstData]
  · rw [if_neg hi, pointer_zero, if_neg fun hand => hi hand.1]

theorem Empty.listing : Listing (s.view.data (s.view.ptr 2 0)) [⟨dotName, 2, 2⟩, ⟨dotdotName, 2, 2⟩] := by
  have hdata : s.view.data 260 = clip (newDirectory 2 2) := h.root
  rw [h.ptr, if_pos ⟨rfl, rfl⟩, hdata]
  exact (listing_newDirectory (by decide) (by decide) (by decide) (by decide)).clip

/-- The entries of the root lead back to it. -/
theorem Empty.look_iff {d i : ℕ} {name : Path} :
    s.view.look d name = some i ↔ d = 2 ∧ i = 2 ∧ (name = dotName ∨ name = dotdotName) := by
  by_cases hd : d = 2
  · subst hd
    rw [View.look_iff (h.isDir_iff.2 rfl) h.listing]
    simp only [mem_cons, not_mem_nil, or_false, exists_eq_or_imp, exists_eq_left]
    constructor
    · rintro (⟨hname, hi⟩ | ⟨hname, hi⟩)
      · exact ⟨trivial, hi.symm, .inl hname.symm⟩
      · exact ⟨trivial, hi.symm, .inr hname.symm⟩
    · rintro ⟨-, hi, hname | hname⟩
      · exact .inl ⟨hname.symm, hi.symm⟩
      · exact .inr ⟨hname.symm, hi.symm⟩
  · rw [View.look_of_not_isDir fun hdir => hd (h.isDir_iff.1 hdir)]
    exact iff_of_false (by simp) fun hand => hd hand.1

theorem Empty.tree : Tree.IsTree dotName dotdotName rootIno s.view.dirs := by
  have hplain : ∀ {d i : ℕ} {name : Path}, s.view.look d name = some i → ¬Tree.Plain dotName dotdotName name :=
    fun hlook hname => (h.look_iff.1 hlook).2.2.elim hname.1 hname.2
  have hused : s.view.Used 2 := ⟨by decide, by decide, h.inodeBit (by decide)⟩
  refine ⟨?_, h.isDir_iff.2 rfl, ?_, ?_, ?_, ?_, ?_, ?_, h.look_iff.2 ⟨rfl, rfl, .inr rfl⟩⟩
  · intro d hd
    rw [h.isDir_iff.1 hd]
    exact hused
  · intro d name i hlook
    exact h.isDir_iff.2 (h.look_iff.1 hlook).1
  · intro d hd
    have hd' := h.isDir_iff.1 hd
    exact h.look_iff.2 ⟨hd', hd', .inl rfl⟩
  · intro d hd
    exact ⟨2, h.look_iff.2 ⟨h.isDir_iff.1 hd, rfl, .inr rfl⟩⟩
  · intro d name i hlook hname
    exact absurd hname (hplain hlook)
  · intro d name d' name' i hlook _ hname _
    exact absurd hname (hplain hlook)
  · intro d name i hlook hname _
    exact absurd hname (hplain hlook)

/-- **An empty volume is sound.** -/
theorem Empty.good : Good s fun _ => 0 := by
  refine ⟨h.regular, ⟨?_, ?_⟩, ?_, ?_, h.tree, ?_⟩
  · rintro (⟨i, k⟩ | k) (⟨i', k'⟩ | k') heq hne
    · rw [all_inl, h.ptr] at hne
      rw [all_inl, all_inl, h.ptr, h.ptr] at heq
      by_cases hroot : i = 2 ∧ k = 0
      · rw [if_pos hroot] at heq
        by_cases hroot' : i' = 2 ∧ k' = 0
        · rw [hroot.1, hroot.2, hroot'.1, hroot'.2]
        · rw [if_neg hroot'] at heq
          cases heq
      · exact absurd (if_neg hroot) hne
    · exact absurd heq hne
    · exact absurd rfl hne
    · exact absurd rfl hne
  · rintro (⟨i, k⟩ | k) hne
    · rw [all_inl, h.ptr] at hne ⊢
      by_cases hroot : i = 2 ∧ k = 0
      · rw [if_pos hroot]
        exact ⟨le_rfl, by decide, h.blockBit (by decide)⟩
      · exact absurd (if_neg hroot) hne
    · exact absurd rfl hne
  · intro i hi
    rw [h.inode, if_neg]
    rintro rfl
    exact hi ⟨by decide, by decide, h.inodeBit (by decide)⟩
  · intro d hd
    obtain rfl := h.isDir_iff.1 hd
    refine ⟨by rw [h.ptr]; decide, _, h.listing, ?_⟩
    intro e he hplain
    have hlook := View.look_of_mem hd h.listing he
    exact ((h.look_iff.1 hlook).2.2.elim hplain.1 hplain.2).elim
  · intro i hi
    rw [h.isDir_iff] at hi
    have hsize : (s.view.inode i).size = 0 := by
      rw [h.inode, if_neg hi]
      rfl
    rw [hsize]
    exact ⟨Nat.zero_le _, fun j hj => absurd hj (Nat.not_lt_zero _)⟩

end Empty

/-! ### The journal -/

theorem run_rd (hbase : s.base = 131072) (n : ℕ) : (rd n).run s = (some (s.block n), s) := by
  rw [rd, run_gets, State.block, hbase]
  rfl

theorem run_wr (hbase : s.base = 131072) (n : ℕ) (b : ByteMem) : (wr n b).run s = (some (), s.writeBlock n b) := by
  rw [wr, run_modify, State.writeBlock, hbase]
  rfl

theorem run_wr_rewritten (h : Layout s) (n : ℕ) (b : ByteMem) :
    ∃ s', (wr n b).run s = (some (), s') ∧ Layout s' ∧ Rewritten s s' fun m => if m = n then clip b else s.block m :=
  ⟨_, run_wr h.base n b, h.writeBlock n b, rewritten_writeBlock s n b⟩

/-- The blocks of a volume that gets a journal. -/
structure Journaled (s s' : State) : Prop extends Layout s' where
  superBlocks : r32 (s'.block 0) 1036 = clearBits s.view.blockBit - 1025
  superInodes : r32 (s'.block 0) 1040 = clearBits s.view.inodeBit
  groupBlocks : r16 (s'.block 1) 12 = clearBits s.view.blockBit - 1025
  groupInodes : r16 (s'.block 1) 14 = clearBits s.view.inodeBit
  blockBits : s'.block 2 = clip (setBits (s.block 2) 261 1025)
  first : s'.block 4 = clip (putRecord (s.block 4) 896 journalInode)
  indirect : s'.block 1285 = clip journalEntries
  others : ∀ m, m = 3 ∨ 4 < m → m < 261 → s'.block m = s.block m

/-- **`add_journal`** writes these blocks. -/
theorem run_addJournal (h : Regular s) (hfree : 1025 ≤ clearBits s.view.blockBit) :
    ∃ s', addJournal.run s = (some (), s') ∧ Journaled s s' := by
  have hle := clearBits_le s.view.blockBit
  have hadjust : adjust (clearBits s.view.blockBit) (-1025) = clearBits s.view.blockBit - 1025 :=
    adjust_eq (by omega) (by omega)
  obtain ⟨s₁, hrun₁, hl₁, hw₁⟩ := run_wr_rewritten h.toLayout 2 (setBits (s.block 2) 261 1025)
  have hzero : s₁.block 0 = s.block 0 := by rw [hw₁.block, if_neg (by decide)]
  obtain ⟨b, hb⟩ : ∃ b, b = w32 (s.block 0) 1036 (adjust (r32 (s.block 0) 1036) (-1025)) := ⟨_, rfl⟩
  obtain ⟨s₂, hrun₂, hl₂, hw₂⟩ := run_wr_rewritten hl₁ 0 (w32 (w32 b 1116 (r32 b 1116 ||| 4)) 1248 8)
  have hone : s₂.block 1 = s.block 1 := by
    rw [hw₂.block, if_neg (by decide), hw₁.block, if_neg (by decide)]
  obtain ⟨s₃, hrun₃, hl₃, hw₃⟩ := run_wr_rewritten hl₂ 1
    (w16 (s.block 1) 12 (adjust (r16 (s.block 1) 12) (-1025)))
  have hfour : s₃.block 4 = s.block 4 := by
    rw [hw₃.block, if_neg (by decide), hw₂.block, if_neg (by decide), hw₁.block, if_neg (by decide)]
  obtain ⟨s₄, hrun₄, hl₄, hw₄⟩ := run_wr_rewritten hl₃ 4 (putRecord (s.block 4) 896 journalInode)
  obtain ⟨s₅, hrun₅, hl₅, hw₅⟩ := run_wr_rewritten hl₄ 1285 journalEntries
  obtain ⟨s₆, hrun₆, hl₆, hw₆⟩ := run_wr_rewritten hl₅ 261 journalSuper
  obtain ⟨s₇, hrun₇, hw₇⟩ := run_zeroBlocks wr (List.range' 262 1023) (s := s₆)
    fun n _ s' hs' _ => run_wr (hs'.trans hl₆.base) n zero
  refine ⟨s₇, ?_, ?_⟩
  · rw [addJournal, run_bind_some (run_rd h.base 2)]
    refine (run_bind_some hrun₁).trans ?_
    rw [run_bind_some (run_rd hl₁.base 0), hzero]
    rw [hb] at hrun₂
    refine (run_bind_some hrun₂).trans ?_
    rw [run_bind_some (run_rd hl₂.base 1), hone]
    refine (run_bind_some hrun₃).trans ?_
    rw [run_bind_some (run_rd hl₃.base 4), hfour]
    refine (run_bind_some hrun₄).trans ?_
    refine (run_bind_some hrun₅).trans ?_
    exact (run_bind_some hrun₆).trans hrun₇
  · -- blocks of the journal first, then each of the others
    have hlow : ∀ m, m < 261 → s₇.block m = s₄.block m := by
      intro m hm
      rw [hw₇.block, if_neg, hw₆.block, if_neg (by omega), hw₅.block, if_neg (by omega)]
      rw [mem_range'_1]
      omega
    have hhead : ∀ m, m < 4 → s₇.block m = s₃.block m := by
      intro m hm
      rw [hlow m (by omega), hw₄.block, if_neg (by omega)]
    have hsuper : s₇.block 0 = clip (w32 (w32 b 1116 (r32 b 1116 ||| 4)) 1248 8) := by
      rw [hhead 0 (by decide), hw₃.block, if_neg (by decide), hw₂.block, if_pos rfl]
    have hgroup : s₇.block 1 = clip (w16 (s.block 1) 12 (adjust (r16 (s.block 1) 12) (-1025))) := by
      rw [hhead 1 (by decide), hw₃.block, if_pos rfl]
    refine ⟨hw₇.layout hl₆, ?_, ?_, ?_, ?_, ?_, ?_, ?_, ?_⟩
    · rw [hsuper, r32, readLE_clip _ (by decide), w32, readLE_writeLE_of_disjoint _ (by decide), w32,
        readLE_writeLE_of_disjoint _ (by decide), hb, h.superBlocks, hadjust]
      exact readLE_writeLE_of_lt _ (by omega)
    · rw [hsuper, r32, readLE_clip _ (by decide), w32, readLE_writeLE_of_disjoint _ (by decide), w32,
        readLE_writeLE_of_disjoint _ (by decide), hb, ← h.superInodes]
      exact readLE_writeLE_of_disjoint _ (by decide)
    · rw [hgroup, r16, readLE_clip _ (by decide), h.groupBlocks, hadjust]
      exact readLE_writeLE_of_lt _ (by omega)
    · rw [hgroup, r16, readLE_clip _ (by decide), ← h.groupInodes]
      exact readLE_writeLE_of_disjoint _ (by decide)
    · rw [hhead 2 (by decide), hw₃.block, if_neg (by decide), hw₂.block, if_neg (by decide), hw₁.block, if_pos rfl]
    · rw [hlow 4 (by decide), hw₄.block, if_pos rfl]
    · rw [hw₇.block, if_neg, hw₆.block, if_neg (by decide), hw₅.block, if_pos rfl]
      rw [mem_range'_1]
      omega
    · intro m hm hm'
      rw [hlow m hm', hw₄.block, if_neg (by omega), hw₃.block, if_neg (by omega), hw₂.block,
        if_neg (by omega), hw₁.block, if_neg (by omega)]

/-- The entries of the indirect block. -/
theorem r32_journalEntries (k : ℕ) : r32 journalEntries (k * 4) = if k < 1012 then 273 + k else 0 := by
  have hfold : ∀ n ≤ 1012, r32 ((List.range n).foldl (fun b i => w32 b (i * 4) (journalFirst + 12 + i)) zero)
      (k * 4) = if k < n then 273 + k else 0 := by
    intro n
    induction n with
    | zero => exact fun _ => readLE_eq_zero fun _ _ _ => rfl
    | succ n ih =>
      intro hn
      rw [range_succ, foldl_append, foldl_cons, foldl_nil]
      by_cases hkn : k = n
      · rw [if_pos (by omega), hkn]
        exact readLE_writeLE_of_lt _ (show 273 + n < 256 ^ 4 by omega)
      · refine (readLE_writeLE_of_disjoint _ (by omega)).trans ((ih (by omega)).trans ?_)
        by_cases hlt : k < n
        · rw [if_pos hlt, if_pos (by omega)]
        · rw [if_neg hlt, if_neg (by omega)]
  exact hfold 1012 le_rfl

/-- The pointers of the journal, which is in one piece but for its indirect
block. -/
theorem pointer_journalInode {data : ℕ → ByteMem} (h : data 1285 = clip journalEntries) (k : ℕ) :
    pointer data journalInode k =
      if k < 12 then 261 + k else if k = 12 then 1285 else if k < 1025 then 260 + k else 0 := by
  have hdirect : ∀ j < 13, journalInode.block j = if j < 12 then 261 + j else 1285 := by decide +kernel
  have hindirect : journalInode.block 12 = 1285 := hdirect 12 (by decide)
  by_cases hk : k < 13
  · rw [pointer_of_lt hk, hdirect k hk]
    by_cases hk' : k < 12
    · rw [if_pos hk', if_pos hk']
    · rw [if_neg hk', if_neg hk', if_pos (by omega)]
  · rw [pointer, if_neg hk, hindirect, if_neg (show ¬k < 12 by omega), if_neg (show ¬k = 12 by omega)]
    by_cases hlast : k < 1037
    · rw [if_pos ⟨hlast, by decide⟩, h, r32, readLE_clip _ (by omega)]
      refine (r32_journalEntries (k - 13)).trans ?_
      by_cases hin : k < 1025
      · rw [if_pos (by omega), if_pos hin]
        omega
      · rw [if_neg (by omega), if_neg hin]
    · rw [if_neg fun hand => hlast hand.1, if_neg (by omega)]

/-! ### Formatted volumes -/

/-- A volume as it is right after formatting: sound, with no entries, and with the
inodes and blocks free that formatting does not need. -/
structure Formatted (s : State) : Prop extends Good s fun _ => 0 where
  isDir_iff : ∀ {i}, s.view.IsDir i ↔ i = 2
  look_iff : ∀ {d name i}, s.view.look d name = some i ↔
    d = 2 ∧ i = 2 ∧ (name = dotName ∨ name = dotdotName)
  inodeBit : ∀ b, 10 ≤ b → b < 8192 → s.view.inodeBit b = false
  blockBit : ∀ b, 1286 ≤ b → b < 16384 → s.view.blockBit b = false

theorem Empty.formatted (h : Empty s) : Formatted s where
  toGood := h.good
  isDir_iff := h.isDir_iff
  look_iff := h.look_iff
  inodeBit b hb hb' := by
    rw [h.inodeBit (by omega), decide_eq_false_iff_not]
    omega
  blockBit b hb hb' := by
    rw [h.blockBit (by omega), decide_eq_false_iff_not]
    omega

section Journaled

variable {s s' : State} (h : Journaled s s') (hs : Empty s)

include h hs

theorem Journaled.blockBit {b : ℕ} (hb : b < 32768) : s'.view.blockBit b = decide (b < 1286 ∨ 16384 ≤ b) := by
  have hold : bit (s.block 2) b = decide (b < 261 ∨ 16384 ≤ b) := hs.blockBit hb
  change bit (s'.block 2) b = _
  rw [h.blockBits, bit_clip _ hb, bit_setBits, hold, ← Bool.decide_or]
  refine decide_eq_decide.2 ?_
  omega

omit hs in
theorem Journaled.inodeBit : s'.view.inodeBit = s.view.inodeBit := by
  change bit (s'.block 3) = _
  rw [h.others 3 (.inl rfl) (by decide)]
  rfl

omit hs in
theorem Journaled.inode : s'.view.inode = update s.view.inode 8 (clipRecord journalInode) := by
  funext i
  rw [State.view, update_apply]
  dsimp only
  by_cases hi : 1 ≤ i ∧ i ≤ 8192
  · rw [if_pos hi]
    by_cases hfirst : i ≤ 32
    · rw [show 4 + (i - 1) / 32 = 4 by omega, h.first, getRecord_clip _ (by omega),
        getRecord_putRecord _ _ _ _ (by omega)]
      by_cases height : i = 8
      · rw [if_pos (by omega), if_pos height]
      · rw [if_neg (by omega), if_neg height, State.view]
        dsimp only
        rw [if_pos hi, show 4 + (i - 1) / 32 = 4 by omega]
    · rw [h.others _ (by omega) (by omega), if_neg (by omega), State.view]
      dsimp only
      rw [if_pos hi]
  · rw [if_neg hi, if_neg (by omega), State.view]
    exact (if_neg hi).symm

theorem Journaled.regular : Regular s' := by
  have hbefore : clearBits s.view.blockBit = 16384 - 261 := by
    refine clearBits_eq (by decide) fun b hb => ?_
    rw [hs.blockBit hb, decide_eq_false_iff_not]
    omega
  have hafter : clearBits s'.view.blockBit = 16384 - 1286 := by
    refine clearBits_eq (by decide) fun b hb => ?_
    rw [h.blockBit hs hb, decide_eq_false_iff_not]
    omega
  refine ⟨h.toLayout, ?_, ?_, ?_, ?_⟩
  · rw [h.superBlocks, hbefore, hafter]
  · rw [h.superInodes, h.inodeBit]
  · rw [h.groupBlocks, hbefore, hafter]
  · rw [h.groupInodes, h.inodeBit]

/-- **A volume with a journal** is formatted like one without. -/
theorem Journaled.formatted : Formatted s' := by
  -- the volume before the inode of the journal is written
  obtain ⟨v, hv⟩ : ∃ v : View, v = ⟨s'.view.blockBit, s'.view.inodeBit, s.view.inode, s'.view.data⟩ := ⟨_, rfl⟩
  have hview : s'.view = v.setInode 8 (clipRecord journalInode) := by
    rw [hv, View.setInode, ← h.inode]
  have hroot : s'.view.data 260 = s.view.data 260 := h.others 260 (.inr (by decide)) (by decide)
  have hindirect : v.data 1285 = clip journalEntries := by
    rw [hv]
    exact h.indirect
  have hu : Untouched s.view v := by
    refine ⟨by rw [hv], by rw [hv, h.inodeBit], fun i k hne => ?_⟩
    rw [hs.ptr] at hne ⊢
    have hik : i = 2 ∧ k = 0 := by_contra fun hik => hne (if_neg hik)
    rw [if_pos hik, hv]
    exact hroot
  have hptr : ∀ i k, i = 2 ∧ k = 0 ∧ v.ptr i k = 260 ∨ ¬(i = 2 ∧ k = 0) ∧ v.ptr i k = 0 := by
    intro i k
    rw [hu.ptr, hs.ptr]
    split_ifs with hik
    · exact .inl ⟨hik.1, hik.2, rfl⟩
    · exact .inr ⟨hik, rfl⟩
  obtain ⟨P, hP⟩ : ∃ P, P = pointer v.data journalInode := ⟨_, rfl⟩
  have hpointer : ∀ k, k < 12 ∧ P k = 261 + k ∨ k = 12 ∧ P k = 1285 ∨ 12 < k ∧ k < 1025 ∧ P k = 260 + k ∨
      1025 ≤ k ∧ P k = 0 := by
    intro k
    rw [hP, pointer_journalInode hindirect]
    split_ifs <;> omega
  have hbit : ∀ b, 260 ≤ b → b < 1286 → v.blockBit b = true := by
    intro b _ hb
    rw [hv]
    refine (h.blockBit hs (by omega)).trans (decide_eq_true ?_)
    exact .inl hb
  have howned : Owned v P := by
    constructor
    · rintro (⟨i, k⟩ | k) (⟨i', k'⟩ | k') heq hne
      · simp only [all_inl] at heq hne
        have hik := hptr i k
        have hik' := hptr i' k'
        rw [show i = i' by omega, show k = k' by omega]
      · simp only [all_inl, all_inr] at heq hne
        have hik := hptr i k
        have hk' := hpointer k'
        omega
      · simp only [all_inl, all_inr] at heq hne
        have hk := hpointer k
        have hik' := hptr i' k'
        omega
      · simp only [all_inr] at heq hne
        have hk := hpointer k
        have hk' := hpointer k'
        rw [show k = k' by omega]
    · -- all of them lead to one of the blocks 260, …, 1285
      have hrange : ∀ x, all v.ptr P x ≠ 0 → 260 ≤ all v.ptr P x ∧ all v.ptr P x < 1286 := by
        rintro (⟨i, k⟩ | k) hne
        · simp only [all_inl] at hne ⊢
          have hik := hptr i k
          omega
        · simp only [all_inr] at hne ⊢
          have hk := hpointer k
          omega
      intro x hne
      obtain ⟨hlow, hhigh⟩ := hrange x hne
      exact ⟨hlow, by omega, hbit _ hlow hhigh⟩
  have hfile : ¬v.IsDir 8 := by
    rw [View.IsDir, hu.inode]
    exact fun hdir => absurd (hs.isDir_iff.1 hdir) (by decide)
  have hused : v.Used 8 := by
    refine ⟨by decide, by decide, ?_⟩
    rw [hu.inodeBit]
    exact hs.inodeBit (by decide)
  have hsize : journalInode.size = 4194304 := by decide +kernel
  have hzero : v.ptr 8 = fun _ => 0 := by
    funext k
    have hk := hptr 8 k
    omega
  have hplace : ∀ j, j * 4096 < 4194304 → P (place j) ≠ 0 := by
    intro j hj
    have hk := hpointer (place j)
    rw [place] at hk ⊢
    split_ifs at hk ⊢ <;> omega
  obtain ⟨hsound, hdirs⟩ := (hu.sound hs.good.sound howned).putFile hused hfile
    ((pointer_clipRecord _ _).trans hP.symm) ((isDir_clipRecord _).trans (by decide +kernel))
    (by rw [size_clipRecord, hsize]; decide) fun j hj => by
      exact hplace j hj
  rw [hzero, ← hview] at hsound
  rw [← hview, hu.dirs hs.good.sound] at hdirs
  refine ⟨⟨h.regular hs, hsound⟩, ?_, ?_, ?_, ?_⟩
  · intro i
    rw [← hs.isDir_iff (i := i)]
    exact iff_of_eq (congrFun (congrArg Tree.Dirs.dir hdirs) i)
  · intro d name i
    rw [← hs.look_iff]
    exact iff_of_eq (congrArg (· = some i) (congrFun (congrFun (congrArg Tree.Dirs.look hdirs) d) name))
  · intro b hb hb'
    rw [h.inodeBit]
    exact hs.formatted.inodeBit b hb hb'
  · intro b hb hb'
    rw [h.blockBit hs (by omega), decide_eq_false_iff_not]
    omega

end Journaled

theorem Formatted.writeSuper (h : Formatted s) {b : ByteMem}
    (hblocks : r32 b 1036 = r32 (s.block 0) 1036) (hinodes : r32 b 1040 = r32 (s.block 0) 1040) :
    Formatted (s.writeBlock 0 b) := by
  have hview := view_writeHead s (n := 0) (by decide) b
  have hregular : Regular (s.writeBlock 0 b) := by
    refine ⟨h.toLayout.writeBlock 0 b, ?_, ?_, ?_, ?_⟩
    · rw [hview, State.block_writeBlock, if_pos rfl, r32, readLE_clip _ (by decide)]
      exact hblocks.trans h.superBlocks
    · rw [hview, State.block_writeBlock, if_pos rfl, r32, readLE_clip _ (by decide)]
      exact hinodes.trans h.superInodes
    · rw [hview, State.block_writeBlock, if_neg (by decide), h.groupBlocks]
    · rw [hview, State.block_writeBlock, if_neg (by decide), h.groupInodes]
  refine ⟨⟨hregular, ?_⟩, ?_, ?_, ?_, ?_⟩
  · rw [hview]
    exact h.sound
  · rw [hview]
    exact h.isDir_iff
  · rw [hview]
    exact h.look_iff
  · rw [hview]
    exact h.inodeBit
  · rw [hview]
    exact h.blockBit

/-- **`ext_variant_format`** succeeds at the levels 2, 3 and 4, whatever is on the
disk, and leaves a sound volume without entries. -/
theorem formatted_extVariantFormat {level : ℕ} (hlevel : 2 ≤ level ∧ level ≤ 4) (s : State) :
    ∃ s', (extVariantFormat level).run s = (some (), s') ∧ Formatted s' := by
  obtain ⟨s₁, hrun₁, hempty⟩ := run_ext2Format s
  have hfree : 1025 ≤ clearBits s₁.view.blockBit := by
    rw [← hempty.regular.superBlocks, hempty.super, r32, readLE_clip _ (by decide)]
    decide +kernel
  -- the last step, which only level 4 has
  have hlast : ∀ s₂, Formatted s₂ → ∃ s', Fallible.run (if level = 4 then do
      let b ← rd 0
      wr 0 (w32 b 1120 (r32 b 1120 ||| 0x40)) else pure () : M Unit) s₂ = (some (), s') ∧ Formatted s' := by
    intro s₂ h
    by_cases hfour : level = 4
    · refine ⟨_, ?_, h.writeSuper (b := w32 (s₂.block 0) 1120 (r32 (s₂.block 0) 1120 ||| 0x40)) ?_ ?_⟩
      · rw [if_pos hfour, run_bind_some (run_rd h.base 0), run_wr h.base]
      · exact readLE_writeLE_of_disjoint _ (by decide)
      · exact readLE_writeLE_of_disjoint _ (by decide)
    · exact ⟨s₂, by rw [if_neg hfour]; rfl, h⟩
  rw [extVariantFormat, run_bind_some (run_require_pos hlevel s), run_bind_some hrun₁]
  by_cases hthree : level ≥ 3
  · obtain ⟨s₂, hrun₂, hjournaled⟩ := run_addJournal hempty.regular hfree
    rw [if_pos hthree, run_bind_some hrun₂]
    exact hlast s₂ (hjournaled.formatted hempty)
  · rw [if_neg hthree]
    exact hlast s₁ hempty.formatted

end OS64.Ext2
