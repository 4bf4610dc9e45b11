import OS64.Ext2.Volume

/-!
# The blocks of a file

How the blocks of a file are taken, written and given back. While a file is built
the driver holds its blocks in memory: in the record of an inode that is not on
the disk yet, and in a copy of the indirect block. They are the pointers
`pointer s.view.data n` of that record.

* **All blocks are given back** (`OS64.Ext2.wp_releaseBlocks`), each of them once.
* **The blocks are written** (`OS64.Ext2.Good.wp_writeNewBlocks`): in the end there is
  a block for every part of the contents, or, if there were not blocks enough, none
  is held and the bitmap is the one from before.

Meanwhile nothing changes that an inode on the disk points to, and the bitmap differs
from the one at the beginning by the blocks in memory and by nothing else. This is
`OS64.Ext2.Holding`, which every step keeps.
-/

namespace OS64.Ext2

open List Function ByteMem Bits Fallible Pointers

variable {n' : Inode} {Q : Unit → State → Prop} {b i j k : ℕ} {data : ℕ → ByteMem}

/-- A regular state with a sound volume, while `P` is held in memory. -/
structure Good (s : State) (P : ℕ → ℕ) : Prop extends Regular s where
  sound : Sound s.view P

/-- The number of the blocks that can be taken. -/
def View.freeBlocks (v : View) : ℕ := Counting.count (Finset.Ico 261 16384) v.blockBit (· = false)

/-- Since `v` the `m` blocks of `P` have been taken, and nothing else has happened to
the bitmap or to what the inodes point to. -/
structure Holding (v : View) (s : State) (P : ℕ → ℕ) (m : ℕ) : Prop extends Good s P where
  untouched : Untouched v s.view
  fresh : ∀ k, P k ≠ 0 → 261 ≤ P k ∧ v.blockBit (P k) = false
  bits : ∀ b, s.view.blockBit b = true ↔ v.blockBit b = true ∨ b ≠ 0 ∧ ∃ k, P k = b
  count : s.view.freeBlocks + m = v.freeBlocks

variable {s : State} {P : ℕ → ℕ} {E : State → Prop} {v : View} {m : ℕ}

theorem Good.holding (h : Good s fun _ => 0) : Holding s.view s (fun _ => 0) 0 where
  toGood := h
  untouched := Untouched.refl _
  fresh _ hne := absurd rfl hne
  bits b := by
    refine ⟨.inl, fun hor => hor.resolve_right ?_⟩
    rintro ⟨hne, k, hk⟩
    exact hne hk.symm
  count := rfl

/-! ### Single blocks -/

theorem freeBlocks_eq_zero (h : ∀ b, ¬v.FreeBlock b) : v.freeBlocks = 0 := by
  rw [View.freeBlocks, Counting.count, Finset.card_eq_zero, Finset.filter_eq_empty_iff]
  intro b hb hclear
  obtain ⟨hlow, hhigh⟩ := Finset.mem_Ico.1 hb
  exact h b ⟨hlow, hhigh, hclear⟩

theorem freeBlocks_take (hb : 261 ≤ b) (hb' : b < 16384) (hfree : v.blockBit b = false) :
    (v.setBlockBit b true).freeBlocks + 1 = v.freeBlocks :=
  Counting.count_update_lost (Finset.mem_Ico.2 ⟨hb, hb'⟩) hfree (by decide)

theorem freeBlocks_give (hb : 261 ≤ b) (hb' : b < 16384) (hset : v.blockBit b = true) :
    (v.setBlockBit b false).freeBlocks = v.freeBlocks + 1 :=
  Counting.count_update_won (Finset.mem_Ico.2 ⟨hb, hb'⟩) (by rw [hset]; decide) rfl

/-- Which blocks are held depends on a place only for the blocks that come and go there. -/
theorem exists_update_eq {c : ℕ} (hnew : c ≠ b) (hold : c ≠ P k) : (∃ j, update P k b j = c) ↔ ∃ j, P j = c := by
  constructor
  · rintro ⟨j, hj⟩
    by_cases hjk : j = k
    · rw [hjk, update_self] at hj
      exact absurd hj.symm hnew
    · exact ⟨j, by rwa [update_of_ne hjk] at hj⟩
  · rintro ⟨j, rfl⟩
    exact ⟨j, update_of_ne (fun hjk => hold (congrArg P hjk)) _ _⟩

/-- `alloc_block`, for a free place in memory. -/
theorem Holding.wp_allocBlock {Q : ℕ → State → Prop} (h : Holding v s P m) (hk : P k = 0)
    (hQ : ∀ b s', Holding v s' (update P k b) (m + 1) → s'.view.data = s.view.data → 261 ≤ b → b < 16384 → Q b s')
    (hE : v.freeBlocks = m → E s) : wp allocBlock Q E s := by
  refine Ext2.wp_allocBlock h.toRegular ?_ ?_
  · rintro b s' ⟨hb, hb', hfree⟩ hreg hview
    have hold : v.blockBit b = false := by
      rw [Bool.eq_false_iff, ne_eq]
      intro hset
      rw [(h.bits b).2 (.inl hset)] at hfree
      cases hfree
    have hbits : s'.view.blockBit = update s.view.blockBit b true := by rw [hview]; rfl
    refine hQ b s' ⟨⟨hreg, ?_⟩, ?_, ?_, ?_, ?_⟩ (by rw [hview]; rfl) hb hb'
    · rw [hview]
      exact h.sound.takeBlock (by omega) hb' hfree
    · rw [hview]
      exact h.untouched.trans (untouched_withBlockBits _ _)
    · intro j hj
      by_cases hjk : j = k
      · rw [hjk, update_self]
        exact ⟨hb, hold⟩
      · rw [update_of_ne hjk] at hj ⊢
        exact h.fresh j hj
    · intro c
      rw [hbits]
      by_cases hc : c = b
      · rw [hc, update_self]
        exact iff_of_true rfl (.inr ⟨by omega, k, update_self _ _ _⟩)
      · rw [update_of_ne hc, h.bits]
        exact or_congr_right (and_congr_right fun hne => (exists_update_eq hc (by rwa [hk])).symm)
    · have htake := freeBlocks_take (v := s.view) hb hb' hfree
      have hcount := h.count
      rw [hview]
      omega
  · intro hfull
    refine hE ?_
    rw [← h.count, freeBlocks_eq_zero hfull, zero_add]

/-- `bwrite`, to a block held in memory. -/
theorem Holding.wp_bwrite (h : Holding v s P m) (hne : P k ≠ 0) (c : ByteMem)
    (hQ : ∀ s', Holding v s' P m → s'.view = s.view.setData (P k) (clip c) → Q () s') :
    wp (bwrite (P k) c) Q E s := by
  obtain ⟨hb, hb', -⟩ := h.sound.held_allocated hne
  rw [Ext2.wp_bwrite h.toLayout hb']
  have hview := view_writeData s hb hb' c
  refine hQ _ ⟨⟨h.toRegular.writeBlock (by omega) c, ?_⟩, ?_, h.fresh, ?_, ?_⟩ hview
  · rw [hview]
    exact h.sound.setData hne _
  · rw [hview]
    exact h.untouched.trans (h.sound.untouched_setData hne _)
  · rw [hview]
    exact h.bits
  · rw [hview]
    exact h.count

/-- `free_bit`, for a block held in memory. -/
theorem Holding.wp_freeBlock (h : Holding v s P (m + 1)) (hne : P k ≠ 0)
    (hQ : ∀ s', Holding v s' (update P k 0) m → s'.view.data = s.view.data → Q () s') :
    wp (freeBit blockBitmap (P k + 1) false) Q E s := by
  obtain ⟨-, hb', hset⟩ := h.sound.held_allocated hne
  obtain ⟨hb, hold⟩ := h.fresh k hne
  refine Ext2.wp_freeBlock h.toRegular (by omega) hset ?_
  intro s' hreg hview
  have hbits : s'.view.blockBit = update s.view.blockBit (P k) false := by rw [hview]; rfl
  refine hQ s' ⟨⟨hreg, ?_⟩, ?_, ?_, ?_, ?_⟩ (by rw [hview]; rfl)
  · rw [hview]
    exact h.sound.freeBlock hne
  · rw [hview]
    exact h.untouched.trans (untouched_withBlockBits _ _)
  · intro j hj
    by_cases hjk : j = k
    · rw [hjk, update_self] at hj
      exact absurd rfl hj
    · rw [update_of_ne hjk] at hj ⊢
      exact h.fresh j hj
  · intro c
    rw [hbits]
    by_cases hc : c = P k
    · -- no other place holds the block
      rw [hc, update_self, hold]
      refine iff_of_false Bool.false_ne_true ?_
      rintro (hfalse | ⟨-, j, hj⟩)
      · cases hfalse
      · by_cases hjk : j = k
        · rw [hjk, update_self] at hj
          exact hne hj.symm
        · rw [update_of_ne hjk] at hj
          exact hjk (h.sound.exclusive.mem_inj hj (hj ▸ hne))
    · rw [update_of_ne hc, h.bits]
      exact or_congr_right (and_congr_right fun hcne => (exists_update_eq hcne hc).symm)
  · have hgive := freeBlocks_give (v := s.view) hb hb' hset
    have hcount := h.count
    rw [hview]
    omega

/-! ### Giving back all blocks -/

/-- The loop of `release_blocks`: every block of the list is free afterwards. -/
theorem wp_releaseAll {Q : Bool → State → Prop} : ∀ {l : List ℕ} {s : State}, Regular s →
    (∀ b ∈ l, b ≠ 0 → b < 16384 ∧ s.view.blockBit b = true) → (l.filter (· ≠ 0)).Nodup →
    (∀ s', Regular s' →
      s'.view = s.view.withBlockBits (fun b => s.view.blockBit b && !decide (b ≠ 0 ∧ b ∈ l)) →
      Q true s') → wp (releaseAll l) Q E s
  | [], s, h, _, _, hQ => by
    refine hQ s h ?_
    have hbits : (fun b => s.view.blockBit b && !decide (b ≠ 0 ∧ b ∈ ([] : List ℕ))) = s.view.blockBit := by
      simp
    rw [hbits]
    rfl
  | blk :: l, s, h, hset, hnodup, hQ => by
    rw [releaseAll]
    by_cases hzero : blk = 0
    · subst hzero
      refine wp_releaseAll h (fun b hb => hset b (mem_cons_of_mem _ hb)) (by simpa using hnodup) ?_
      intro s' hs' hview
      refine hQ s' hs' (hview.trans ?_)
      congr 1
      funext b
      by_cases hb : b = 0
      · simp [hb]
      · simp [hb]
    · rw [if_pos hzero, wp_bind, wp_recover]
      obtain ⟨hlt, hbit⟩ := hset blk (by simp) hzero
      have hfilter : (blk :: l).filter (· ≠ 0) = blk :: l.filter (· ≠ 0) := filter_cons_of_pos (by simpa using hzero)
      rw [hfilter, nodup_cons] at hnodup
      have hnotin : blk ∉ l := fun hmem =>
        hnodup.1 (mem_filter.2 ⟨hmem, by simpa using hzero⟩)
      refine wp_freeBlock h (by omega) hbit ?_
      intro s₁ hs₁ hview₁
      rw [wp_bind]
      refine wp_releaseAll hs₁ ?_ hnodup.2 ?_
      · intro b hb hne
        obtain ⟨hb', hbit'⟩ := hset b (mem_cons_of_mem _ hb) hne
        refine ⟨hb', ?_⟩
        have hne' : b ≠ blk := fun heq => hnotin (heq ▸ hb)
        rw [hview₁]
        change update s.view.blockBit blk false b = true
        rw [update_of_ne hne', hbit']
      · intro s₂ hs₂ hview₂
        refine hQ s₂ hs₂ ?_
        rw [hview₂, hview₁]
        have hbits : (fun b => (s.view.setBlockBit blk false).blockBit b && !decide (b ≠ 0 ∧ b ∈ l)) =
            fun b => s.view.blockBit b && !decide (b ≠ 0 ∧ b ∈ blk :: l) := by
          funext b
          change (update s.view.blockBit blk false b && _) = _
          by_cases hb : b = blk
          · subst hb
            simp [hzero]
          · simp [hb]
        rw [hbits]
        rfl

/-- The blocks that pairwise different pointers lead to. -/
theorem nodup_pointers (hinj : ∀ j k, P j = P k → P j ≠ 0 → j = k) {l : List ℕ} (hl : l.Nodup) :
    ((l.map P).filter (· ≠ 0)).Nodup := by
  rw [filter_map]
  refine Nodup.map_on ?_ (hl.filter _)
  intro j hj k _ heq
  exact hinj j k heq (by simpa using (mem_filter.1 hj).2)

/-- The pointers are the direct ones, the entries of the indirect block, and the
one to that block. -/
theorem mem_pointers (P : ℕ → ℕ) (b : ℕ) : b ∈ (range 1037).map P ↔
    b ∈ (range 12).map P ∨ b ∈ (range 1024).map (fun i => P (13 + i)) ∨ b = P 12 := by
  simp only [mem_map, mem_range]
  constructor
  · rintro ⟨k, hk, rfl⟩
    rcases lt_trichotomy k 12 with hlt | rfl | hgt
    · exact .inl ⟨k, hlt, rfl⟩
    · exact .inr (.inr rfl)
    · exact .inr (.inl ⟨k - 13, by omega, congrArg P (by omega)⟩)
  · rintro (⟨k, hk, rfl⟩ | ⟨k, hk, rfl⟩ | rfl)
    · exact ⟨k, by omega, rfl⟩
    · exact ⟨13 + k, by omega, rfl⟩
    · exact ⟨12, by omega, rfl⟩

/-- The contents of a block of the data region. -/
theorem block_eq_data (s : State) (h : 260 ≤ b) (h' : b < 16384) : s.block b = s.view.data b := (if_pos ⟨h, h'⟩).symm

variable {n : Inode} {indirect indirect' : ByteMem} {done : List ByteMem} {data' : ℕ → ByteMem} {blk : ℕ}

/-- **`release_blocks`** gives back the blocks of a record, if they are in use and
different. -/
theorem wp_releaseBlocks {Q : Bool → State → Prop} (h : Regular s) (hP : pointer s.view.data n = P)
    (hset : ∀ k, P k ≠ 0 → 260 ≤ P k ∧ P k < 16384 ∧ s.view.blockBit (P k) = true)
    (hinj : ∀ j k, P j = P k → P j ≠ 0 → j = k)
    (hQ : ∀ s', Regular s' → s'.view = s.view.release P → Q true s') :
    wp (releaseBlocks n) Q E s := by
  have hdirect : (List.range 12).map n.block = (List.range 12).map P := by
    refine map_congr_left fun k hk => ?_
    rw [← hP, pointer_of_lt (by have := mem_range.1 hk; omega)]
  have h12 : n.block 12 = P 12 := by rw [← hP, pointer_of_lt (by decide)]
  rw [releaseBlocks, wp_bind, hdirect]
  refine wp_releaseAll h ?_ (nodup_pointers hinj nodup_range) ?_
  · intro b hb hne
    obtain ⟨k, -, rfl⟩ := mem_map.1 hb
    exact (hset k hne).2
  intro s₁ hs₁ hview₁
  by_cases hzero : n.block 12 = 0
  · -- without an indirect block these are all pointers
    rw [if_neg (not_not.2 hzero), wp_pure]
    refine hQ s₁ hs₁ (hview₁.trans ?_)
    refine congrArg s.view.withBlockBits (funext fun b => ?_)
    have hmem : b ≠ 0 ∧ b ∈ (List.range 1037).map P ↔ b ≠ 0 ∧ b ∈ (List.range 12).map P := by
      refine and_congr_right fun hb => ?_
      rw [mem_pointers]
      refine ⟨fun hor => hor.resolve_right ?_, Or.inl⟩
      rintro (hmem | heq)
      · obtain ⟨k, -, rfl⟩ := mem_map.1 hmem
        refine hb ?_
        rw [← hP, pointer, if_neg (by omega), if_neg fun hand => hand.2 hzero]
      · exact hb (heq.trans (h12.symm.trans hzero))
    rw [decide_eq_decide.2 hmem]
  · rw [if_pos hzero, wp_bind, wp_recover]
    have hP12 : P 12 ≠ 0 := h12 ▸ hzero
    obtain ⟨hlow, hhigh, hbit⟩ := hset 12 hP12
    rw [h12, wp_bread hs₁.toLayout hhigh]
    have hindirect : (List.range 1024).map (fun i => r32 (s₁.block (P 12)) (i * 4)) =
        (List.range 1024).map fun i => P (13 + i) := by
      refine map_congr_left fun i hi => ?_
      have hdata : s₁.block (P 12) = s.view.data (n.block 12) := by
        rw [block_eq_data s₁ hlow hhigh, hview₁, h12]
        rfl
      have hi' := mem_range.1 hi
      rw [hdata, ← hP, pointer, if_neg (by omega), if_pos ⟨by omega, hzero⟩, Nat.add_sub_cancel_left]
    have hnotin : ∀ {k : ℕ} {l : List ℕ}, P k ≠ 0 → k ∉ l → ¬(P k ≠ 0 ∧ P k ∈ l.map P) := by
      rintro k l hne hk ⟨-, hmem⟩
      obtain ⟨j, hj, heq⟩ := mem_map.1 hmem
      exact hk (hinj k j heq.symm hne ▸ hj)
    have hmap : (List.range 1024).map (fun i => P (13 + i)) = ((List.range 1024).map (13 + ·)).map P := by
      rw [map_map]
      rfl
    simp only [hindirect]
    have hmem := mem_pointers P
    generalize (List.range 1024).map (fun i => P (13 + i)) = entries at hmap hmem ⊢
    rw [wp_bind]
    refine wp_releaseAll hs₁ ?_ ?_ ?_
    · intro b hb hne
      rw [hmap] at hb
      obtain ⟨k, hk, rfl⟩ := mem_map.1 hb
      obtain ⟨-, hhigh', hbit'⟩ := hset k hne
      obtain ⟨i, -, rfl⟩ := mem_map.1 hk
      refine ⟨hhigh', ?_⟩
      rw [hview₁]
      change (s.view.blockBit (P (13 + i)) && !decide _) = true
      rw [hbit', decide_eq_false (hnotin hne (by simp; omega))]
      rfl
    · rw [hmap]
      exact nodup_pointers hinj (List.Nodup.map (fun a b heq => Nat.add_left_cancel heq) nodup_range)
    intro s₂ hs₂ hview₂
    rw [wp_bind, wp_recover]
    have hbit₂ : s₂.view.blockBit (P 12) = true := by
      rw [hview₂, hview₁, hmap]
      change ((s.view.blockBit (P 12) && !decide _) && !decide _) = true
      rw [hbit, decide_eq_false (hnotin hP12 (by simp)), decide_eq_false (hnotin hP12 (by simp; omega))]
      rfl
    refine wp_freeBlock hs₂ (by omega) hbit₂ ?_
    intro s₃ hs₃ hview₃
    refine hQ s₃ hs₃ ?_
    rw [hview₃, hview₂, hview₁]
    refine congrArg s.view.withBlockBits (funext fun b => ?_)
    change update (fun b => (s.view.blockBit b && !decide (b ≠ 0 ∧ b ∈ (List.range 12).map P)) &&
      !decide (b ≠ 0 ∧ b ∈ entries)) (P 12) false b = _
    by_cases hb : b = P 12
    · rw [hb, update_self, decide_eq_true ⟨hP12, (hmem _).2 (Or.inr (Or.inr rfl))⟩]
      simp
    · have hmem' : b ≠ 0 ∧ b ∈ (List.range 1037).map P ↔
          (b ≠ 0 ∧ b ∈ (List.range 12).map P) ∨ (b ≠ 0 ∧ b ∈ entries) := by
        rw [hmem]
        constructor
        · rintro ⟨hne, hmem | hmem | heq⟩
          · exact Or.inl ⟨hne, hmem⟩
          · exact Or.inr ⟨hne, hmem⟩
          · exact absurd heq hb
        · rintro (⟨hne, hmem⟩ | ⟨hne, hmem⟩)
          · exact ⟨hne, Or.inl hmem⟩
          · exact ⟨hne, Or.inr (Or.inl hmem)⟩
      rw [update_of_ne hb, decide_eq_decide.2 hmem', Bool.decide_or, Bool.not_or, Bool.and_assoc]

/-- There are no pointers beyond those that `release_blocks` looks at. -/
theorem mem_pointer (data : ℕ → ByteMem) (n : Inode) (b : ℕ) :
    b ≠ 0 ∧ b ∈ (range 1037).map (pointer data n) ↔ b ≠ 0 ∧ ∃ k, pointer data n k = b := by
  refine and_congr_right fun hne => ?_
  rw [mem_map]
  refine ⟨fun ⟨k, _, hk⟩ => ⟨k, hk⟩, fun ⟨k, hk⟩ => ⟨k, ?_, hk⟩⟩
  refine mem_range.2 (Nat.lt_of_not_le fun hle => hne ?_)
  rw [← hk, pointer, if_neg (by omega), if_neg (by omega)]

/-- Blocks that have been taken since `old` are given back. -/
theorem bits_release {old bits : ℕ → Bool}
    (hbits : ∀ b, bits b = true ↔ old b = true ∨ b ≠ 0 ∧ ∃ k, pointer data n k = b)
    (hfresh : ∀ k, pointer data n k ≠ 0 → old (pointer data n k) = false) :
    (fun b => bits b && !decide (b ≠ 0 ∧ b ∈ (range 1037).map (pointer data n))) = old := by
  funext b
  rw [Bool.eq_iff_iff, Bool.and_eq_true, hbits, Bool.not_eq_true', decide_eq_false_iff_not, mem_pointer]
  constructor
  · rintro ⟨hold | hheld, hnot⟩
    · exact hold
    · exact absurd hheld hnot
  · intro hold
    refine ⟨.inl hold, ?_⟩
    rintro ⟨hne, k, rfl⟩
    rw [hfresh k hne] at hold
    cases hold

/-- The blocks of a record in memory are given back: the bitmap is what it was
before they were taken. -/
theorem Holding.wp_releaseBlocks {Q : Bool → State → Prop} (h : Holding v s (pointer s.view.data n) m)
    (hQ : ∀ s', Good s' (fun _ => 0) → Untouched v s'.view → s'.view.blockBit = v.blockBit → Q true s') :
    wp (releaseBlocks n) Q E s := by
  refine Ext2.wp_releaseBlocks h.toRegular rfl (fun _ hne => h.sound.held_allocated hne)
    (fun _ _ heq hne => h.sound.exclusive.mem_inj heq hne) ?_
  intro s' hs' hview
  refine hQ s' ⟨hs', ?_⟩ ?_ ?_
  · rw [hview]
    exact h.sound.release
  · rw [hview]
    exact h.untouched.trans (untouched_withBlockBits _ _)
  · rw [hview]
    exact bits_release h.bits fun k hne => (h.fresh k hne).2

/-! ### Attributes -/

/-- The attributes and the size are the same. -/
structure SameAttr (n n' : Inode) : Prop where
  mode : n'.mode = n.mode
  uid : n'.uid = n.uid
  gid : n'.gid = n.gid
  size : n'.size = n.size
  links : n'.links = n.links

theorem SameAttr.refl (n : Inode) : SameAttr n n := ⟨rfl, rfl, rfl, rfl, rfl⟩

theorem SameAttr.trans {n n'' : Inode} (h : SameAttr n n') (h' : SameAttr n' n'') : SameAttr n n'' :=
  ⟨h'.mode.trans h.mode, h'.uid.trans h.uid, h'.gid.trans h.gid, h'.size.trans h.size, h'.links.trans h.links⟩

theorem sameAttr_setBlock (n : Inode) (i v : ℕ) : SameAttr n (n.setBlock i v) := by
  constructor <;> simp

theorem sameAttr_setSectors (n : Inode) (v : ℕ) : SameAttr n (n.setSectors v) := by
  constructor <;> simp

/-! ### Writing blocks -/

/-- A record in memory, with a copy of its indirect block, whose blocks hold the
parts `done` of the contents. -/
structure Drawn (data : ℕ → ByteMem) (n : Inode) (indirect : ByteMem) (done : List ByteMem) : Prop where
  placed : ∀ j c, done[j]? = some c →
    pointer data n (place j) ≠ 0 ∧ data (pointer data n (place j)) = clip c
  free : ∀ k, place done.length ≤ k → pointer data n k = 0
  copy : n.block 12 ≠ 0 → data (n.block 12) = clip indirect
  blank : n.block 12 = 0 → indirect = zero

theorem place_of_lt (h : j < 12) : place j = j := if_pos h

theorem place_of_le (h : 12 ≤ j) : place j = j + 1 := if_neg (by omega)

theorem place_ne : place j ≠ 12 := by
  rw [place]
  split_ifs <;> omega

theorem place_lt (h : j < k) : place j < place k := by
  rw [place, place]
  split_ifs <;> omega

/-- The number of the sectors is not looked at. -/
theorem pointer_setSectors (data : ℕ → ByteMem) (n : Inode) (v : ℕ) : pointer data (n.setSectors v) = pointer data n :=
  pointer_congr fun _ _ => Inode.block_setSectors _ _ _

theorem Drawn.setSectors (h : Drawn data n indirect done) (v : ℕ) : Drawn data (n.setSectors v) indirect done := by
  constructor
  · rw [pointer_setSectors]
    exact h.placed
  · rw [pointer_setSectors]
    exact h.free
  · exact h.copy
  · exact h.blank

/-- A direct block is entered. -/
theorem pointer_setBlock (hi : i < 12) (hb : b < 2 ^ 32) :
    pointer data (n.setBlock i b) = update (pointer data n) i b := by
  funext k
  have h12 : (n.setBlock i b).block 12 = n.block 12 := by
    rw [Inode.block_setBlock hb, if_neg (by omega)]
  rw [update_apply, pointer, pointer, h12]
  by_cases hk : k < 13
  · rw [if_pos hk, if_pos hk, Inode.block_setBlock hb]
  · have hki : k ≠ i := by omega
    rw [if_neg hk, if_neg hk, if_neg hki]

/-- A block is entered in the indirect block. -/
theorem pointer_indirect (hi : i < 1024) (hb : b < 2 ^ 32) (hne : n.block 12 ≠ 0)
    (hold : ∀ k, 13 ≤ k → k < 1037 → pointer data n k = r32 indirect ((k - 13) * 4))
    (hdata : data' (n.block 12) = clip (w32 indirect (i * 4) b)) :
    pointer data' n = update (pointer data n) (13 + i) b := by
  funext k
  rw [update_apply]
  by_cases hk : k < 13
  · rw [pointer_of_lt hk, pointer_of_lt hk, if_neg (by omega)]
  · rw [pointer, if_neg hk]
    by_cases hk' : k < 1037
    · rw [if_pos ⟨hk', hne⟩, hdata, r32, readLE_clip _ (by omega), w32]
      by_cases heq : k = 13 + i
      · rw [if_pos heq, heq, Nat.add_sub_cancel_left, readLE_writeLE_of_lt _ hb]
      · rw [if_neg heq, readLE_writeLE_of_disjoint _ (by omega), hold k (by omega) hk', r32]
    · rw [if_neg fun hand => hk' hand.1, if_neg (by omega), pointer, if_neg hk, if_neg fun hand => hk' hand.1]

/-- The parts of the contents stay where they are when one more is entered. -/
theorem Drawn.extend (h : Drawn data n indirect done) {c : ByteMem} (hb : b ≠ 0)
    (hself : pointer data' n' (place done.length) = b) (hc : data' b = clip c)
    (hbefore : ∀ j < done.length, pointer data' n' (place j) = pointer data n (place j) ∧
      data' (pointer data n (place j)) = data (pointer data n (place j)))
    (hafter : ∀ k, place (done.length + 1) ≤ k → pointer data' n' k = pointer data n k)
    (hcopy : n'.block 12 ≠ 0 → data' (n'.block 12) = clip indirect')
    (hblank : n'.block 12 = 0 → indirect' = zero) : Drawn data' n' indirect' (done ++ [c]) := by
  refine ⟨?_, ?_, hcopy, hblank⟩
  · intro j c' hj
    rcases lt_trichotomy j done.length with hlt | heq | hgt
    · rw [getElem?_append_left hlt] at hj
      obtain ⟨hptr, hdata⟩ := hbefore j hlt
      rw [hptr, hdata]
      exact h.placed j c' hj
    · subst heq
      rw [getElem?_concat_length] at hj
      rw [hself, hc, Option.some.inj hj]
      exact ⟨hb, rfl⟩
    · rw [getElem?_eq_none (by rw [length_append]; exact hgt)] at hj
      cases hj
  · intro k hk
    rw [length_append] at hk
    rw [hafter k hk]
    exact h.free k ((place_lt (Nat.lt_succ_self _)).le.trans hk)

/-- Two places in memory do not hold the same block. -/
theorem Good.held_ne (h : Good s P) (hjk : j ≠ k) (hne : P j ≠ 0) : P j ≠ P k :=
  fun heq => hjk (h.sound.exclusive.mem_inj heq hne)

/-- A block has been entered, and whatever is written to it then is the next part of
the contents. -/
def Attached (s : State) (n : Inode) (indirect : ByteMem) (done : List ByteMem) (blk : ℕ) : Prop :=
  pointer s.view.data n (place done.length) = blk ∧
    ∀ data' c, data' blk = clip c → (∀ b, b ≠ blk → data' b = s.view.data b) →
      pointer data' n = pointer s.view.data n ∧ Drawn data' n indirect (done ++ [c])

theorem Drawn.attached (h : Drawn data n indirect done) (hblk : blk ≠ 0)
    (hg : Good s (pointer s.view.data n')) (hself : pointer s.view.data n' (place done.length) = blk)
    (hbefore : ∀ j < done.length, pointer s.view.data n' (place j) = pointer data n (place j) ∧
      s.view.data (pointer data n (place j)) = data (pointer data n (place j)))
    (hafter : ∀ k, place (done.length + 1) ≤ k → pointer s.view.data n' k = pointer data n k)
    (hcopy : n'.block 12 ≠ 0 → s.view.data (n'.block 12) = clip indirect')
    (hblank : n'.block 12 = 0 → indirect' = zero) : Attached s n' indirect' done blk := by
  refine ⟨hself, ?_⟩
  intro data' c hc hdata
  have h12 : n'.block 12 ≠ 0 → n'.block 12 ≠ blk := by
    intro hne
    have hptr : pointer s.view.data n' 12 = n'.block 12 := pointer_of_lt (by decide)
    rw [← hself]
    exact hg.held_ne place_ne.symm hne
  have hptr : pointer data' n' = pointer s.view.data n' := pointer_congr_data fun hne => hdata _ (h12 hne)
  refine ⟨hptr, h.extend hblk ?_ hc ?_ ?_ ?_ hblank⟩
  · rw [hptr, hself]
  · intro j hj
    obtain ⟨hj₁, hj₂⟩ := hbefore j hj
    have hne : pointer s.view.data n' (place j) ≠ 0 := by
      rw [hj₁]
      exact (h.placed j _ (getElem?_eq_getElem hj)).1
    have hne' := hg.held_ne (place_lt hj).ne hne
    rw [hself, hj₁] at hne'
    rw [hptr, hdata _ hne']
    exact ⟨hj₁, hj₂⟩
  · intro k hk
    rw [hptr]
    exact hafter k hk
  · intro hne
    rw [hdata _ (h12 hne)]
    exact hcopy hne

section Attach

variable {n : Inode} {indirect : ByteMem} {done : List ByteMem} {blk : ℕ}

/-- The entries of the indirect block are those of its copy. -/
theorem Drawn.pointer_eq (h : Drawn data n indirect done) (hk : 13 ≤ k)
    (hk' : k < 1037) : pointer data n k = r32 indirect ((k - 13) * 4) := by
  rw [pointer, if_neg (by omega)]
  by_cases hne : n.block 12 = 0
  · rw [if_neg fun hand => hand.2 hne, h.blank hne]
    exact (readLE_eq_zero fun _ _ _ => rfl).symm
  · rw [if_pos ⟨hk', hne⟩, h.copy hne, r32, readLE_clip _ (by omega), r32]

variable (hg : Holding v s (update (pointer s.view.data n) (place done.length) blk) (m + 1))
  (hd : Drawn s.view.data n indirect done) (hblk : blk ≠ 0) (hblk' : blk < 16384)

include hg hd hblk hblk'

/-- A direct block is entered. -/
theorem attached_direct (hlen : done.length < 12) (hnone : n.block 12 = 0) :
    Holding v s (pointer s.view.data (n.setBlock done.length blk)) (m + 1) ∧
      Attached s (n.setBlock done.length blk) indirect done blk := by
  have hblk32 : blk < 2 ^ 32 := by omega
  have hptr : pointer s.view.data (n.setBlock done.length blk) =
      update (pointer s.view.data n) (place done.length) blk := by
    rw [place_of_lt hlen]
    exact pointer_setBlock hlen hblk32
  have h12 : (n.setBlock done.length blk).block 12 = 0 := by
    rw [Inode.block_setBlock hblk32, if_neg (by omega), hnone]
  rw [← hptr] at hg
  refine ⟨hg, hd.attached hblk hg.toGood ?_ ?_ ?_ ?_ ?_⟩
  · rw [hptr, update_self]
  · intro j hj
    rw [hptr, update_of_ne (place_lt hj).ne]
    exact ⟨rfl, rfl⟩
  · intro k hk
    have hlt : place done.length < place (done.length + 1) := place_lt (Nat.lt_succ_self _)
    rw [hptr, update_of_ne (by omega)]
  · exact fun hne => absurd h12 hne
  · exact fun _ => hd.blank hnone

/-- A block is entered in the copy of the indirect block, and the copy is written. -/
theorem wp_attach_indirect (hlen : 12 ≤ done.length) (hlen' : done.length < 1036)
    (hne : n.block 12 ≠ 0)
    (hQ : ∀ s', Holding v s' (pointer s'.view.data n) (m + 1) →
      Attached s' n (w32 indirect ((done.length - 12) * 4) blk) done blk → Q () s') :
    wp (bwrite (n.block 12) (w32 indirect ((done.length - 12) * 4) blk)) Q E s := by
  have hblk32 : blk < 2 ^ 32 := by omega
  have hplace : place done.length = 13 + (done.length - 12) := by
    rw [place_of_le hlen]
    omega
  have h12 : update (pointer s.view.data n) (place done.length) blk 12 = n.block 12 := by
    rw [update_of_ne place_ne.symm, pointer_of_lt (by decide)]
  rw [← h12]
  refine hg.wp_bwrite (by rwa [h12]) _ ?_
  rw [h12]
  intro s' hs' hview
  have hdata : ∀ b, s'.view.data b =
      if b = n.block 12 then clip (w32 indirect ((done.length - 12) * 4) blk) else s.view.data b := by
    intro b
    rw [hview]
    change update s.view.data _ _ b = _
    rw [update_apply]
  have hptr : pointer s'.view.data n = update (pointer s.view.data n) (place done.length) blk := by
    rw [hplace]
    exact pointer_indirect (by omega) hblk32 hne (fun k hk hk' => hd.pointer_eq hk hk')
      (by rw [hdata, if_pos rfl])
  rw [← hptr] at hs'
  refine hQ s' hs' (hd.attached hblk hs'.toGood ?_ ?_ ?_ ?_ ?_)
  · rw [hptr, update_self]
  · intro j hj
    have hj' : pointer s.view.data n (place j) ≠ 0 := (hd.placed j _ (getElem?_eq_getElem hj)).1
    have hne' := hg.toGood.held_ne (show place j ≠ 12 from place_ne)
      (by rwa [update_of_ne (place_lt hj).ne])
    rw [h12, update_of_ne (place_lt hj).ne] at hne'
    rw [hptr, update_of_ne (place_lt hj).ne, hdata, if_neg hne']
    exact ⟨rfl, rfl⟩
  · intro k hk
    have hlt : place done.length < place (done.length + 1) := place_lt (Nat.lt_succ_self _)
    rw [hptr, update_of_ne (by omega)]
  · intro _
    rw [hdata, if_pos rfl]
  · exact fun hzero => absurd hzero hne

omit hblk' in
/-- **`ensureIndirect`** finds or takes an indirect block; without one the block that
was to be entered is given back. -/
theorem wp_ensureIndirect {Q : Inode × Bool → State → Prop}
    (hzero : n.block 12 = 0 → done.length = 12)
    (hQ : ∀ n' s', Holding v s' (update (pointer s'.view.data n') (place done.length) blk)
      (if n.block 12 = 0 then m + 2 else m + 1) →
      Drawn s'.view.data n' indirect done → n'.block 12 ≠ 0 → SameAttr n n' → Q (n', true) s')
    (hE : ∀ n' s', Holding v s' (pointer s'.view.data n') m → n.block 12 = 0 → v.freeBlocks = m + 1 →
      Q (n', false) s') :
    wp (ensureIndirect n indirect blk) Q E s := by
  rw [ensureIndirect]
  by_cases hne : n.block 12 = 0
  · have hplace : place done.length = 13 := by
      rw [hzero hne]
      rfl
    have hP : ∀ k, 12 ≤ k → pointer s.view.data n k = 0 := by
      intro k hk
      rcases lt_or_ge k 13 with hk' | hk'
      · rw [pointer_of_lt hk', show k = 12 by omega, hne]
      · exact hd.free k (by omega)
    have hPz : pointer s.view.data n (place done.length) = 0 := hP _ (by omega)
    have hfree : update (pointer s.view.data n) (place done.length) blk 12 = 0 := by
      rw [update_of_ne (by omega), hP 12 le_rfl]
    rw [if_neg (not_not.2 hne), wp_bind, wp_recover]
    refine hg.wp_allocBlock hfree ?_ ?_
    · intro ind s₁ hg₁ hdata₁ hind hind'
      simp only [wp_bind, wp_recover, wp_pure]
      generalize hF : update (update (pointer s.view.data n) (place done.length) blk) 12
        ind = F at hg₁
      have hF12 : F 12 = ind := by rw [← hF, update_self]
      have hindne : F 12 ≠ 0 := by omega
      rw [← hF12]
      refine hg₁.wp_bwrite hindne _ ?_
      intro s₂ hg₂ hview₂
      generalize hn' : (n.setBlock 12 (F 12)).setSectors ((n.setBlock 12 (F 12)).sectors + 8) = n'
      have hblock : ∀ k, n'.block k = if k = 12 then F 12 else n.block k := by
        intro k
        rw [← hn', Inode.block_setSectors, Inode.block_setBlock (by omega)]
      have h12 : n'.block 12 = F 12 := by rw [hblock, if_pos rfl]
      have hdata₂ : ∀ b, s₂.view.data b = if b = F 12 then clip indirect else s.view.data b := by
        intro b
        rw [hview₂, ← hdata₁]
        change update s₁.view.data _ _ b = _
        rw [update_apply]
      have hentries : ∀ k, 13 ≤ k → pointer s₂.view.data n' k = 0 := by
        intro k hk
        rw [pointer, if_neg (by omega)]
        split_ifs with hk'
        · rw [h12, hdata₂, if_pos rfl, hd.blank hne, r32, readLE_clip _ (by omega)]
          exact readLE_eq_zero fun _ _ _ => rfl
        · rfl
      have hlow : ∀ k < 12, pointer s₂.view.data n' k = pointer s.view.data n k := by
        intro k hk
        rw [pointer_of_lt (by omega), pointer_of_lt (by omega), hblock, if_neg (by omega)]
      have hF' : F = update (pointer s₂.view.data n') (place done.length) blk := by
        funext k
        rw [← hF, update_apply, update_apply, update_apply, hplace]
        rcases lt_trichotomy k 12 with hk | hk | hk
        · rw [if_neg (by omega), if_neg (by omega), if_neg (by omega), hlow k hk]
        · rw [if_pos hk, if_neg (by omega), hk, pointer_of_lt (by decide), h12, hF12]
        · rw [if_neg (by omega)]
          split_ifs
          · rfl
          · rw [hP k hk.le, hentries k hk]
      rw [hF'] at hg₂
      refine hQ n' s₂ (by rwa [if_pos hne]) ⟨?_, ?_, ?_, ?_⟩ (by rwa [h12]) ?_
      · intro j c hj
        have hj' : j < 12 := by
          have := (List.getElem?_eq_some_iff.1 hj).1
          omega
        obtain ⟨hjne, hjdata⟩ := hd.placed j c hj
        rw [place_of_lt hj'] at hjne hjdata ⊢
        have hFj : F j = pointer s.view.data n j := by
          rw [← hF, update_of_ne (by omega), update_of_ne (by omega)]
        have hjF := hg₁.toGood.held_ne (show j ≠ 12 by omega) (by rwa [hFj])
        rw [hFj] at hjF
        rw [hlow j hj', hdata₂, if_neg hjF]
        exact ⟨hjne, hjdata⟩
      · intro k hk
        exact hentries k (by omega)
      · intro _
        rw [h12, hdata₂, if_pos rfl]
      · intro hz
        exact absurd (h12.symm.trans hz) hindne
      · rw [← hn']
        exact (sameAttr_setBlock n _ _).trans (sameAttr_setSectors _ _)
    · -- no block is left
      intro hfull
      simp only [wp_bind, wp_recover, wp_pure]
      have hheld : update (pointer s.view.data n) (place done.length) blk (place done.length) = blk := update_self _ _ _
      nth_rewrite 1 [← hheld]
      refine hg.wp_freeBlock (by rwa [hheld]) ?_
      intro s₁ hg₁ hdata₁
      refine hE _ s₁ ?_ hne hfull
      have hptr : pointer s₁.view.data (n.setBlock 12 0) = pointer s.view.data n := by
        rw [hdata₁]
        refine pointer_congr fun k _ => ?_
        rw [Inode.block_setBlock (by decide)]
        split_ifs with hk
        · rw [hk, hne]
        · rfl
      rw [update_idem] at hg₁
      rw [hptr, ← update_eq_self (place done.length) (pointer s.view.data n), hPz]
      exact hg₁
  · rw [if_pos hne, wp_pure]
    exact hQ n s (by rwa [if_neg hne]) hd hne (SameAttr.refl _)

end Attach

/-- The number of the blocks that are taken for a file of `k` blocks, with the
indirect block. -/
def demand (k : ℕ) : ℕ := k + if 12 < k then 1 else 0

theorem demand_lt (h : j < k) : demand j < demand k := by
  rw [demand, demand]
  split_ifs <;> omega

/-- **A block is entered** as the next one of the file, or given back. -/
theorem wp_attach {Q : Inode × ByteMem × Bool → State → Prop}
    (hg : Holding v s (update (pointer s.view.data n) (place done.length) blk)
      (demand done.length + 1))
    (hd : Drawn s.view.data n indirect done) (hblk : blk ≠ 0) (hblk' : blk < 16384)
    (hlen : done.length < 1036) (hiff : n.block 12 ≠ 0 ↔ 12 < done.length)
    (hQ : ∀ n' indirect' s', Holding v s' (pointer s'.view.data n') (demand (done.length + 1)) →
      Attached s' n' indirect' done blk → (n'.block 12 ≠ 0 ↔ 12 < done.length + 1) → SameAttr n n' →
      Q (n', indirect', true) s')
    (hE : ∀ n' indirect' s', Holding v s' (pointer s'.view.data n') (demand done.length) →
      v.freeBlocks < demand (done.length + 1) → Q (n', indirect', false) s') :
    wp (attach n indirect done.length blk) Q E s := by
  rw [attach]
  by_cases hdirect : done.length < 12
  · have hnone : n.block 12 = 0 := by
      by_contra hne
      omega
    have hdemand : demand (done.length + 1) = demand done.length + 1 := by
      rw [demand, demand, if_neg (by omega), if_neg (by omega)]
    obtain ⟨hgood, hattached⟩ := attached_direct hg hd hblk hblk' hdirect hnone
    rw [if_pos hdirect, wp_pure]
    refine hQ _ _ s (by rwa [hdemand]) hattached ?_ (sameAttr_setBlock n _ _)
    rw [Inode.block_setBlock (by omega), if_neg (by omega), hnone]
    exact iff_of_false (fun hne => hne rfl) (by omega)
  · have hdemand : demand (done.length + 1) =
        if n.block 12 = 0 then demand done.length + 2 else demand done.length + 1 := by
      rw [demand, demand, if_pos (by omega)]
      by_cases hz : n.block 12 = 0
      · rw [if_pos hz, if_neg fun hlt => hiff.2 hlt hz]
      · rw [if_neg hz, if_pos (hiff.1 hz)]
    rw [if_neg hdirect, wp_bind]
    refine wp_ensureIndirect hg hd hblk (fun hz => ?_) ?_ ?_
    · by_contra hne
      exact hiff.2 (by omega) hz
    · intro n₁ s₁ hg₁ hd₁ hne₁ hsame₁
      simp only [if_true, wp_bind, wp_recover]
      rw [← hdemand] at hg₁
      have hpos : demand (done.length + 1) = demand (done.length + 1) - 1 + 1 := by
        rw [hdemand]
        split_ifs <;> omega
      rw [hpos] at hg₁
      refine wp_attach_indirect hg₁ hd₁ hblk hblk' (by omega) hlen hne₁ ?_
      intro s₂ hg₂ hattached
      rw [← hpos] at hg₂
      exact hQ n₁ _ s₂ hg₂ hattached (iff_of_true hne₁ (by omega)) hsame₁
    · intro n₁ s₁ hg₁ hz hfull
      refine hE n₁ indirect s₁ hg₁ ?_
      rw [hfull, hdemand, if_pos hz]
      omega

/-- **The loop of `write_new_blocks`**: the parts `rest` are written behind `done`, or
there are not blocks enough. -/
theorem wp_writeBlocks {Q : Inode × Bool → State → Prop} (rest : List ByteMem) :
    ∀ {s : State} {n : Inode} {indirect : ByteMem} {done : List ByteMem},
    Holding v s (pointer s.view.data n) (demand done.length) → Drawn s.view.data n indirect done →
    (n.block 12 ≠ 0 ↔ 12 < done.length) → done.length + rest.length ≤ 1036 →
    (∀ n' indirect' s', Holding v s' (pointer s'.view.data n') (demand (done.length + rest.length)) →
      Drawn s'.view.data n' indirect' (done ++ rest) → SameAttr n n' → Q (n', true) s') →
    (∀ n' s' m, Holding v s' (pointer s'.view.data n') m →
      v.freeBlocks < demand (done.length + rest.length) → Q (n', false) s') →
    wp (writeBlocks n indirect done.length rest) Q E s := by
  induction rest with
  | nil =>
    intro s n indirect done hg hd _ _ hQ _
    refine hQ n indirect s hg ?_ (SameAttr.refl _)
    rwa [append_nil]
  | cons c rest ih =>
    intro s n indirect done hg hd hiff hlen hQ hE
    rw [length_cons] at hlen hQ hE
    have hmore : demand (done.length + 1) ≤ demand (done.length + (rest.length + 1)) := by
      rw [demand, demand]
      split_ifs <;> omega
    rw [writeBlocks, wp_bind, wp_recover]
    refine hg.wp_allocBlock (hd.free _ le_rfl) ?_ ?_
    · intro blk s₁ hg₁ hdata₁ hblk hblk'
      rw [← hdata₁] at hg₁ hd
      simp only [wp_bind]
      refine wp_attach hg₁ hd (by omega) hblk' (by omega) hiff ?_ ?_
      · intro n₂ indirect₂ s₂ hg₂ hattached hiff₂ hsame₂
        simp only [if_true, wp_bind, wp_recover]
        have hself := hattached.1
        have hne : pointer s₂.view.data n₂ (place done.length) ≠ 0 := by
          omega
        rw [← hself]
        refine hg₂.wp_bwrite hne c ?_
        intro s₃ hg₃ hview₃
        rw [hself] at hview₃
        -- the new part is in its block
        obtain ⟨hptr, hd₃⟩ := hattached.2 s₃.view.data c
          (by rw [hview₃]; exact update_self blk _ _)
          (fun b hb => by rw [hview₃]; exact update_of_ne hb _ _)
        have hsectors := pointer_setSectors s₃.view.data n₂ (n₂.sectors + 8)
        have hlength : (done ++ [c]).length = done.length + 1 := length_append
        have hsum : done.length + 1 + rest.length = done.length + (rest.length + 1) := by omega
        rw [← hlength]
        refine @ih _ _ _ (done ++ [c]) ?_ (hd₃.setSectors _) ?_ (by omega) ?_ ?_
        · rw [hsectors, hptr, hlength]
          exact hg₃
        · rw [Inode.block_setSectors, hlength]
          exact hiff₂
        · intro n' indirect' s' hg' hd' hsame'
          rw [hlength, hsum] at hg'
          rw [append_assoc] at hd'
          exact hQ n' indirect' s' hg' hd' ((hsame₂.trans (sameAttr_setSectors n₂ _)).trans hsame')
        · intro n' s' m' hg' hshort
          rw [hlength, hsum] at hshort
          exact hE n' s' m' hg' hshort
      · intro n₂ indirect₂ s₂ hg₂ hshort
        exact hE n₂ s₂ _ hg₂ (hshort.trans_le hmore)
    · intro hfull
      refine hE n s _ hg ?_
      rw [hfull]
      exact (demand_lt (Nat.lt_succ_self _)).trans_le hmore

theorem pointer_eq_zero (h : ∀ k < 13, n.block k = 0) : pointer data n = fun _ => 0 := by
  funext k
  rw [pointer]
  split_ifs with hk hk'
  · exact h k hk
  · exact absurd (h 12 (by decide)) hk'.2
  · rfl

/-- **`write_new_blocks`** gives a record blocks that hold the contents, if there are
enough of them, and otherwise none. -/
theorem Good.wp_writeNewBlocks {Q : Inode → State → Prop} (h : Good s fun _ => 0)
    (hn : ∀ k < 13, n.block k = 0) (data : ℕ → UInt8) {size : ℕ} (hsize : size ≤ maxFileSize)
    (hQ : ∀ n' s', Holding s.view s' (pointer s'.view.data n') (demand ((size + 4095) / 4096)) →
      (∀ j c, (chunks data size)[j]? = some c → pointer s'.view.data n' (place j) ≠ 0 ∧
        s'.view.data (pointer s'.view.data n' (place j)) = clip c) → SameAttr n n' → Q n' s')
    (hE : ∀ s', Good s' (fun _ => 0) → Untouched s.view s'.view → s'.view.blockBit = s.view.blockBit →
      s.view.freeBlocks < demand ((size + 4095) / 4096) → E s') :
    wp (writeNewBlocks n data size) Q E s := by
  have hlength : (chunks data size).length = (size + 4095) / 4096 := by
    rw [chunks, length_map, length_range]
  have hzero : pointer s.view.data n = fun _ => 0 := pointer_eq_zero hn
  have h12 : n.block 12 = 0 := hn 12 (by decide)
  rw [maxFileSize] at hsize
  rw [writeNewBlocks, wp_bind]
  rw [← hlength] at hQ hE
  refine @wp_writeBlocks _ s.view _ (chunks data size) _ _ _ [] ?_ ⟨?_, ?_, ?_, ?_⟩ ?_ ?_ ?_ ?_
  · rw [hzero]
    exact h.holding
  · intro j c hj
    cases hj
  · intro k _
    rw [hzero]
  · exact fun hne => absurd h12 hne
  · exact fun _ => rfl
  · exact iff_of_false (not_not.2 h12) (by simp)
  · rw [length_nil, hlength]
    omega
  · intro n' indirect' s' hg hd hsame
    rw [length_nil, zero_add] at hg
    exact hQ n' s' hg hd.placed hsame
  · intro n' s' m' hg hshort
    rw [length_nil, zero_add] at hshort
    simp only [Bool.false_eq_true, if_false, wp_bind]
    refine hg.wp_releaseBlocks ?_
    intro s'' hg' hu' hbits
    exact hE s'' hg' hu' hbits hshort

/-! ### Contents -/

/-- The bytes of inode `i`. -/
def View.content (v : View) (i : ℕ) : List UInt8 :=
  ((range (((v.inode i).size + 4095) / 4096)).flatMap fun j =>
    bytes (v.data (v.ptr i (place j))) 0 4096).take (v.inode i).size

/-- Blocks of a memory, one behind the other. -/
theorem flatMap_bytes (m : ByteMem) (k : ℕ) :
    (range k).flatMap (fun j => bytes m (j * 4096) 4096) = bytes m 0 (k * 4096) := by
  induction k with
  | zero => rfl
  | succ k ih =>
    rw [range_succ, flatMap_append, ih, Nat.succ_mul, bytes_add, flatMap_singleton, zero_add]

theorem take_bytes (m : ByteMem) (a : ℕ) {n : ℕ} (h : k ≤ n) : (bytes m a n).take k = bytes m a k := by
  obtain ⟨r, rfl⟩ := Nat.exists_eq_add_of_le h
  rw [bytes_add, take_left' (length_bytes _ _ _)]

/-- **The contents are the parts** that have been written. -/
theorem content_eq {data : ℕ → UInt8}
    (h : ∀ j c, (chunks data (v.inode i).size)[j]? = some c → v.data (v.ptr i (place j)) = clip c) :
    v.content i = bytes data 0 (v.inode i).size := by
  generalize hs : (v.inode i).size = size at h
  let m : ByteMem := fun x => if x < size then data x else 0
  have hblocks : (range ((size + 4095) / 4096)).flatMap (fun j => bytes (v.data (v.ptr i (place j))) 0 4096) =
      (range ((size + 4095) / 4096)).flatMap fun j => bytes m (j * 4096) 4096 := by
    refine congrArg flatten (map_congr_left fun j hj => ?_)
    have hj' := mem_range.1 hj
    rw [h j _ (by rw [chunks, getElem?_map, getElem?_range hj', Option.map_some])]
    refine map_congr_left fun x hx => ?_
    have hx' := mem_range.1 hx
    rw [zero_add, clip_apply _ hx']
    by_cases hlt : j * 4096 + x < size
    · rw [if_pos ⟨hx', hlt⟩]
      exact (if_pos hlt).symm
    · rw [if_neg fun hand => hlt hand.2]
      exact (if_neg hlt).symm
  rw [View.content, hs, hblocks, flatMap_bytes, take_bytes _ _ (by omega)]
  refine bytes_congr fun x _ hx => ?_
  exact if_pos (by omega)

end OS64.Ext2
