import Mathlib.Data.List.Chain
import Mathlib.Algebra.BigOperators.Group.List.Basic
import Mathlib.Tactic.Ring

/-!
# Block lists of a coalescing allocator

The abstract side of a boundary-tag allocator: an arena is a list of blocks, each
either free or allocated, laid end to end with `h` bytes of overhead before
every payload. Nothing is said about memory or pointers; a block is known by
the blocks before it.

Two operations change the list. `BlockList.carve` turns a free block into an
allocation, cutting off what is left as a free block of its own when that is
worth it. `BlockList.release` frees an allocated block and merges it with
whichever neighbours are free. The invariants an allocator lives by are kept by
both: the blocks cover the same span of the arena, no two neighbours are both
free (`BlockList.Separated`), every size is a multiple of a given alignment.
-/

/-- A block of an arena: the size of its payload, and whether it is free. -/
structure Block where
  size : ℕ
  free : Bool
  deriving DecidableEq, Repr

namespace BlockList

open List Option

variable {c : Block} {bs : List Block}

variable {h : ℕ}

/-! ### Totals -/

/-- The bytes a list of blocks covers, overheads included. -/
def span (h : ℕ) : List Block → ℕ
  | [] => 0
  | b :: bs => h + b.size + span h bs

/-- The payload bytes of the allocated blocks. -/
def usedBytes : List Block → ℕ
  | [] => 0
  | b :: bs => (if b.free then 0 else b.size) + usedBytes bs

/-- The payload bytes of the free blocks. -/
def freeBytes : List Block → ℕ
  | [] => 0
  | b :: bs => (if b.free then b.size else 0) + freeBytes bs

/-- The number of allocated blocks. -/
def usedCount : List Block → ℕ
  | [] => 0
  | b :: bs => (if b.free then 0 else 1) + usedCount bs

@[simp] theorem span_nil : span h [] = 0 := rfl

@[simp] theorem span_cons (b : Block) (bs : List Block) : span h (b :: bs) = h + b.size + span h bs := rfl

@[simp] theorem span_append (l r : List Block) : span h (l ++ r) = span h l + span h r := by
  induction l with
  | nil => simp
  | cons b l ih =>
    rw [cons_append, span_cons, span_cons, ih]
    omega

@[simp] theorem usedBytes_append (l r : List Block) : usedBytes (l ++ r) = usedBytes l + usedBytes r := by
  induction l with
  | nil => simp [usedBytes]
  | cons b l ih =>
    rw [cons_append, usedBytes, usedBytes, ih]
    omega

@[simp] theorem usedCount_append (l r : List Block) : usedCount (l ++ r) = usedCount l + usedCount r := by
  induction l with
  | nil => simp [usedCount]
  | cons b l ih =>
    rw [cons_append, usedCount, usedCount, ih]
    omega

/-- **The accounting identity**: payload bytes, used and free, and overheads
make up the span. -/
theorem span_eq (bs : List Block) : span h bs = usedBytes bs + freeBytes bs + h * bs.length := by
  induction bs with
  | nil => simp [usedBytes, freeBytes]
  | cons b bs ih =>
    rw [span_cons, usedBytes, freeBytes, ih, length_cons, Nat.mul_succ]
    cases b.free <;> simp <;> omega

/-- There are at most as many blocks as bytes covered, once the overhead is not
zero. -/
theorem length_le_span (hh : 0 < h) (bs : List Block) : bs.length ≤ span h bs := by
  induction bs with
  | nil => simp
  | cons b bs ih =>
    rw [span_cons, length_cons]
    omega

theorem usedBytes_le_span (bs : List Block) : usedBytes bs ≤ span h bs := by
  rw [span_eq]
  omega

theorem usedCount_le_length (bs : List Block) : usedCount bs ≤ bs.length := by
  induction bs with
  | nil => simp [usedCount]
  | cons b bs ih =>
    rw [usedCount, length_cons]
    split <;> omega

theorem usedCount_eq_zero : usedCount bs = 0 ↔ ∀ b ∈ bs, b.free = true := by
  induction bs with
  | nil => simp [usedCount]
  | cons b bs ih =>
    rw [usedCount, forall_mem_cons, ← ih]
    cases b.free <;> simp

theorem dvd_span {d : ℕ} (hh : d ∣ h) (hbs : ∀ b ∈ bs, d ∣ b.size) : d ∣ span h bs := by
  induction bs with
  | nil => simp
  | cons b bs ih =>
    have hb : d ∣ b.size := hbs b (by simp)
    have hrest : d ∣ span h bs := ih fun c hc => hbs c (by simp [hc])
    exact Nat.dvd_add (Nat.dvd_add hh hb) hrest

/-! ### Separation -/

/-- No two neighbouring blocks are both free. -/
def Separated (bs : List Block) : Prop := bs.IsChain fun b c => ¬(b.free = true ∧ c.free = true)

/-- Two lists meet without two free blocks side by side. -/
def Meet (l r : List Block) : Prop :=
  ∀ b ∈ l.getLast?, ∀ c ∈ r.head?, ¬(b.free = true ∧ c.free = true)

theorem separated_append {l r : List Block} : Separated (l ++ r) ↔ Separated l ∧ Separated r ∧ Meet l r :=
  isChain_append

theorem separated_cons {b : Block} {r : List Block} :
    Separated (b :: r) ↔ (∀ c ∈ r.head?, ¬(b.free = true ∧ c.free = true)) ∧ Separated r :=
  isChain_cons

/-- A separated list of free blocks has at most one block. -/
theorem length_le_one_of_usedCount_eq_zero (hs : Separated bs)
    (h0 : usedCount bs = 0) : bs.length ≤ 1 := by
  rcases bs with _ | ⟨b, _ | ⟨c, bs⟩⟩
  · simp
  · simp
  · have hfree := usedCount_eq_zero.mp h0
    exact absurd ⟨hfree b (by simp), hfree c (by simp)⟩ ((separated_cons.mp hs).1 c (by simp))

/-! ### Allocation -/

/-- What a free block becomes when `wanted` of its bytes are allocated: two
blocks when a least payload and its overhead are left over, one otherwise. -/
def carve (h least wanted : ℕ) (b : Block) : List Block :=
  if wanted + h + least ≤ b.size then
    [⟨wanted, false⟩, ⟨b.size - wanted - h, true⟩]
  else [⟨b.size, false⟩]

variable {least wanted : ℕ} {b : Block} {l r : List Block}

theorem usedBytes_carve : usedBytes (carve h least wanted b) =
    if wanted + h + least ≤ b.size then wanted else b.size := by
  unfold carve
  split <;> simp [usedBytes]

theorem usedCount_carve : usedCount (carve h least wanted b) = 1 := by
  unfold carve
  split <;> simp [usedCount]

/-- A property of sizes that the two parts of a cut block have, and the whole
one, is kept by carving. -/
theorem size_of_mem_carve {Q : ℕ → Prop} (hw : Q wanted) (hb : Q b.size)
    (hrest : wanted + h + least ≤ b.size → Q (b.size - wanted - h)) :
    ∀ c ∈ carve h least wanted b, Q c.size := by
  intro c hc
  unfold carve at hc
  split at hc
  · rename_i hfit
    simp only [mem_cons, not_mem_nil, or_false] at hc
    rcases hc with rfl | rfl
    · exact hw
    · exact hrest hfit
  · simp only [mem_cons, not_mem_nil, or_false] at hc
    rw [hc]
    exact hb

theorem span_carve : span h (carve h least wanted b) = h + b.size := by
  unfold carve
  split
  · simp only [span_cons, span_nil]
    omega
  · simp

/-- Cutting a free block in two keeps the list separated: the remainder stands
next to what the block stood next to. -/
theorem Separated.carve (hs : Separated (l ++ b :: r)) (hb : b.free = true) :
    Separated (l ++ (BlockList.carve h least wanted b ++ r)) := by
  obtain ⟨hl, hbr, -⟩ := separated_append.mp hs
  obtain ⟨hbr, hr⟩ := separated_cons.mp hbr
  refine separated_append.mpr ⟨hl, ?_, ?_⟩
  · unfold BlockList.carve
    split
    · refine separated_cons.mpr ⟨by simp, separated_cons.mpr ⟨fun c hc => ?_, hr⟩⟩
      have hmeet := hbr c hc
      rw [hb] at hmeet
      exact hmeet
    · exact separated_cons.mpr ⟨by simp, hr⟩
  · intro x _ y hy
    have hfalse : y.free = false := by
      unfold BlockList.carve at hy
      split at hy <;> simp only [cons_append, nil_append, List.head?_cons, mem_def, some.injEq] at hy <;> rw [← hy]
    simp [hfalse]

/-! ### Release -/

/-- A freed block `b` and what follows it, after it has swallowed the block
next to it if that is free. -/
def mergeRight (h : ℕ) (b : Block) : List Block → Block × List Block
  | [] => (b, [])
  | c :: r => if c.free then (⟨b.size + (h + c.size), true⟩, r) else (b, c :: r)

/-- The list `l ++ b :: r`, after the last block of `l` has swallowed `b` if it
is free. -/
def mergeLeft (h : ℕ) (l : List Block) (b : Block) (r : List Block) : List Block :=
  match l.getLast? with
  | none => b :: r
  | some c => if c.free then l.dropLast ++ ⟨c.size + (h + b.size), true⟩ :: r else l ++ b :: r

/-- The list `l ++ b :: r` after the allocated block `b` has been freed. -/
def release (h : ℕ) (l : List Block) (b : Block) (r : List Block) : List Block :=
  mergeLeft h l (mergeRight h ⟨b.size, true⟩ r).1 (mergeRight h ⟨b.size, true⟩ r).2

theorem mergeRight_of_free (hc : c.free = true) : mergeRight h b (c :: r) = (⟨b.size + (h + c.size), true⟩, r) := by
  rw [mergeRight, if_pos hc]

theorem mergeRight_of_not_free (hc : ¬c.free = true) : mergeRight h b (c :: r) = (b, c :: r) := by
  rw [mergeRight, if_neg hc]

@[simp] theorem mergeLeft_nil : mergeLeft h [] b r = b :: r := rfl

theorem mergeLeft_of_free (hc : c.free = true) :
    mergeLeft h (l ++ [c]) b r = l ++ ⟨c.size + (h + b.size), true⟩ :: r := by
  simp [mergeLeft, hc]

theorem mergeLeft_of_not_free (hc : ¬c.free = true) : mergeLeft h (l ++ [c]) b r = l ++ [c] ++ b :: r := by
  simp [mergeLeft, hc]

theorem mergeRight_free (hb : b.free = true) : (mergeRight h b r).1.free = true := by
  cases r with
  | nil => exact hb
  | cons c r =>
    by_cases hc : c.free = true
    · rw [mergeRight_of_free hc]
    · rw [mergeRight_of_not_free hc, hb]

/-- Merging a free block to the right leaves it followed by a block that is not
free. -/
theorem Separated.mergeRight (hr : Separated r) :
    Separated ((BlockList.mergeRight h b r).1 :: (BlockList.mergeRight h b r).2) := by
  cases r with
  | nil => exact isChain_singleton _
  | cons c r =>
    obtain ⟨hcr, hr'⟩ := separated_cons.mp hr
    by_cases hc : c.free = true
    · rw [mergeRight_of_free hc]
      exact separated_cons.mpr ⟨fun d hd hcon => hcr d hd ⟨hc, hcon.2⟩, hr'⟩
    · rw [mergeRight_of_not_free hc]
      refine separated_cons.mpr ⟨fun d hd hcon => ?_, hr⟩
      simp only [List.head?_cons, mem_def, some.injEq] at hd
      exact hc (hd ▸ hcon.2)

theorem span_mergeRight : h + (mergeRight h b r).1.size + span h (mergeRight h b r).2 = h + b.size + span h r := by
  cases r with
  | nil => rfl
  | cons c r =>
    by_cases hc : c.free = true
    · simp only [mergeRight_of_free hc, span_cons]
      omega
    · rw [mergeRight_of_not_free hc]

theorem usedBytes_mergeRight : usedBytes (mergeRight h b r).2 = usedBytes r := by
  cases r with
  | nil => rfl
  | cons c r =>
    by_cases hc : c.free = true
    · simp [mergeRight_of_free hc, usedBytes, hc]
    · rw [mergeRight_of_not_free hc]

theorem usedCount_mergeRight : usedCount (mergeRight h b r).2 = usedCount r := by
  cases r with
  | nil => rfl
  | cons c r =>
    by_cases hc : c.free = true
    · simp [mergeRight_of_free hc, usedCount, hc]
    · rw [mergeRight_of_not_free hc]

theorem span_mergeLeft : span h (mergeLeft h l b r) = span h l + (h + b.size + span h r) := by
  rcases eq_nil_or_concat l with rfl | ⟨l, c, rfl⟩
  · simp
  · by_cases hc : c.free = true
    · rw [concat_eq_append, mergeLeft_of_free hc]
      simp only [span_append, span_cons, span_nil]
      omega
    · rw [concat_eq_append, mergeLeft_of_not_free hc]
      simp only [span_append, span_cons, span_nil]

theorem usedBytes_mergeLeft (hb : b.free = true) : usedBytes (mergeLeft h l b r) = usedBytes l + usedBytes r := by
  rcases eq_nil_or_concat l with rfl | ⟨l, c, rfl⟩
  · simp [usedBytes, hb]
  · by_cases hc : c.free = true
    · simp [mergeLeft_of_free hc, usedBytes, hc]
    · simp [mergeLeft_of_not_free hc, usedBytes, hb, add_assoc]

theorem usedCount_mergeLeft (hb : b.free = true) : usedCount (mergeLeft h l b r) = usedCount l + usedCount r := by
  rcases eq_nil_or_concat l with rfl | ⟨l, c, rfl⟩
  · simp [usedCount, hb]
  · by_cases hc : c.free = true
    · simp [mergeLeft_of_free hc, usedCount, hc]
    · simp [mergeLeft_of_not_free hc, usedCount, hb, add_assoc]

theorem Separated.mergeLeft (hl : Separated l) (hb : b.free = true) (hbr : Separated (b :: r)) :
    Separated (BlockList.mergeLeft h l b r) := by
  rcases eq_nil_or_concat l with rfl | ⟨l, c, rfl⟩
  · simpa using hbr
  rw [concat_eq_append] at hl ⊢
  by_cases hc : c.free = true
  · rw [mergeLeft_of_free hc]
    obtain ⟨hl', -, hmeet⟩ := separated_append.mp hl
    obtain ⟨hhead, hr⟩ := separated_cons.mp hbr
    refine separated_append.mpr ⟨hl', separated_cons.mpr ⟨?_, hr⟩, ?_⟩
    · exact fun d hd hcon => hhead d hd ⟨hb, hcon.2⟩
    · intro x hx y hy hcon
      exact hmeet x hx c (by simp) ⟨hcon.1, hc⟩
  · rw [mergeLeft_of_not_free hc]
    refine separated_append.mpr ⟨hl, hbr, fun x hx y hy hcon => ?_⟩
    simp only [List.getLast?_append, List.getLast?_singleton, some_or, mem_def, some.injEq] at hx
    exact hc (hx ▸ hcon.1)

/-! ### What a release keeps -/

/-- Freeing a block moves no boundary of the arena. -/
theorem span_release : span h (release h l b r) = span h (l ++ b :: r) := by
  rw [release, span_mergeLeft, span_mergeRight, span_append, span_cons]

/-- **A release leaves no two free neighbours**, provided there were none. -/
theorem Separated.release (hs : Separated (l ++ b :: r)) : Separated (BlockList.release h l b r) := by
  obtain ⟨hl, hbr, -⟩ := separated_append.mp hs
  exact hl.mergeLeft (mergeRight_free rfl) (separated_cons.mp hbr).2.mergeRight

/-- Freeing an allocated block gives back its bytes. -/
theorem usedBytes_release (hb : b.free = false) : usedBytes (release h l b r) + b.size = usedBytes (l ++ b :: r) := by
  rw [release, usedBytes_mergeLeft (mergeRight_free rfl), usedBytes_mergeRight, usedBytes_append, usedBytes, hb]
  simp only [Bool.false_eq_true, if_false]
  omega

theorem usedCount_release (hb : b.free = false) : usedCount (release h l b r) + 1 = usedCount (l ++ b :: r) := by
  rw [release, usedCount_mergeLeft (mergeRight_free rfl), usedCount_mergeRight, usedCount_append, usedCount, hb]
  simp only [Bool.false_eq_true, if_false]
  omega

section Sizes

variable {Q : ℕ → Prop} (hmerge : ∀ m n, Q m → Q n → Q (m + (h + n)))
include hmerge

theorem size_of_mem_mergeRight (hb : Q b.size) (hr : ∀ c ∈ r, Q c.size) :
    ∀ c ∈ (mergeRight h b r).1 :: (mergeRight h b r).2, Q c.size := by
  cases r with
  | nil => simpa [mergeRight] using hb
  | cons c r =>
    simp only [mem_cons, forall_eq_or_imp] at hr
    by_cases hc : c.free = true
    · simp only [mergeRight_of_free hc, mem_cons, forall_eq_or_imp]
      exact ⟨hmerge _ _ hb hr.1, hr.2⟩
    · simp only [mergeRight_of_not_free hc, mem_cons, forall_eq_or_imp]
      exact ⟨hb, hr⟩

theorem size_of_mem_mergeLeft (hl : ∀ c ∈ l, Q c.size) (hbr : ∀ c ∈ b :: r, Q c.size) :
    ∀ c ∈ mergeLeft h l b r, Q c.size := by
  rcases eq_nil_or_concat l with rfl | ⟨l, c, rfl⟩
  · simpa using hbr
  · simp only [concat_eq_append, mem_append, mem_cons, not_mem_nil, or_false] at hl hbr ⊢
    by_cases hc : c.free = true
    · simp only [mergeLeft_of_free hc, mem_append, mem_cons]
      rintro x (hx | rfl | hx)
      · exact hl x (.inl hx)
      · exact hmerge _ _ (hl c (.inr rfl)) (hbr b (.inl rfl))
      · exact hbr x (.inr hx)
    · simp only [mergeLeft_of_not_free hc, mem_append, mem_cons, not_mem_nil, or_false]
      rintro x (hx | hx)
      · exact hl x hx
      · exact hbr x hx

/-- A property of sizes that passes to merged blocks is kept by a release. -/
theorem size_of_mem_release (hs : ∀ c ∈ l ++ b :: r, Q c.size) : ∀ c ∈ release h l b r, Q c.size := by
  simp only [mem_append, mem_cons] at hs
  refine size_of_mem_mergeLeft hmerge (fun c hc => hs c (.inl hc)) ?_
  exact size_of_mem_mergeRight hmerge (hs b (.inr (.inl rfl)))
    fun c hc => hs c (.inr (.inr hc))

end Sizes

end BlockList
