import Mathlib.Data.Finset.Card

/-!
# Counting under updates

A counter that is kept beside a table is right if it is the number of entries with
some property. When one entry of the table changes, the number changes by one or
not at all, depending on the old and the new value of that entry.
-/

namespace Counting

open Function Finset

variable {ι α : Type*} {S : Finset ι} {f : ι → α} {P : α → Prop} [DecidablePred P] {i : ι} {v : α}

/-- The number of indices in `S` whose entry has the property `P`. -/
def count (S : Finset ι) (f : ι → α) (P : α → Prop) [DecidablePred P] : ℕ :=
  (S.filter fun j => P (f j)).card

theorem count_le_card : count S f P ≤ S.card := card_filter_le S _

variable [DecidableEq ι]

/-- **One less**: the entry had the property and has lost it. -/
theorem count_update_lost (hi : i ∈ S) (hold : P (f i)) (hnew : ¬P v) : count S (update f i v) P + 1 = count S f P := by
  have hmem : i ∈ S.filter fun j => P (f j) := mem_filter.mpr ⟨hi, hold⟩
  rw [count, count, ← card_erase_add_one hmem]
  congr 2
  ext j
  rw [mem_filter, mem_erase, mem_filter, update_apply]
  by_cases hj : j = i
  · rw [if_pos hj]
    exact ⟨fun h => absurd h.2 hnew, fun h => absurd hj h.1⟩
  · rw [if_neg hj]
    exact ⟨fun h => ⟨hj, h⟩, fun h => h.2⟩

/-- **One more**: the entry has won the property. -/
theorem count_update_won (hi : i ∈ S) (hold : ¬P (f i)) (hnew : P v) : count S (update f i v) P = count S f P + 1 := by
  have h := count_update_lost (f := update f i v) (v := f i) hi
    (by rwa [update_self]) hold
  rw [update_idem, update_eq_self] at h
  exact h.symm

/-- **No change**: the entry has the property afterwards exactly if it had it
before. -/
theorem count_update_same (h : P v ↔ P (f i)) : count S (update f i v) P = count S f P := by
  rw [count, count]
  congr 1
  refine filter_congr fun j _ => ?_
  rw [update_apply]
  split
  · rename_i hj
    rw [hj, h]
  · rfl

end Counting
