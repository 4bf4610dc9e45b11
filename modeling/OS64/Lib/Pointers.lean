import Mathlib.Data.Sum.Basic
import Mathlib.Data.Prod.Basic

/-!
# Exclusive pointers

A family of pointers, where 0 points to nothing, is exclusive if nothing is
pointed to twice. The pointers of a data structure on a disk and those that a
program holds in memory, while it builds or takes apart a piece of it, are one
family, indexed by a sum; that no cell is lost, shared or freed twice is that
this family stays exclusive. Putting a piece into the structure exchanges the
pointers it has in memory with those of the piece that was there
(`Pointers.Exclusive.swap`).
-/

namespace Pointers

open Function
open Sum (inl inr)

variable {ι κ : Type*}

/-- No two pointers lead to the same place. -/
def Exclusive (ptr : ι → ℕ) : Prop := ∀ i j, ptr i = ptr j → ptr i ≠ 0 → i = j

/-- Fewer pointers, or the same ones in another order. -/
theorem Exclusive.comp {ptr : ι → ℕ} (h : Exclusive ptr) {e : κ → ι} (he : Injective e) : Exclusive (ptr ∘ e) :=
  fun i j heq hne => he (h (e i) (e j) heq hne)

variable {i : ι} {v : ℕ} {ptr : ι → κ → ℕ} {mem : κ → ℕ} {k j : κ}

/-- **A pointer to a new place.** -/
theorem Exclusive.update [DecidableEq ι] {ptr : ι → ℕ} (h : Exclusive ptr)
    (hv : ∀ j, j ≠ i → v ≠ 0 → ptr j ≠ v) : Exclusive (update ptr i v) := by
  intro j k heq hne
  rw [update_apply, update_apply] at heq
  rw [update_apply] at hne
  by_cases hj : j = i
  · by_cases hk : k = i
    · rw [hj, hk]
    · rw [if_pos hj, if_neg hk] at heq
      rw [if_pos hj] at hne
      exact absurd heq.symm (hv k hk hne)
  · rw [if_neg hj] at hne heq
    by_cases hk : k = i
    · rw [if_pos hk] at heq
      exact absurd heq (hv j hj (heq ▸ hne))
    · rw [if_neg hk] at heq
      exact h j k heq hne

/-- The pointers of a structure with rows, and those held in memory. -/
def all (ptr : ι → κ → ℕ) (mem : κ → ℕ) : (ι × κ) ⊕ κ → ℕ :=
  Sum.elim (fun p => ptr p.1 p.2) mem

@[simp] theorem all_inl (ptr : ι → κ → ℕ) (mem : κ → ℕ) (p : ι × κ) : all ptr mem (inl p) = ptr p.1 p.2 := rfl

@[simp] theorem all_inr (ptr : ι → κ → ℕ) (mem : κ → ℕ) (k : κ) : all ptr mem (inr k) = mem k := rfl

section

variable (h : Exclusive (all ptr mem))
include h

/-- **Exchanging a row** with what is held in memory. -/
theorem Exclusive.swap [DecidableEq ι] (i : ι) : Exclusive (all (Function.update ptr i mem) (ptr i)) := by
  -- the new family is the old one along the exchange of the two rows
  let e : (ι × κ) ⊕ κ → (ι × κ) ⊕ κ := fun x => match x with
    | inl p => if p.1 = i then inr p.2 else inl p
    | inr k => inl (i, k)
  have hself : ∀ x, e (e x) = x := by
    rintro (⟨j, k⟩ | k)
    · by_cases hj : j = i
      · simp only [e, if_pos hj]
        rw [hj]
      · simp only [e, if_neg hj]
    · simp only [e, if_true]
  have hall : all (Function.update ptr i mem) (ptr i) = all ptr mem ∘ e := by
    funext x
    rcases x with ⟨j, k⟩ | k
    · simp only [all_inl, Function.comp, e, Function.update_apply]
      split
      · rfl
      · rfl
    · rfl
  rw [hall]
  exact h.comp (Function.LeftInverse.injective hself)

/-- Changing one of the pointers in memory. -/
theorem Exclusive.updateMem [DecidableEq κ] (hptr : v ≠ 0 → ∀ i j, ptr i j ≠ v)
    (hmem : v ≠ 0 → ∀ j, j ≠ k → mem j ≠ v) : Exclusive (all ptr (Function.update mem k v)) := by
  rintro (⟨i, j⟩ | j) (⟨i', j'⟩ | j') heq hne
  · exact h (inl (i, j)) (inl (i', j')) heq hne
  · simp only [all_inl, all_inr, Function.update_apply] at heq hne
    split at heq
    · exact absurd heq (hptr (heq ▸ hne) i j)
    · exact h (inl (i, j)) (inr j') heq hne
  · simp only [all_inl, all_inr, Function.update_apply] at heq hne
    split at heq
    · rename_i hj
      rw [if_pos hj] at hne
      exact absurd heq.symm (hptr hne i' j')
    · rename_i hj
      rw [if_neg hj] at hne
      exact h (inr j) (inl (i', j')) heq hne
  · have hupd : Exclusive (Function.update mem k v) :=
      Exclusive.update (fun a b hab ha => inr.inj (h (inr a) (inr b) hab ha))
        fun j hj hv => hmem hv j hj
    rw [hupd j j' heq hne]

/-- What the structure points to is not held in memory. -/
theorem Exclusive.ptr_ne_mem (hne : mem k ≠ 0) : ptr i j ≠ mem k := by
  intro heq
  have := h (inl (i, j)) (inr k) heq (by rw [all_inl, heq]; exact hne)
  simp at this

/-- The pointers of the structure. -/
theorem Exclusive.ptr_inj {i i' : ι} {j j' : κ} (heq : ptr i j = ptr i' j') (hne : ptr i j ≠ 0) : i = i' ∧ j = j' :=
  Prod.mk.inj (inl.inj (h (inl (i, j)) (inl (i', j')) heq hne))

/-- The pointers in memory. -/
theorem Exclusive.mem_inj (heq : mem j = mem k) (hne : mem j ≠ 0) : j = k := inr.inj (h (inr j) (inr k) heq hne)

end

end Pointers
