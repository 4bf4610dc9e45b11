import Mathlib.Logic.Function.Basic

/-!
# Writes to a store

A store is a function from addresses to contents, and a write changes it at one
address. `Store.Writes P d d'` says that `d'` comes from `d` by some writes, one
after another, all of them to addresses in `P`. What such writes leave alone is
everything outside of `P` (`Store.Writes.frame`).
-/

namespace Store

open Function

variable {α β : Type*} [DecidableEq α] {P Q : α → Prop} {d d' d'' : α → β}

/-- The store `d'` comes from `d` by writes to addresses in `P`. -/
inductive Writes (P : α → Prop) (d : α → β) : (α → β) → Prop
  | refl : Writes P d d
  | write {d' : α → β} {a : α} (h : Writes P d d') (ha : P a) (b : β) :
      Writes P d (update d' a b)

theorem Writes.single {a : α} (ha : P a) (b : β) : Writes P d (update d a b) := .write .refl ha b

theorem Writes.trans (h : Writes P d d') (h' : Writes P d' d'') : Writes P d d'' := by
  induction h' with
  | refl => exact h
  | write _ ha b ih => exact .write ih ha b

theorem Writes.mono (h : Writes P d d') (hPQ : ∀ a, P a → Q a) : Writes Q d d' := by
  induction h with
  | refl => exact .refl
  | write _ ha b ih => exact .write ih (hPQ _ ha) b

/-- **Writes leave everything else alone.** -/
theorem Writes.frame (h : Writes P d d') {a : α} (ha : ¬P a) : d' a = d a := by
  induction h with
  | refl => rfl
  | @write d' x _ hx b ih =>
    have hne : a ≠ x := by
      rintro rfl
      exact ha hx
    rw [update_of_ne hne, ih]

/-- A loop of writes. -/
theorem Writes.foldl {ι : Type*} {address : ι → α} {content : ι → (α → β) → β} :
    ∀ (is : List ι) (d : α → β), (∀ i ∈ is, P (address i)) →
      Writes P d (is.foldl (fun d i => update d (address i) (content i d)) d)
  | [], _, _ => .refl
  | i :: is, d, h => by
    refine .trans (.single (h i List.mem_cons_self) (content i d)) ?_
    exact Writes.foldl is _ fun j hj => h j (List.mem_cons_of_mem i hj)

end Store
