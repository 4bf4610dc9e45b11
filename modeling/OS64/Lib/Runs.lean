import Mathlib.Data.List.Basic
import Mathlib.Data.List.Induction

/-!
# Conditions along a sequence

A run is a fold over a sequence of events, and a condition on a run says of each
event something about the state in which it happens, that is about the events
before it. `Runs.Throughout` is that quantifier; it grows with the sequence one
event at a time, which is how every argument about runs uses it.
-/

namespace Runs

open List

variable {α σ : Type*}

/-- `P` holds at every element of the sequence, given the elements before it. -/
def Throughout (P : List α → α → Prop) (xs : List α) : Prop :=
  ∀ before x after, xs = before ++ x :: after → P before x

@[simp] theorem throughout_nil (P : List α → α → Prop) : Throughout P [] := by
  intro before x after h
  simp at h

variable {xs : List α} {step : σ → α → σ} {I : σ → Prop} {s : σ}

/-- **One more element is one more condition**, on that element. -/
theorem throughout_concat {P : List α → α → Prop} {xs : List α} {x : α} :
    Throughout P (xs ++ [x]) ↔ Throughout P xs ∧ P xs x := by
  constructor
  · intro h
    refine ⟨fun before y after hsplit => ?_, h xs x [] rfl⟩
    exact h before y (after ++ [x]) (by rw [hsplit, append_assoc, cons_append])
  · rintro ⟨h, hx⟩ before y after hsplit
    -- the element is the last one, or comes from the sequence before
    rcases eq_nil_or_concat after with rfl | ⟨after, z, rfl⟩
    · obtain ⟨rfl, hxy⟩ := append_inj' hsplit rfl
      obtain rfl := List.cons.inj hxy |>.1
      exact hx
    · rw [concat_eq_append, ← cons_append, ← append_assoc] at hsplit
      exact h before y after (append_inj' hsplit rfl).1

/-- **An invariant of the steps is one of the run**, each step being met in the
state the ones before it lead to. -/
theorem foldl_invariant (h0 : I s)
    (hstep : Throughout (fun before x => I (before.foldl step s) → I (step (before.foldl step s) x)) xs) :
    I (xs.foldl step s) := by
  induction xs using List.reverseRecOn with
  | nil => exact h0
  | append_singleton xs x ih =>
    obtain ⟨hxs, hx⟩ := throughout_concat.mp hstep
    rw [foldl_append]
    exact hx (ih hxs)

theorem Throughout.mono {P Q : List α → α → Prop} (h : Throughout P xs)
    (himp : ∀ before x, P before x → Q before x) : Throughout Q xs :=
  fun before x after hsplit => himp before x (h before x after hsplit)

/-- **A property of every state of a run** holds exactly if each step meets the
condition under which it keeps the property. -/
theorem forall_states_iff {C : σ → α → Prop} (h0 : I s) (hstep : ∀ s, ∀ x ∈ xs, I s → (I (step s x) ↔ C s x)) :
    (∀ before after, xs = before ++ after → I (before.foldl step s)) ↔
      Throughout (fun before x => C (before.foldl step s) x) xs := by
  constructor
  · intro hall before x after hsplit
    have hafter := hall (before ++ [x]) after (by rw [hsplit, append_assoc]; rfl)
    rw [foldl_append] at hafter
    exact (hstep _ x (by rw [hsplit]; simp) (hall before _ hsplit)).mp hafter
  · intro hmeets before
    -- the last step of a beginning is met in the state before it
    induction before using List.reverseRecOn with
    | nil => exact fun _ _ => h0
    | append_singleton before x ih =>
      intro after hsplit
      rw [append_assoc, singleton_append] at hsplit
      rw [foldl_append]
      exact (hstep _ x (by rw [hsplit]; simp) (ih (x :: after) hsplit)).mpr
        (hmeets before x after hsplit)

end Runs
