import Mathlib.Algebra.Order.Ring.Nat

/-!
# Counting loops

`for (; n < bound; n++) body`, where the bound is read again from the state before
every turn, so that the body may move it. The definition carries fuel; a loop
whose bound stands still ends after as many turns as the bound is away, and
`Loops.forUp_of_bound` is the rule for it. `Loops.forUp_reaches` speaks of a loop
of which only the first turns are understood.

A loop that does nothing but write a table, one element a turn, is a fold of
updates; `Loops.foldl_update` says what it leaves. A loop that counts while it checks
comes to its end if every element passes (`Loops.isSome_foldlM`).
-/

namespace Loops

open List

variable {σ : Type*}

/-- `for (; n < bound s; n++) s = body n s`. -/
def forUp (bound : σ → ℕ) (body : ℕ → σ → σ) : ℕ → ℕ → σ → σ
  | 0, _, s => s
  | fuel + 1, n, s => if n < bound s then forUp bound body fuel (n + 1) (body n s) else s

variable {bound : σ → ℕ} {body : ℕ → σ → σ}

/-- What every turn keeps, the loop keeps. -/
theorem forUp_keeps {I : σ → Prop} (hstep : ∀ n s, I s → n < bound s → I (body n s)) :
    ∀ {fuel n : ℕ} {s : σ}, I s → I (forUp bound body fuel n s)
  | 0, _, _, h => h
  | fuel + 1, n, s, h => by
    rw [forUp]
    split
    · rename_i hlt
      exact forUp_keeps hstep (hstep n s h hlt)
    · exact h

variable {fuel n : ℕ} {s : σ} {I : ℕ → σ → Prop}

theorem forUp_of_le (h : bound s ≤ n) : forUp bound body fuel n s = s := by
  rcases fuel with _ | fuel
  · rfl
  · rw [forUp, if_neg (by omega)]

/-- A loop that goes on at least up to `K` gets there. -/
theorem forUp_reaches {K : ℕ} (hstep : ∀ n s, n < K → I n s → n < bound s ∧ I (n + 1) (body n s)) :
    ∀ {fuel n : ℕ} {s : σ}, n ≤ K → K - n ≤ fuel → I n s →
      ∃ s', I K s' ∧ forUp bound body fuel n s = forUp bound body (fuel - (K - n)) K s' := by
  intro fuel
  induction fuel with
  | zero =>
    intro n s hle hfuel h
    obtain rfl : n = K := by omega
    exact ⟨s, h, by rw [Nat.sub_self, Nat.sub_zero]⟩
  | succ fuel ih =>
    intro n s hle hfuel h
    rcases hle.eq_or_lt with rfl | hlt
    · exact ⟨s, h, by rw [Nat.sub_self, Nat.sub_zero]⟩
    · obtain ⟨hbound, hnext⟩ := hstep n s hlt h
      obtain ⟨s', hs', heq⟩ := ih (by omega) (by omega) hnext
      refine ⟨s', hs', ?_⟩
      rw [forUp, if_pos hbound, heq, show fuel - (K - (n + 1)) = fuel + 1 - (K - n) by omega]

/-- **The rule for a bound that stands still**: the invariant holds at the bound. -/
theorem forUp_of_bound {B : ℕ} (hbound : ∀ n s, I n s → bound s = B)
    (hstep : ∀ n s, n < B → I n s → I (n + 1) (body n s)) (hle : n ≤ B)
    (hfuel : B - n ≤ fuel) (h : I n s) : I B (forUp bound body fuel n s) := by
  have hturn : ∀ k t, k < B → I k t → k < bound t ∧ I (k + 1) (body k t) := fun k t hk ht =>
    ⟨by rwa [hbound k t ht], hstep k t hk ht⟩
  obtain ⟨s', hs', heq⟩ := forUp_reaches hturn hle hfuel h
  rw [heq, forUp_of_le (hbound B s' hs').le]
  exact hs'

/-- `for (i = 0; i < n; i++) d[base + i] = f(i)`. -/
theorem foldl_update {α : Type*} (d : ℕ → α) (base : ℕ) (f : ℕ → α) : ∀ n : ℕ,
    (List.range n).foldl (fun d i => Function.update d (base + i) (f i)) d =
      fun x => if base ≤ x ∧ x < base + n then f (x - base) else d x
  | 0 => by
    funext x
    rw [if_neg (by omega)]
    rfl
  | n + 1 => by
    funext x
    rw [range_succ, foldl_append, foldl_update d base f n, foldl_cons, foldl_nil, Function.update_apply]
    by_cases hlast : x = base + n
    · rw [if_pos hlast, if_pos (by omega), hlast, Nat.add_sub_cancel_left]
    · rw [if_neg hlast]
      split
      · rw [if_pos (by omega)]
      · rw [if_neg (by omega)]

/-- **A checking loop** ends well exactly if each element passes, whatever has been
counted before. -/
theorem isSome_foldlM {α β : Type*} {f : β → α → Option β} {P : α → Prop}
    (h : ∀ b a, (f b a).isSome = true ↔ P a) :
    ∀ (l : List α) (b : β), (l.foldlM f b).isSome = true ↔ ∀ a ∈ l, P a
  | [], b => by simp
  | a :: l, b => by
    rw [foldlM_cons, forall_mem_cons, ← h b a]
    rcases f b a with _ | b'
    · simp
    · simpa using isSome_foldlM h l b'

end Loops
