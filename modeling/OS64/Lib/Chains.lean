import Mathlib.Data.Finset.Card

/-!
# Chains in a table

A table says of each place whether it is the last one of a chain or which place comes
next; for some places it says neither. `Chains.Chain step a l` says that the places
from `a` on are those of `l`, up to a last one.

A chain is determined by its first place (`Chains.Chain.unique`), so it does not come
back to a place it has been at (`Chains.Chain.nodup`): what follows the place would have
to contain itself. It depends on the table at its own places only
(`Chains.Chain.congr`), and grows at its end (`Chains.Chain.concat`). Where each place has at most one place before it, a chain can
be followed to its end from any place that has none (`Chains.exists_chain`).
-/

namespace Chains

open List

variable {α : Type*} {step step' : α → Option (Option α)} {a b x : α} {l l' : List α}

/-- The places from `a` on, up to the last one, are those of the list. -/
inductive Chain (step : α → Option (Option α)) : α → List α → Prop
  | last {a : α} (h : step a = some none) : Chain step a [a]
  | link {a b : α} {l : List α} (h : step a = some (some b)) (hl : Chain step b l) :
      Chain step a (a :: l)

section

variable (h : Chain step a l)
include h

theorem Chain.head_mem : a ∈ l := by
  cases h with
  | last h => exact mem_singleton_self a
  | link h hl => exact mem_cons_self

theorem Chain.exists_cons : ∃ l', l = a :: l' := by
  cases h with
  | last h => exact ⟨[], rfl⟩
  | link h hl => exact ⟨_, rfl⟩

theorem Chain.ne_nil : l ≠ [] := ne_nil_of_mem h.head_mem

/-- **A place has one chain.** -/
theorem Chain.unique (h' : Chain step a l') : l = l' := by
  induction h generalizing l' with
  | last h =>
    cases h' with
    | last _ => rfl
    | link h' _ => rw [h] at h'; simp at h'
  | link h _ ih =>
    cases h' with
    | last h' => rw [h'] at h; simp at h
    | link h' hl' =>
      rw [h] at h'
      obtain rfl := Option.some.inj (Option.some.inj h')
      rw [ih hl']

theorem Chain.step_ne_none (hx : x ∈ l) : step x ≠ none := by
  induction h with
  | last h =>
    rw [mem_singleton.mp hx, h]
    simp
  | link h _ ih =>
    rcases mem_cons.mp hx with rfl | hx
    · rw [h]
      simp
    · exact ih hx

/-- From a place of a chain on there is a part of the chain. -/
theorem Chain.suffix (hx : x ∈ l) : ∃ l', Chain step x l' ∧ l' <:+ l := by
  induction h with
  | last h =>
    obtain rfl := mem_singleton.mp hx
    exact ⟨_, .last h, suffix_rfl⟩
  | @link a b l h hl ih =>
    rcases mem_cons.mp hx with rfl | hx
    · exact ⟨_, .link h hl, suffix_rfl⟩
    · obtain ⟨l', hl', hsuffix⟩ := ih hx
      exact ⟨l', hl', hsuffix.trans (suffix_cons a l)⟩

/-- **A chain does not come back** to a place: the chain from there on would be a part
of what follows it. -/
theorem Chain.nodup : l.Nodup := by
  induction h with
  | last h => exact nodup_singleton _
  | @link a b l h hl ih =>
    refine nodup_cons.mpr ⟨fun hmem => ?_, ih⟩
    obtain ⟨l', hl', hsuffix⟩ := hl.suffix hmem
    have hlen := hsuffix.length_le
    rw [hl'.unique (.link h hl), length_cons] at hlen
    omega

theorem Chain.length_le [DecidableEq α] {S : Finset α} (hS : ∀ x ∈ l, x ∈ S) : l.length ≤ S.card := by
  rw [← toFinset_card_of_nodup h.nodup]
  exact Finset.card_le_card fun x hx => hS x (mem_toFinset.mp hx)

/-- **The table matters at the places of the chain only.** -/
theorem Chain.congr (hsame : ∀ x ∈ l, step' x = step x) : Chain step' a l := by
  induction h with
  | last h => exact .last ((hsame _ (mem_singleton_self _)).trans h)
  | link h _ ih =>
    exact .link ((hsame _ mem_cons_self).trans h) (ih fun x hx => hsame x (mem_cons_of_mem _ hx))

/-- **A chain grows at its end**: its last place leads to a new last place. -/
theorem Chain.concat {t c : α} (hlast : l.getLast? = some t)
    (hsame : ∀ x ∈ l, x ≠ t → step' x = step x) (ht : step' t = some (some c))
    (hc : step' c = some none) : Chain step' a (l ++ [c]) := by
  induction h with
  | last h =>
    cases hlast
    exact .link ht (.last hc)
  | @link a b l h hl ih =>
    have hlast' : l.getLast? = some t := by
      rw [← hlast, List.getLast?_cons, List.getLast?_eq_some_getLast hl.ne_nil]
      rfl
    have hne : a ≠ t := by
      rintro rfl
      exact (nodup_cons.mp (Chain.link h hl).nodup).1 (mem_of_getLast? hlast')
    refine .link ((hsame a mem_cons_self hne).trans h) (ih hlast' fun x hx => ?_)
    exact hsame x (mem_cons_of_mem _ hx)

end

/-- **A chain can be followed to its end** from a place nothing leads to, if no two
places lead to the same one: each step leaves one place less to come to. -/
theorem exists_chain [DecidableEq α] (S : Finset α) : ∀ a ∈ S,
    (∀ x ∈ S, step x = some none ∨ ∃ y ∈ S, step x = some (some y)) →
    (∀ x ∈ S, ∀ y ∈ S, ∀ z, step x = some (some z) → step y = some (some z) → x = y) →
    (∀ x ∈ S, step x ≠ some (some a)) → ∃ l, Chain step a l ∧ ∀ x ∈ l, x ∈ S := by
  induction S using Finset.strongInduction with
  | H S ih =>
    intro a ha hnext hinj hfirst
    rcases hnext a ha with hlast | ⟨b, hb, hab⟩
    · refine ⟨[a], .last hlast, fun x hx => ?_⟩
      rwa [mem_singleton.mp hx]
    · have hne : b ≠ a := by
        rintro rfl
        exact hfirst b ha hab
      -- nothing leads back to the first place, so it can be left out
      obtain ⟨l, hl, hmem⟩ := ih (S.erase a) (Finset.erase_ssubset ha) b (Finset.mem_erase.mpr ⟨hne, hb⟩)
        (fun x hx => by
          have hxS := Finset.mem_of_mem_erase hx
          refine (hnext x hxS).imp_right ?_
          rintro ⟨y, hy, hxy⟩
          refine ⟨y, Finset.mem_erase.mpr ⟨?_, hy⟩, hxy⟩
          rintro rfl
          exact hfirst x hxS hxy)
        (fun x hx y hy => hinj x (Finset.mem_of_mem_erase hx) y (Finset.mem_of_mem_erase hy))
        (fun x hx hxb => Finset.ne_of_mem_erase hx
          (hinj x (Finset.mem_of_mem_erase hx) a ha b hxb hab))
      refine ⟨a :: l, .link hab hl, fun x hx => ?_⟩
      rcases mem_cons.mp hx with rfl | hx
      · exact ha
      · exact Finset.mem_of_mem_erase (hmem x hx)

end Chains
