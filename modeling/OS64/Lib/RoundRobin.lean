import Mathlib.Data.Finset.Max

/-!
# Taking turns

From one element of a finite set of a linear order the turn passes to the next
greater one, and from the greatest to the least. The number of elements below is
then a counter that goes up by one each time and starts again at the end
(`RoundRobin.IsNext.rank`), so that as many turns as there are elements visit each
of them once and come back to the first (`RoundRobin.visits`).
-/

namespace RoundRobin

open Finset

variable {α : Type*} [LinearOrder α] {S : Finset α} {c d x : α}

/-- The turn passes from `c` to `d`. -/
structure IsNext (S : Finset α) (c d : α) : Prop where
  mem : d ∈ S
  least : (c < d ∧ ∀ x ∈ S, c < x → d ≤ x) ∨ ((∀ x ∈ S, x ≤ c) ∧ ∀ x ∈ S, d ≤ x)

/-- The number of elements below. -/
def rank (S : Finset α) (c : α) : ℕ := (S.filter (· < c)).card

theorem rank_lt (hc : c ∈ S) : rank S c < S.card := by
  refine card_lt_card (filter_ssubset.mpr ⟨c, hc, lt_irrefl c⟩)

theorem rank_lt_rank (hc : c ∈ S) (h : c < d) : rank S c < rank S d := by
  refine card_lt_card (ssubset_iff_of_subset ?_ |>.mpr ⟨c, ?_, ?_⟩)
  · intro x hx
    obtain ⟨hxS, hxc⟩ := mem_filter.mp hx
    exact mem_filter.mpr ⟨hxS, hxc.trans h⟩
  · exact mem_filter.mpr ⟨hc, h⟩
  · exact fun hmem => lt_irrefl c (mem_filter.mp hmem).2

theorem rank_inj (hc : c ∈ S) (hd : d ∈ S) (h : rank S c = rank S d) : c = d := by
  rcases lt_trichotomy c d with hlt | heq | hgt
  · exact absurd h (rank_lt_rank hc hlt).ne
  · exact heq
  · exact absurd h (rank_lt_rank hd hgt).ne'

/-- **The counter goes up by one**, and starts again at the end. -/
theorem IsNext.rank (h : IsNext S c d) (hc : c ∈ S) : rank S d = (rank S c + 1) % S.card := by
  rcases h.least with ⟨hlt, hleast⟩ | ⟨hmax, hmin⟩
  · -- below the next element are `c` and what is below `c`
    have hbelow : S.filter (· < d) = insert c (S.filter (· < c)) := by
      ext x
      rw [mem_filter, mem_insert, mem_filter]
      constructor
      · rintro ⟨hx, hxd⟩
        rcases lt_trichotomy x c with hxc | rfl | hcx
        · exact .inr ⟨hx, hxc⟩
        · exact .inl rfl
        · exact absurd hxd (hleast x hx hcx).not_gt
      · rintro (rfl | ⟨hx, hxc⟩)
        · exact ⟨hc, hlt⟩
        · exact ⟨hx, hxc.trans hlt⟩
    have hrank : RoundRobin.rank S d = RoundRobin.rank S c + 1 := by
      rw [RoundRobin.rank, hbelow, card_insert_of_notMem]
      · rfl
      · exact fun hmem => lt_irrefl c (mem_filter.mp hmem).2
    rw [← hrank, Nat.mod_eq_of_lt (rank_lt h.mem)]
  · have hzero : RoundRobin.rank S d = 0 := by
      rw [RoundRobin.rank, card_eq_zero, filter_eq_empty_iff]
      exact fun x hx => (hmin x hx).not_gt
    have hlast : RoundRobin.rank S c + 1 = S.card := by
      have hbelow : S.filter (· < c) = S.erase c := by
        ext x
        rw [mem_filter, mem_erase]
        constructor
        · rintro ⟨hx, hxc⟩
          exact ⟨hxc.ne, hx⟩
        · rintro ⟨hne, hx⟩
          exact ⟨hx, lt_of_le_of_ne (hmax x hx) hne⟩
      rw [RoundRobin.rank, hbelow, card_erase_add_one hc]
    rw [hzero, hlast, Nat.mod_self]

/-- **Everyone has one turn**, and the first is next. -/
theorem visits {f : ℕ → α} (h0 : f 0 ∈ S) (hnext : ∀ k, IsNext S (f k) (f (k + 1))) :
    f S.card = f 0 ∧ ∀ x ∈ S, ∃! k, k < S.card ∧ f k = x := by
  have hmem : ∀ k, f k ∈ S := by
    intro k
    cases k with
    | zero => exact h0
    | succ k => exact (hnext k).mem
  have hrank : ∀ k, rank S (f k) = (rank S (f 0) + k) % S.card := by
    intro k
    induction k with
    | zero => rw [add_zero, Nat.mod_eq_of_lt (rank_lt h0)]
    | succ k ih => rw [(hnext k).rank (hmem k), ih, Nat.mod_add_mod, add_assoc]
  refine ⟨?_, fun x hx => ?_⟩
  · refine rank_inj (hmem _) h0 ?_
    rw [hrank, Nat.add_mod_right, Nat.mod_eq_of_lt (rank_lt h0)]
  · have hx' := rank_lt hx
    have h0' := rank_lt h0
    refine ⟨(rank S x + (S.card - rank S (f 0))) % S.card, ⟨Nat.mod_lt _ (by omega), ?_⟩, ?_⟩
    · refine rank_inj (hmem _) hx ?_
      rw [hrank, Nat.add_mod_mod, show rank S (f 0) + (rank S x + (S.card - rank S (f 0))) =
        rank S x + S.card by omega, Nat.add_mod_right, Nat.mod_eq_of_lt hx']
    · -- a turn is determined by the counter
      rintro k ⟨hk, rfl⟩
      rw [hrank, Nat.mod_add_mod, show rank S (f 0) + k + (S.card - rank S (f 0)) = k + S.card by omega,
        Nat.add_mod_right, Nat.mod_eq_of_lt hk]

end RoundRobin
