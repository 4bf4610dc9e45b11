import Mathlib.Data.List.Basic

/-!
# Tables of slots

The commonest dictionary of systems code: a fixed number of slots, each empty or
holding an item with a key, searched from the first slot on. When no two items
have the same key the table is a finite map (`Slots.lookup_eq_some`), and the
three things done to it are the three things done to a map: an item goes into an
empty slot, an item is replaced by one with its key, an item is taken out. The
last section is about tables that are kept in a list.
-/

namespace Slots

open List Function Option

variable {α κ : Type*}

/-! ### Unique keys -/

/-- No two items have the same key. -/
def Unique (key : α → κ) (n : ℕ) (t : ℕ → Option α) : Prop :=
  ∀ i < n, ∀ j < n, ∀ a b, t i = some a → t j = some b → key a = key b → i = j

variable {key : α → κ} {n : ℕ} {t : ℕ → Option α} {k : κ} {i : ℕ} {a : α}

/-- Taking an item out keeps keys unique. -/
theorem Unique.erase (h : Unique key n t) (i : ℕ) : Unique key n (update t i none) := by
  intro j hj l hl a b ha hb hkey
  by_cases hji : j = i
  · rw [hji, update_self] at ha
    cases ha
  · by_cases hli : l = i
    · rw [hli, update_self] at hb
      cases hb
    · rw [update_of_ne hji] at ha
      rw [update_of_ne hli] at hb
      exact h j hj l hl a b ha hb hkey

/-- Putting in an item whose key no other slot has keeps keys unique. -/
theorem Unique.insert (h : Unique key n t)
    (hnew : ∀ j < n, j ≠ i → ∀ b, t j = some b → key b ≠ key a) :
    Unique key n (update t i (some a)) := by
  intro j hj l hl b c hb hc hkey
  by_cases hji : j = i
  · by_cases hli : l = i
    · rw [hji, hli]
    · rw [hji, update_self] at hb
      rw [update_of_ne hli] at hc
      rw [← some.inj hb] at hkey
      exact absurd hkey.symm (hnew l hl hli c hc)
  · rw [update_of_ne hji] at hb
    by_cases hli : l = i
    · rw [hli, update_self] at hc
      rw [← some.inj hc] at hkey
      exact absurd hkey (hnew j hj hji b hb)
    · rw [update_of_ne hli] at hc
      exact h j hj l hl b c hb hc hkey

/-! ### Searching -/

variable [DecidableEq κ]

/-- The first slot below `n` whose item has the key `k`. -/
def find (key : α → κ) (n : ℕ) (t : ℕ → Option α) (k : κ) : Option ℕ :=
  (range n).find? fun i => (t i).map key = some k

/-- The item with the key `k`. -/
def lookup (key : α → κ) (n : ℕ) (t : ℕ → Option α) (k : κ) : Option α := (find key n t k).bind t

theorem find_eq_some (h : find key n t k = some i) : i < n ∧ ∃ a, t i = some a ∧ key a = k := by
  have hkey : (t i).map key = some k := by simpa using find?_some h
  refine ⟨mem_range.mp (mem_of_find?_eq_some h), ?_⟩
  obtain ⟨a, ha, hk⟩ := map_eq_some_iff.mp hkey
  exact ⟨a, ha, hk⟩

theorem find_eq_none : find key n t k = none ↔ ∀ i < n, ∀ a, t i = some a → key a ≠ k := by
  rw [find, find?_eq_none]
  constructor
  · intro h i hi a ha hk
    refine h i (mem_range.mpr hi) (decide_eq_true ?_)
    rw [ha, map_some, hk]
  · intro h i hi hkey
    obtain ⟨a, ha, hk⟩ := map_eq_some_iff.mp (of_decide_eq_true hkey)
    exact h i (mem_range.mp hi) a ha hk

theorem Unique.find_eq (h : Unique key n t) (hi : i < n) (ha : t i = some a) : find key n t (key a) = some i := by
  rcases hfind : find key n t (key a) with _ | j
  · exact absurd rfl (find_eq_none.mp hfind i hi a ha)
  · obtain ⟨hj, b, hb, hkey⟩ := find_eq_some hfind
    rw [h j hj i hi b a hb ha hkey]

theorem exists_of_lookup (h : lookup key n t k = some a) : ∃ i < n, t i = some a ∧ key a = k := by
  obtain ⟨i, hfind, ha⟩ := bind_eq_some_iff.mp h
  obtain ⟨hi, b, hb, hk⟩ := find_eq_some hfind
  obtain rfl : b = a := some.inj (hb.symm.trans ha)
  exact ⟨i, hi, hb, hk⟩

/-- **A table without repeated keys is a finite map.** -/
theorem Unique.lookup_eq_some (h : Unique key n t) : lookup key n t k = some a ↔ ∃ i < n, t i = some a ∧ key a = k := by
  refine ⟨exists_of_lookup, ?_⟩
  rintro ⟨i, hi, ha, rfl⟩
  rw [lookup, h.find_eq hi ha, bind_some, ha]

theorem lookup_eq_none : lookup key n t k = none ↔ find key n t k = none := by
  rw [lookup]
  rcases hfind : find key n t k with _ | i
  · simp
  · obtain ⟨-, a, ha, -⟩ := find_eq_some hfind
    simp [ha]

variable {x : Option α} {l : List (Option α)}

/-- A change of a slot that involves other keys does not matter to the search
for `k`. -/
theorem find_update (hold : ∀ a, t i = some a → key a ≠ k) (hnew : ∀ a, x = some a → key a ≠ k) :
    find key n (update t i x) k = find key n t k := by
  rw [find, find]
  congr 1
  funext j
  by_cases hj : j = i
  · have hx : x.map key ≠ some k := by
      intro hx
      obtain ⟨a, ha, hk⟩ := map_eq_some_iff.mp hx
      exact hnew a ha hk
    have ht : (t i).map key ≠ some k := by
      intro ht
      obtain ⟨a, ha, hk⟩ := map_eq_some_iff.mp ht
      exact hold a ha hk
    rw [hj, update_self, decide_eq_false hx, decide_eq_false ht]
  · rw [update_of_ne hj]

/-- An item that is replaced by one with its key is found where it was. -/
theorem find_replace (hx : x.map key = (t i).map key) : find key n (update t i x) k = find key n t k := by
  rw [find, find]
  congr 1
  funext j
  by_cases hj : j = i
  · rw [hj, update_self, hx]
  · rw [update_of_ne hj]

theorem lookup_update (hold : ∀ a, t i = some a → key a ≠ k) (hnew : ∀ a, x = some a → key a ≠ k) :
    lookup key n (update t i x) k = lookup key n t k := by
  rw [lookup, lookup, find_update hold hnew]
  rcases hfind : find key n t k with _ | j
  · rfl
  · obtain ⟨-, a, ha, hk⟩ := find_eq_some hfind
    rw [bind_some, bind_some, update_of_ne]
    rintro rfl
    exact hold a ha hk

/-- The search for `k` after a change of the only slot that has to do with
`k`. -/
theorem lookup_update_self (hi : i < n)
    (hother : ∀ j < n, j ≠ i → ∀ b, t j = some b → key b ≠ k) (hx : ∀ a, x = some a → key a = k) :
    lookup key n (update t i x) k = x := by
  have hslot : ∀ j < n, ∀ b, update t i x j = some b → key b = k → j = i := by
    intro j hj b hb hk
    by_contra hji
    rw [update_of_ne hji] at hb
    exact hother j hj hji b hb hk
  rw [lookup]
  rcases hfind : find key n (update t i x) k with _ | j
  · cases x with
    | none => rfl
    | some a =>
      have hne := find_eq_none.mp hfind i hi a (update_self ..)
      exact absurd (hx a rfl) hne
  · obtain ⟨hj, b, hb, hk⟩ := find_eq_some hfind
    rw [bind_some, hslot j hj b hb hk, update_self]

/-! ### Tables in lists -/

/-- The slots of a list. -/
def ofList (l : List (Option α)) (i : ℕ) : Option α := (l[i]?).join

theorem ofList_of_lt (hi : i < l.length) : ofList l i = l[i] := by
  rw [ofList, getElem?_eq_getElem hi, join_some]

theorem ofList_eq_some : ofList l i = some a ↔ l[i]? = some (some a) := join_eq_some_iff

theorem ofList_set (hi : i < l.length) (x : Option α) : ofList (l.set i x) = update (ofList l) i x := by
  funext j
  rw [ofList, getElem?_set, update_apply]
  by_cases hj : i = j
  · rw [if_pos hj, if_pos hi, if_pos hj.symm, join_some]
  · rw [if_neg hj, if_neg fun h => hj h.symm, ofList]

/-- Searching a list of slots for a key. -/
theorem findIdx?_eq_find {p : Option α → Bool} (hp : ∀ x, p x = decide (x.map key = some k)) :
    l.findIdx? p = find key l.length (ofList l) k := by
  have hslot : ∀ j (hj : j < l.length), p l[j] = decide ((ofList l j).map key = some k) := by
    intro j hj
    rw [hp, ofList_of_lt hj]
  ext i
  rw [findIdx?_eq_some_iff_getElem, find, find?_range_eq_some]
  constructor
  · rintro ⟨hi, hpi, hbefore⟩
    refine ⟨hslot i hi ▸ hpi, mem_range.mpr hi, fun j hj => ?_⟩
    have hno := hbefore j hj
    rw [hslot j (by omega)] at hno
    simpa using hno
  · rintro ⟨hpi, hi, hbefore⟩
    have hi' := mem_range.mp hi
    refine ⟨hi', (hslot i hi').trans hpi, fun j hj => ?_⟩
    have hno := hbefore j hj
    rw [hslot j (by omega)]
    simpa using hno

omit [DecidableEq κ] in
/-- The items of a list of slots have different keys. -/
theorem Unique.nodup_keys (h : Unique key l.length (ofList l)) : ((l.filterMap id).map key).Nodup := by
  rw [Nodup, pairwise_map, pairwise_filterMap, pairwise_iff_getElem]
  intro i j hi hj hij a ha b hb hkey
  have heq := h i hi j hj a b ((ofList_of_lt hi).trans ha) ((ofList_of_lt hj).trans hb) hkey
  omega

omit [DecidableEq κ] in
/-- The items of a list of slots. -/
theorem mem_filterMap_id : a ∈ l.filterMap id ↔ ∃ i < l.length, ofList l i = some a := by
  rw [mem_filterMap]
  constructor
  · rintro ⟨x, hx, hxa⟩
    obtain ⟨i, hi, rfl⟩ := getElem_of_mem hx
    exact ⟨i, hi, (ofList_of_lt hi).trans hxa⟩
  · rintro ⟨i, hi, ha⟩
    rw [ofList_of_lt hi] at ha
    exact ⟨some a, ha ▸ getElem_mem hi, rfl⟩

/-- Without an empty slot there are as many items as slots. -/
theorem length_filterMap_id (h : none ∉ l) : (l.filterMap id).length = l.length := by
  induction l with
  | nil => rfl
  | cons x l ih =>
    rw [mem_cons, not_or] at h
    cases x with
    | none => exact absurd rfl h.1
    | some a =>
      change (a :: l.filterMap id).length = (some a :: l).length
      rw [length_cons, length_cons, ih h.2]

/-- An item of the list is what the search for its key finds. -/
theorem Unique.lookup_ofList (h : Unique key l.length (ofList l)) :
    lookup key l.length (ofList l) k = some a ↔ a ∈ l.filterMap id ∧ key a = k := by
  rw [h.lookup_eq_some, mem_filterMap_id]
  constructor
  · rintro ⟨i, hi, ha, hk⟩
    exact ⟨⟨i, hi, ha⟩, hk⟩
  · rintro ⟨⟨i, hi, ha⟩, hk⟩
    exact ⟨i, hi, ha, hk⟩

end Slots
