import OS64.Windows.Model
import OS64.Lib.RoundRobin
import OS64.Lib.Runs

/-!
# Which window has the focus

Of the open windows one has the focus, no two have the same identifier, and
`wm_focus_next` goes through all of them (`OS64.Windows.WellFocused`). Two things
can go wrong.

* **Closing a window that does not have the focus.** `wm_close` gives the focus to
  the last open window without taking it from the one that has it. The two have to
  be the same.
* **The counter of identifiers wraps.** An identifier may then be given a second
  time, or be 0, which `wm_focus_next` takes for no window at all: it never gives the
  focus to that window, and can only be said to go through all windows if there is
  no other.

`OS64.Windows.KeepsFocus` says of each call when neither happens, and
`OS64.Windows.wellFocused_iff` that it says so exactly.
-/

namespace OS64.Windows

open List Function

variable {i j : Fin wmMaxWindows}

variable {wm wm' : Manager}

/-! ### The property -/

/-- The window in slot `i` is open. -/
def Open (wm : Manager) (i : Fin wmMaxWindows) : Prop := (wm.windows i).used = true

/-- The window in slot `i` is open and has the focus. -/
def HasFocus (wm : Manager) (i : Fin wmMaxWindows) : Prop :=
  Open wm i ∧ (wm.windows i).focused = true

instance (wm : Manager) : DecidablePred (Open wm) := fun _ => inferInstanceAs (Decidable (_ = _))

instance (wm : Manager) : DecidablePred (HasFocus wm) := fun _ => inferInstanceAs (Decidable (_ ∧ _))

/-- Applied as many times as there are open windows, `wm_focus_next` visits each of
them once and returns to the first. -/
structure Cycles (wm : Manager) : Prop where
  visits : ∀ i, Open wm i → ∃! k, k < wmCount wm ∧ HasFocus (wmFocusNext^[k] wm) i
  returns : ∀ i, HasFocus (wmFocusNext^[wmCount wm] wm) i ↔ HasFocus wm i

/-- Identifiers are distinct, one open window has the focus, and `wm_focus_next`
goes through all of them. -/
structure WellFocused (wm : Manager) : Prop where
  distinct : ∀ i j, Open wm i → Open wm j → (wm.windows i).id = (wm.windows j).id → i = j
  one : (∃ i, Open wm i) → ∃! i, HasFocus wm i
  none : (∀ i, ¬Open wm i) → wmFocused wm = 0
  cycles : Cycles wm

/-! ### Slots -/

theorem mem_slots (i : Fin wmMaxWindows) : i ∈ slots := mem_finRange i

/-- The identifiers of the open windows. -/
def openIds (wm : Manager) : Finset ℕ :=
  (Finset.univ.filter (Open wm)).image fun i => (wm.windows i).id.toNat

theorem mem_openIds {n : ℕ} : n ∈ openIds wm ↔ ∃ i, Open wm i ∧ (wm.windows i).id.toNat = n := by
  rw [openIds, Finset.mem_image]
  constructor
  · rintro ⟨i, hi, rfl⟩
    exact ⟨i, (Finset.mem_filter.mp hi).2, rfl⟩
  · rintro ⟨i, hi, rfl⟩
    exact ⟨i, Finset.mem_filter.mpr ⟨Finset.mem_univ i, hi⟩, rfl⟩

theorem wmCount_eq (wm : Manager) : wmCount wm = (Finset.univ.filter (Open wm)).card := by
  have hnodup : (slots.filter fun i => (wm.windows i).used).Nodup := (nodup_finRange _).filter _
  rw [wmCount, ← toFinset_card_of_nodup hnodup]
  congr 1
  ext i
  simp [mem_slots, Open]

/-- Two managers agree on everything but the places of the windows. -/
structure SameFlags (wm wm' : Manager) : Prop where
  nextId : wm'.nextId = wm.nextId
  id : ∀ i, (wm'.windows i).id = (wm.windows i).id
  used : ∀ i, (wm'.windows i).used = (wm.windows i).used
  focused : ∀ i, (wm'.windows i).focused = (wm.windows i).focused

theorem SameFlags.refl (wm : Manager) : SameFlags wm wm := ⟨rfl, fun _ => rfl, fun _ => rfl, fun _ => rfl⟩

variable {wm'' : Manager} {id : UInt32}

theorem SameFlags.trans (h : SameFlags wm wm') (h' : SameFlags wm' wm'') : SameFlags wm wm'' where
  nextId := h'.nextId.trans h.nextId
  id i := (h'.id i).trans (h.id i)
  used i := (h'.used i).trans (h.used i)
  focused i := (h'.focused i).trans (h.focused i)

/-- Another place for a window. -/
theorem sameFlags_set {w : Window} (hid : w.id = (wm.windows i).id)
    (hused : w.used = (wm.windows i).used) (hfocused : w.focused = (wm.windows i).focused) :
    SameFlags wm (wm.set i w) := by
  have hwindow : ∀ j, (wm.set i w).windows j = if j = i then w else wm.windows j := fun j =>
    update_apply wm.windows i w j
  refine ⟨rfl, fun j => ?_, fun j => ?_, fun j => ?_⟩
  all_goals
    rw [hwindow]
    split_ifs with hj
    · rw [hj]
      assumption
    · rfl

theorem tileWindow_flags (wm : Manager) (n seen : ℕ) (v : Window) :
    (tileWindow wm n seen v).id = v.id ∧ (tileWindow wm n seen v).used = v.used ∧
      (tileWindow wm n seen v).focused = v.focused := by
  rw [tileWindow]
  split_ifs
  all_goals exact ⟨rfl, rfl, rfl⟩

/-- **`tile`** changes places only. -/
theorem sameFlags_tile (wm : Manager) : SameFlags wm (tile wm) := by
  have hloop : ∀ (l : List (Fin wmMaxWindows)) (a : Manager × ℕ), SameFlags wm a.1 →
      SameFlags wm (l.foldl (fun (a : Manager × ℕ) i =>
        if (a.1.windows i).used then
          (a.1.set i (tileWindow wm (wmCount wm) a.2 (a.1.windows i)), a.2 + 1)
        else a) a).1 := by
    intro l
    induction l with
    | nil => exact fun _ h => h
    | cons i l ih =>
      intro a ha
      rw [foldl_cons]
      refine ih _ ?_
      split_ifs
      · obtain ⟨hid, hused, hfocused⟩ := tileWindow_flags wm (wmCount wm) a.2 (a.1.windows i)
        exact ha.trans (sameFlags_set hid hused hfocused)
      · exact ha
  rw [tile]
  split_ifs
  · exact SameFlags.refl wm
  · exact hloop slots (wm, 0) (SameFlags.refl wm)

theorem sameFlags_wmMove (wm : Manager) (id : UInt32) (x y : Int32) : SameFlags wm (wmMove wm id x y) := by
  rw [wmMove]
  split
  · exact SameFlags.refl wm
  · by_cases hlayout : wm.layout ≠ .floating
    · rw [if_pos hlayout]
      exact SameFlags.refl wm
    · rw [if_neg hlayout]
      exact sameFlags_set rfl rfl rfl

/-! ### Finding windows -/

theorem wmById_eq_some (h : wmById wm id = some i) : Open wm i ∧ (wm.windows i).id = id := by
  have hfound := find?_some h
  rw [Bool.and_eq_true, decide_eq_true_eq] at hfound
  exact hfound

theorem wmById_eq_none (h : wmById wm id = none) (i : Fin wmMaxWindows) (hi : Open wm i) : (wm.windows i).id ≠ id := by
  intro hid
  refine find?_eq_none.mp h i (mem_slots i) ?_
  rw [Bool.and_eq_true, decide_eq_true_eq]
  exact ⟨hi, hid⟩

theorem wmFocused_eq (hi : HasFocus wm i) (honly : ∀ j, HasFocus wm j → j = i) : wmFocused wm = (wm.windows i).id := by
  rw [wmFocused]
  split
  · rename_i j hj
    have hfound := find?_some hj
    rw [Bool.and_eq_true] at hfound
    rw [honly j hfound]
  · rename_i hnone
    refine absurd ?_ (find?_eq_none.mp hnone i (mem_slots i))
    rw [Bool.and_eq_true]
    exact hi

theorem wmFocused_of_none (h : ∀ i, ¬Open wm i) : wmFocused wm = 0 := by
  rw [wmFocused]
  split
  · rename_i j hj
    have hfound := find?_some hj
    rw [Bool.and_eq_true] at hfound
    exact absurd hfound.1 (h j)
  · rfl

/-! ### The next window -/

section Candidate

variable (wm) (p : Window → Bool)

/-- A loop of `wm_focus_next` from a candidate `c` on. -/
def candidateFrom (c : UInt32) (l : List (Fin wmMaxWindows)) : UInt32 :=
  l.foldl (fun c i =>
    if (wm.windows i).used && p (wm.windows i) && (c = 0 || (wm.windows i).id < c) then
      (wm.windows i).id else c) c

/-- The candidate is that of before or one of the windows. -/
theorem candidateFrom_mem (c : UInt32) (l : List (Fin wmMaxWindows)) :
    candidateFrom wm p c l = c ∨
      ∃ i ∈ l, Open wm i ∧ p (wm.windows i) = true ∧ candidateFrom wm p c l = (wm.windows i).id := by
  induction l generalizing c with
  | nil => exact .inl rfl
  | cons i l ih =>
    rw [candidateFrom, foldl_cons, ← candidateFrom]
    split_ifs with hi
    · simp only [Bool.and_eq_true] at hi
      rcases ih (wm.windows i).id with heq | ⟨j, hj, hmem⟩
      · exact .inr ⟨i, mem_cons_self, hi.1.1, hi.1.2, heq⟩
      · exact .inr ⟨j, mem_cons_of_mem i hj, hmem⟩
    · rcases ih c with heq | ⟨j, hj, hmem⟩
      · exact .inl heq
      · exact .inr ⟨j, mem_cons_of_mem i hj, hmem⟩

variable {wm p}

/-- If 0 is no identifier, the candidate is a lower bound of what has been seen. -/
theorem candidateFrom_le {c : UInt32} {l : List (Fin wmMaxWindows)}
    (hne : ∀ i ∈ l, Open wm i → p (wm.windows i) = true → (wm.windows i).id ≠ 0) :
    (c ≠ 0 → candidateFrom wm p c l ≠ 0 ∧ candidateFrom wm p c l ≤ c) ∧
      ∀ i ∈ l, Open wm i → p (wm.windows i) = true →
        candidateFrom wm p c l ≠ 0 ∧ candidateFrom wm p c l ≤ (wm.windows i).id := by
  induction l generalizing c with
  | nil => exact ⟨fun hc => ⟨hc, UInt32.le_refl c⟩, fun i hi => absurd hi not_mem_nil⟩
  | cons i l ih =>
    have hne' : ∀ j ∈ l, Open wm j → p (wm.windows j) = true → (wm.windows j).id ≠ 0 :=
      fun j hj => hne j (mem_cons_of_mem i hj)
    rw [candidateFrom, foldl_cons, ← candidateFrom]
    split_ifs with hi
    · simp only [Bool.and_eq_true, Bool.or_eq_true, decide_eq_true_eq] at hi
      obtain ⟨⟨hopen, hp⟩, hless⟩ := hi
      obtain ⟨hstart, hrest⟩ := ih (c := (wm.windows i).id) hne'
      have hself := hstart (hne i mem_cons_self hopen hp)
      refine ⟨fun hc => ⟨hself.1, ?_⟩, fun j hj hopenj hpj => ?_⟩
      · exact UInt32.le_trans hself.2 (UInt32.le_of_lt (hless.resolve_left hc))
      · rcases mem_cons.mp hj with rfl | hj
        · exact hself
        · exact hrest j hj hopenj hpj
    · obtain ⟨hstart, hrest⟩ := ih (c := c) hne'
      refine ⟨hstart, fun j hj hopenj hpj => ?_⟩
      rcases mem_cons.mp hj with rfl | hj
      · -- the candidate was less already
        have hleast : ¬(c = 0 ∨ (wm.windows j).id < c) := by
          rintro hless
          refine hi ?_
          simp only [Bool.and_eq_true, Bool.or_eq_true, decide_eq_true_eq]
          exact ⟨⟨hopenj, hpj⟩, hless⟩
        have hc : c ≠ 0 := fun h0 => hleast (.inl h0)
        have hle : c ≤ (wm.windows j).id := UInt32.not_lt.mp fun hlt => hleast (.inr hlt)
        exact ⟨(hstart hc).1, UInt32.le_trans (hstart hc).2 hle⟩
      · exact hrest j hj hopenj hpj

theorem candidate_spec (hne : ∀ i, Open wm i → p (wm.windows i) = true → (wm.windows i).id ≠ 0) :
    (candidate wm p = 0 ∧ ∀ i, Open wm i → p (wm.windows i) = false) ∨
      ∃ i, Open wm i ∧ p (wm.windows i) = true ∧ candidate wm p = (wm.windows i).id ∧
        ∀ j, Open wm j → p (wm.windows j) = true → (wm.windows i).id ≤ (wm.windows j).id := by
  have hle := (candidateFrom_le (c := 0) (l := slots) fun i _ => hne i).2
  rcases candidateFrom_mem wm p 0 slots with hzero | ⟨i, -, hopen, hp, heq⟩
  · refine .inl ⟨hzero, fun i hi => ?_⟩
    by_contra hp
    exact (hle i (mem_slots i) hi (by simpa using hp)).1 hzero
  · refine .inr ⟨i, hopen, hp, heq, fun j hj hpj => ?_⟩
    rw [← heq]
    exact (hle j (mem_slots j) hj hpj).2

end Candidate

theorem nextCandidate_mem (h : nextCandidate wm ≠ 0) : ∃ i, Open wm i ∧ nextCandidate wm = (wm.windows i).id := by
  have hmem : ∀ p, candidate wm p ≠ 0 → ∃ i, Open wm i ∧ candidate wm p = (wm.windows i).id := by
    intro p hp
    obtain ⟨i, -, hi, -, heq⟩ := (candidateFrom_mem wm p 0 slots).resolve_left hp
    exact ⟨i, hi, heq⟩
  rw [nextCandidate] at h ⊢
  split_ifs at h ⊢
  · exact hmem _ h
  · exact hmem _ h

/-- **The next window in turn**, if 0 is no identifier. -/
theorem nextCandidate_spec (hne : ∀ i, Open wm i → (wm.windows i).id ≠ 0) (hopen : ∃ i, Open wm i) :
    ∃ i, Open wm i ∧ nextCandidate wm = (wm.windows i).id ∧
      RoundRobin.IsNext (openIds wm) (wmFocused wm).toNat (wm.windows i).id.toNat := by
  rw [nextCandidate]
  rcases candidate_spec (p := fun w => wmFocused wm < w.id) (fun i hi _ => hne i hi) with
    ⟨hzero, hnone⟩ | ⟨i, hi, hgreater, heq, hleast⟩
  · -- no identifier is greater, and the least of all follows
    rw [if_pos hzero]
    rcases candidate_spec (p := fun _ => true) (fun i hi _ => hne i hi) with
      ⟨-, hnone⟩ | ⟨i, hi, -, heq, hleast⟩
    · obtain ⟨i, hi⟩ := hopen
      cases hnone i hi
    · refine ⟨i, hi, heq, mem_openIds.mpr ⟨i, hi, rfl⟩, .inr ⟨?_, ?_⟩⟩
      · intro x hx
        obtain ⟨j, hj, rfl⟩ := mem_openIds.mp hx
        exact UInt32.le_iff_toNat_le.mp (UInt32.not_lt.mp (of_decide_eq_false (hnone j hj)))
      · intro x hx
        obtain ⟨j, hj, rfl⟩ := mem_openIds.mp hx
        exact UInt32.le_iff_toNat_le.mp (hleast j hj rfl)
  · rw [if_neg (by rw [heq]; exact hne i hi)]
    refine ⟨i, hi, heq, mem_openIds.mpr ⟨i, hi, rfl⟩, .inl ⟨?_, ?_⟩⟩
    · exact UInt32.lt_iff_toNat_lt.mp (of_decide_eq_true hgreater)
    · intro x hx hlt
      obtain ⟨j, hj, rfl⟩ := mem_openIds.mp hx
      exact UInt32.le_iff_toNat_le.mp (hleast j hj (decide_eq_true (UInt32.lt_iff_toNat_lt.mpr hlt)))

/-! ### Going through the windows -/

/-- Identifiers are distinct and one open window has the focus. -/
structure Sole (wm : Manager) : Prop where
  distinct : ∀ i j, Open wm i → Open wm j → (wm.windows i).id = (wm.windows j).id → i = j
  one : (∃ i, Open wm i) → ∃! i, HasFocus wm i

/-- The same windows are open in both. -/
structure SameWindows (wm wm' : Manager) : Prop where
  id : ∀ i, (wm'.windows i).id = (wm.windows i).id
  isOpen : ∀ i, Open wm' i ↔ Open wm i

theorem SameWindows.openIds_eq (h : SameWindows wm wm') : openIds wm' = openIds wm := by
  ext n
  simp only [mem_openIds, h.isOpen, h.id]

theorem SameWindows.trans (h : SameWindows wm wm') (h' : SameWindows wm' wm'') : SameWindows wm wm'' where
  id i := (h'.id i).trans (h.id i)
  isOpen i := (h'.isOpen i).trans (h.isOpen i)

theorem sameWindows_wmFocus (id : UInt32) : SameWindows wm (wmFocus wm id) := by
  rw [wmFocus]
  split
  · exact ⟨fun _ => rfl, fun _ => Iff.rfl⟩
  · exact ⟨fun _ => rfl, fun _ => Iff.rfl⟩

/-- `wm_focus` for an open window. -/
theorem hasFocus_wmFocus (hi : Open wm i) :
    HasFocus (wmFocus wm (wm.windows i).id) j ↔ Open wm j ∧ (wm.windows j).id = (wm.windows i).id := by
  rw [wmFocus]
  split
  · rename_i hnone
    exact absurd rfl (wmById_eq_none hnone i hi)
  · rw [HasFocus, Bool.and_eq_true, decide_eq_true_eq]
    constructor
    · rintro ⟨-, hj⟩
      exact hj
    · intro hj
      exact ⟨hj.1, hj⟩

theorem Sole.sameWindows (h : Sole wm) (hsame : SameWindows wm wm')
    (hone : (∃ i, Open wm i) → ∃! i, HasFocus wm' i) : Sole wm' where
  distinct i j hi hj hid := by
    rw [hsame.id, hsame.id] at hid
    exact h.distinct i j ((hsame.isOpen i).mp hi) ((hsame.isOpen j).mp hj) hid
  one := by
    rintro ⟨i, hi⟩
    exact hone ⟨i, (hsame.isOpen i).mp hi⟩

theorem Sole.wmFocus (h : Sole wm) (id : UInt32) : Sole (wmFocus wm id) := by
  rcases hfound : wmById wm id with _ | i
  · rw [Windows.wmFocus, hfound]
    exact h
  · obtain ⟨hi, rfl⟩ := wmById_eq_some hfound
    refine h.sameWindows (sameWindows_wmFocus _) fun _ => ⟨i, ?_, fun j hj => ?_⟩
    · exact (hasFocus_wmFocus hi).mpr ⟨hi, rfl⟩
    · obtain ⟨hj, hid⟩ := (hasFocus_wmFocus hi).mp hj
      exact h.distinct j i hj hi hid

theorem Sole.wmFocusNext (h : Sole wm) : Sole (wmFocusNext wm) := by
  rw [Windows.wmFocusNext]
  split_ifs
  · exact h.wmFocus _
  · exact h

theorem sameWindows_wmFocusNext : SameWindows wm (wmFocusNext wm) := by
  rw [wmFocusNext]
  split_ifs
  · exact sameWindows_wmFocus _
  · exact ⟨fun _ => rfl, fun _ => Iff.rfl⟩

section

variable (h : Sole wm)
include h

theorem Sole.iterate (k : ℕ) : Sole (Windows.wmFocusNext^[k] wm) ∧ SameWindows wm (Windows.wmFocusNext^[k] wm) := by
  induction k with
  | zero => exact ⟨h, fun _ => rfl, fun _ => Iff.rfl⟩
  | succ k ih =>
    rw [Function.iterate_succ_apply']
    exact ⟨ih.1.wmFocusNext, ih.2.trans sameWindows_wmFocusNext⟩

/-- The identifier `wm_focused` returns says which window has the focus. -/
theorem Sole.hasFocus_iff (i : Fin wmMaxWindows) (hi : Open wm i) :
    HasFocus wm i ↔ wmFocused wm = (wm.windows i).id := by
  obtain ⟨f, hf, honly⟩ := h.one ⟨i, hi⟩
  have hid := wmFocused_eq hf honly
  constructor
  · intro hfocus
    rw [hid, honly i hfocus]
  · intro heq
    rw [h.distinct i f hi hf.1 (by rw [← heq, hid])]
    exact hf

theorem Sole.card_openIds : (openIds wm).card = wmCount wm := by
  rw [Windows.wmCount_eq, openIds]
  refine Finset.card_image_of_injOn fun i hi j hj hid => ?_
  exact h.distinct i j (Finset.mem_filter.mp hi).2 (Finset.mem_filter.mp hj).2 (UInt32.toNat.inj hid)

theorem Sole.wmFocused_mem (hopen : ∃ i, Open wm i) : (wmFocused wm).toNat ∈ openIds wm := by
  obtain ⟨i, hi, honly⟩ := h.one hopen
  rw [wmFocused_eq hi honly]
  exact mem_openIds.mpr ⟨i, hi.1, rfl⟩

theorem Sole.isNext (hne : ∀ i, Open wm i → (wm.windows i).id ≠ 0) (hopen : ∃ i, Open wm i) :
    RoundRobin.IsNext (openIds wm) (wmFocused wm).toNat (wmFocused (Windows.wmFocusNext wm)).toNat := by
  obtain ⟨i, hi, hnext, hturn⟩ := nextCandidate_spec hne hopen
  have heq : Windows.wmFocusNext wm = Windows.wmFocus wm (wm.windows i).id := by
    rw [Windows.wmFocusNext, hnext, if_pos (hne i hi)]
  have hsame : SameWindows wm (Windows.wmFocusNext wm) := sameWindows_wmFocusNext
  have hfocus : HasFocus (Windows.wmFocusNext wm) i := by
    rw [heq]
    exact (hasFocus_wmFocus hi).mpr ⟨hi, rfl⟩
  rw [(h.wmFocusNext.hasFocus_iff i hfocus.1).mp hfocus, hsame.id]
  exact hturn

/-- Where no window has the identifier 0, `wm_focus_next` takes turns. -/
theorem Sole.cycles_of_ne_zero (hne : ∀ i, Open wm i → (wm.windows i).id ≠ 0)
    (hopen : ∃ i, Open wm i) : Cycles wm := by
  have hfocus : ∀ k i, Open wm i → (HasFocus (Windows.wmFocusNext^[k] wm) i ↔
      (wmFocused (Windows.wmFocusNext^[k] wm)).toNat = (wm.windows i).id.toNat) := by
    intro k i hi
    obtain ⟨hsole, hsame⟩ := h.iterate k
    rw [hsole.hasFocus_iff i ((hsame.isOpen i).mpr hi), hsame.id, ← UInt32.toNat_inj]
  have hnext : ∀ k, RoundRobin.IsNext (openIds wm) (wmFocused (Windows.wmFocusNext^[k] wm)).toNat
      (wmFocused (Windows.wmFocusNext^[k + 1] wm)).toNat := by
    intro k
    obtain ⟨hsole, hsame⟩ := h.iterate k
    have hturn := hsole.isNext (fun i hi => by rw [hsame.id]; exact hne i ((hsame.isOpen i).mp hi))
      (hopen.imp fun i hi => (hsame.isOpen i).mpr hi)
    rw [hsame.openIds_eq] at hturn
    rw [Function.iterate_succ_apply']
    exact hturn
  obtain ⟨hreturn, hvisit⟩ := RoundRobin.visits
    (f := fun k => (wmFocused (Windows.wmFocusNext^[k] wm)).toNat) (h.wmFocused_mem hopen) hnext
  rw [h.card_openIds] at hreturn hvisit
  refine ⟨fun i hi => ?_, fun i => ?_⟩
  · obtain ⟨k, ⟨hk, heq⟩, honly⟩ := hvisit _ (mem_openIds.mpr ⟨i, hi, rfl⟩)
    refine ⟨k, ⟨hk, (hfocus k i hi).mpr heq⟩, ?_⟩
    rintro k' ⟨hk', hfocus'⟩
    exact honly k' ⟨hk', (hfocus k' i hi).mp hfocus'⟩
  · by_cases hi : Open wm i
    · rw [hfocus _ i hi, hreturn, ← hfocus 0 i hi]
      rfl
    · have hsame := (h.iterate (wmCount wm)).2
      exact ⟨fun hf => absurd ((hsame.isOpen i).mp hf.1) hi, fun hf => absurd hf.1 hi⟩

/-- A window with the identifier 0 does not get the focus back. -/
theorem Sole.not_hasFocus_of_zero (hzero : (wm.windows i).id = 0)
    (hi : Open wm i) (hj : Open wm j) (hne : j ≠ i) : ¬HasFocus (Windows.wmFocusNext wm) i := by
  intro hfocus
  rw [Windows.wmFocusNext] at hfocus
  split_ifs at hfocus with hnext
  · -- the focus went to a window with another identifier
    obtain ⟨f, hf, hid⟩ := nextCandidate_mem hnext
    rw [hid, hasFocus_wmFocus hf, hzero] at hfocus
    exact hnext (hid.trans hfocus.2.symm)
  · -- nothing was chosen although the other window is greater than the one with the focus
    push Not at hnext
    have hfocused : wmFocused wm = 0 := by rw [(h.hasFocus_iff i hi).mp hfocus, hzero]
    have hne0 : ∀ f, Open wm f → decide (wmFocused wm < (wm.windows f).id) = true → (wm.windows f).id ≠ 0 := by
      intro f _ hlt hf
      rw [hf] at hlt
      exact absurd (of_decide_eq_true hlt) UInt32.not_lt_zero
    have hjne : (wm.windows j).id ≠ 0 := fun hj0 => hne (h.distinct j i hj hi (by rw [hj0, hzero]))
    rw [nextCandidate] at hnext
    rcases candidate_spec (p := fun w => wmFocused wm < w.id) hne0 with
      ⟨-, hnone⟩ | ⟨f, hf, hgreater, heq, -⟩
    · have hle := UInt32.not_lt.mp (of_decide_eq_false (hnone j hj))
      rw [hfocused] at hle
      exact hjne (UInt32.le_zero_iff.mp hle)
    · have hcand : candidate wm (fun w => wmFocused wm < w.id) ≠ 0 := by
        rw [heq]
        exact hne0 f hf hgreater
      rw [if_neg hcand] at hnext
      exact hcand hnext

/-- **When `wm_focus_next` goes through all windows**: no window has the identifier 0, or there
is no other window. -/
theorem Sole.cycles_iff : Cycles wm ↔ ∀ i j, Open wm i → Open wm j → j ≠ i → (wm.windows i).id ≠ 0 := by
  constructor
  · rintro ⟨hvisits, hreturns⟩ i j hi hj hne hzero
    have hlater : ∀ k, ¬HasFocus (Windows.wmFocusNext^[k + 1] wm) i := by
      intro k
      obtain ⟨hsole, hsame⟩ := h.iterate k
      rw [Function.iterate_succ_apply']
      exact hsole.not_hasFocus_of_zero ((hsame.id i).trans hzero) ((hsame.isOpen i).mpr hi)
        ((hsame.isOpen j).mpr hj) hne
    -- it is visited at the start, and so it would have to be at the end
    obtain ⟨k, ⟨hk, hfocus⟩, -⟩ := hvisits i hi
    rcases k with _ | k
    · obtain ⟨n, hn⟩ := Nat.exists_eq_add_of_lt hk
      have hback := (hreturns i).mpr hfocus
      rw [hn, zero_add] at hback
      exact hlater n hback
    · exact hlater k hfocus
  · intro hne
    by_cases hall : ∀ i, Open wm i → (wm.windows i).id ≠ 0
    · by_cases hopen : ∃ i, Open wm i
      · exact h.cycles_of_ne_zero hall hopen
      · have hnone : ∀ i, ¬Open wm i := fun i hi => hopen ⟨i, hi⟩
        refine ⟨fun i hi => absurd hi (hnone i), fun i => ?_⟩
        have hsame := (h.iterate (wmCount wm)).2
        exact ⟨fun hf => absurd ((hsame.isOpen i).mp hf.1) (hnone i), fun hf => absurd hf.1 (hnone i)⟩
    · -- the only window has the identifier 0
      push Not at hall
      obtain ⟨i, hi, hzero⟩ := hall
      have honly : ∀ j, Open wm j → j = i := by
        intro j hj
        by_contra hji
        exact hne i j hi hj hji hzero
      have hone : wmCount wm = 1 := by
        rw [Windows.wmCount_eq, Finset.card_eq_one]
        refine ⟨i, Finset.ext fun j => ?_⟩
        rw [Finset.mem_filter, Finset.mem_singleton]
        exact ⟨fun hj => honly j hj.2, fun hj => ⟨Finset.mem_univ j, hj ▸ hi⟩⟩
      have hfocus : ∀ wm', Sole wm' → SameWindows wm wm' → ∀ j, HasFocus wm' j ↔ j = i := by
        intro wm' hsole hsame
        obtain ⟨f, hf, -⟩ := hsole.one ⟨i, (hsame.isOpen i).mpr hi⟩
        obtain rfl := honly f ((hsame.isOpen f).mp hf.1)
        exact fun j => ⟨fun hj => honly j ((hsame.isOpen j).mp hj.1), fun hj => hj ▸ hf⟩
      have hiter := fun k => hfocus _ (h.iterate k).1 (h.iterate k).2
      refine ⟨fun j hj => ⟨0, ⟨?_, ?_⟩, ?_⟩, fun j => ?_⟩
      · rw [hone]
        exact zero_lt_one
      · exact (hiter 0 j).mpr (honly j hj)
      · rintro k ⟨hk, -⟩
        rw [hone] at hk
        exact Nat.lt_one_iff.mp hk
      · exact (hiter _ j).trans (hiter 0 j).symm

end

/-- What the property comes to: one window has the focus, and a window with the
identifier 0 is the only one. -/
structure Turning (wm : Manager) : Prop extends Sole wm where
  ne_zero : ∀ i j, Open wm i → Open wm j → j ≠ i → (wm.windows i).id ≠ 0

theorem wellFocused_iff_turning : WellFocused wm ↔ Turning wm := by
  constructor
  · rintro ⟨hdistinct, hone, -, hcycles⟩
    have hsole : Sole wm := ⟨hdistinct, hone⟩
    exact ⟨hsole, hsole.cycles_iff.mp hcycles⟩
  · rintro ⟨hsole, hne⟩
    exact ⟨hsole.distinct, hsole.one, wmFocused_of_none, hsole.cycles_iff.mpr hne⟩

theorem SameFlags.sameWindows (h : SameFlags wm wm') : SameWindows wm wm' := ⟨h.id, fun i => by rw [Open, Open, h.used]⟩

theorem Turning.sameWindows (h : Turning wm) (hsame : SameWindows wm wm') (hsole : Sole wm') : Turning wm' := by
  refine ⟨hsole, fun i j hi hj hji => ?_⟩
  rw [hsame.id]
  exact h.ne_zero i j ((hsame.isOpen i).mp hi) ((hsame.isOpen j).mp hj) hji

theorem Turning.sameFlags (h : Turning wm) (hsame : SameFlags wm wm') : Turning wm' := by
  refine h.sameWindows hsame.sameWindows (h.toSole.sameWindows hsame.sameWindows fun hopen => ?_)
  simp only [HasFocus, Open, hsame.used, hsame.focused]
  exact h.one hopen

theorem SameFlags.symm (h : SameFlags wm wm') : SameFlags wm' wm :=
  ⟨h.nextId.symm, fun i => (h.id i).symm, fun i => (h.used i).symm, fun i => (h.focused i).symm⟩

theorem turning_tile : Turning (tile wm) ↔ Turning wm :=
  ⟨fun h => h.sameFlags (sameFlags_tile wm).symm, fun h => h.sameFlags (sameFlags_tile wm)⟩

/-! ### Runs -/

/-- A call of the window manager. -/
inductive Call where
  | create (title : List UInt8) (client : UInt64)
  | close (id : UInt32)
  | focus (id : UInt32)
  | focusNext
  | toggleLayout
  | move (id : UInt32) (x y : Int32)

/-- The effect of a call. -/
def step (wm : Manager) : Call → Manager
  | .create title client => (wmCreate wm title client).1
  | .close id => wmClose wm id
  | .focus id => wmFocus wm id
  | .focusNext => wmFocusNext wm
  | .toggleLayout => wmToggleLayout wm
  | .move id x y => wmMove wm id x y

/-- When a call keeps the focus in order. A window that is created beside others
gets an identifier that is neither 0 nor one of theirs, and no other window has the
identifier 0; when a window is closed, the window with the focus is that one or
the one that gets the focus. -/
def KeepsFocus (wm : Manager) : Call → Prop
  | .create _ _ => freeSlot wm = none ∨
      ∀ i, Open wm i → wm.nextId ≠ 0 ∧ (wm.windows i).id ≠ 0 ∧ (wm.windows i).id ≠ wm.nextId
  | .close id => ∀ w j, wmById wm id = some w → lastUsed (release wm w) = some j →
      ∀ i, HasFocus wm i → i = w ∨ i = j
  | _ => True

theorem freeSlot_eq_some {slot : Fin wmMaxWindows} (h : freeSlot wm = some slot) : ¬Open wm slot := by
  have hfound := find?_some h
  rw [Bool.not_eq_true'] at hfound
  rw [Open, hfound]
  exact Bool.false_ne_true

theorem turning_wmCreate (h : Turning wm) (title : List UInt8) (client : UInt64) :
    Turning (wmCreate wm title client).1 ↔ KeepsFocus wm (.create title client) := by
  rw [wmCreate, KeepsFocus]
  rcases hslot : freeSlot wm with _ | slot
  · exact ⟨fun _ => .inl rfl, fun _ => h⟩
  · simp only [reduceCtorEq, false_or]
    have hfree := freeSlot_eq_some hslot
    rw [turning_tile]
    set wm' : Manager := Manager.set _ slot (newWindow wm slot title client) with hwm'
    have hat : ∀ i, wm'.windows i =
        if i = slot then newWindow wm slot title client else { wm.windows i with focused := false } :=
      fun i => update_apply _ slot _ i
    have hopen : ∀ i, Open wm' i ↔ i = slot ∨ Open wm i := by
      intro i
      rw [Open, hat]
      split_ifs with hi
      · exact ⟨fun _ => .inl hi, fun _ => rfl⟩
      · exact ⟨.inr, fun ho => ho.resolve_left hi⟩
    have hnew : (wm'.windows slot).id = wm.nextId := by
      rw [hat, if_pos rfl]
      rfl
    have hne : ∀ i, Open wm i → i ≠ slot := fun i hi heq => hfree (heq ▸ hi)
    have hold : ∀ i, Open wm i → (wm'.windows i).id = (wm.windows i).id := by
      intro i hi
      rw [hat, if_neg (hne i hi)]
    constructor
    · intro h' i hi
      refine ⟨?_, ?_, ?_⟩
      · rw [← hnew]
        exact h'.ne_zero slot i ((hopen slot).mpr (.inl rfl)) ((hopen i).mpr (.inr hi)) (hne i hi)
      · rw [← hold i hi]
        exact h'.ne_zero i slot ((hopen i).mpr (.inr hi)) ((hopen slot).mpr (.inl rfl)) (hne i hi).symm
      · rw [← hold i hi, ← hnew]
        intro hid
        exact hne i hi (h'.distinct i slot ((hopen i).mpr (.inr hi)) ((hopen slot).mpr (.inl rfl)) hid)
    · intro hkeeps
      refine ⟨⟨fun i j hi hj hid => ?_, fun _ => ⟨slot, ?_, fun j hj => ?_⟩⟩, fun i j hi hj hji => ?_⟩
      · -- the new window is told from every other one
        rcases (hopen i).mp hi with hi' | hi' <;> rcases (hopen j).mp hj with hj' | hj'
        · rw [hi', hj']
        · rw [hi', hnew, hold j hj'] at hid
          exact absurd hid.symm (hkeeps j hj').2.2
        · rw [hj', hnew, hold i hi'] at hid
          exact absurd hid (hkeeps i hi').2.2
        · rw [hold i hi', hold j hj'] at hid
          exact h.distinct i j hi' hj' hid
      · refine ⟨(hopen slot).mpr (.inl rfl), ?_⟩
        rw [hat, if_pos rfl]
        rfl
      · by_contra hj'
        have hfocused := hj.2
        rw [hat, if_neg hj'] at hfocused
        exact Bool.false_ne_true hfocused
      · rcases (hopen i).mp hi with rfl | hi
        · rw [hnew]
          exact (hkeeps j (((hopen j).mp hj).resolve_left hji)).1
        · rw [hold i hi]
          exact (hkeeps i hi).2.1

theorem lastUsed_eq_some (h : lastUsed wm = some j) : Open wm j := by
  have hfound := find?_some (p := fun i => (wm.windows i).used) h
  exact hfound

theorem lastUsed_eq_none (h : lastUsed wm = none) (i : Fin wmMaxWindows) : ¬Open wm i :=
  find?_eq_none.mp h i (mem_reverse.mpr (mem_slots i))

theorem turning_wmClose (h : Turning wm) (id : UInt32) : Turning (wmClose wm id) ↔ KeepsFocus wm (.close id) := by
  rw [wmClose, KeepsFocus]
  rcases hfound : wmById wm id with _ | w
  · simpa using h
  · have hat : ∀ i, (release wm w).windows i =
        if i = w then { wm.windows w with used := false, focused := false } else wm.windows i :=
      fun i => update_apply _ w _ i
    have hopen : ∀ i, Open (release wm w) i ↔ i ≠ w ∧ Open wm i := by
      intro i
      rw [Open, hat]
      split_ifs with hi
      · simp [hi]
      · exact ⟨fun ho => ⟨hi, ho⟩, fun ho => ho.2⟩
    have hid : ∀ i, i ≠ w → ((release wm w).windows i).id = (wm.windows i).id := by
      intro i hi
      rw [hat, if_neg hi]
    simp only [Option.some.injEq]
    rcases hlast : lastUsed (release wm w) with _ | j
    · have hnone := lastUsed_eq_none hlast
      simp only [turning_tile]
      refine ⟨fun _ w' j hw hj => ?_, fun _ => ⟨⟨?_, ?_⟩, ?_⟩⟩
      · obtain rfl := hw
        rw [hlast] at hj
        cases hj
      · exact fun i _ hi => absurd hi (hnone i)
      · rintro ⟨i, hi⟩
        exact absurd hi (hnone i)
      · exact fun i _ hi => absurd hi (hnone i)
    · simp only [turning_tile]
      set wm' : Manager := Manager.set _ j _ with hwm'
      have hj := lastUsed_eq_some hlast
      have hset : ∀ i, wm'.windows i = if i = j then
          { (release wm w).windows j with focused := true } else (release wm w).windows i :=
        fun i => update_apply _ j _ i
      have hsame : SameWindows (release wm w) wm' := by
        refine ⟨fun i => ?_, fun i => ?_⟩
        · rw [hset]
          split_ifs with hi
          · rw [hi]
          · rfl
        · rw [Open, Open, hset]
          split_ifs with hi
          · rw [hi]
          · rfl
      have hfocus : ∀ i, HasFocus wm' i ↔ i = j ∨ (i ≠ w ∧ HasFocus wm i) := by
        intro i
        rw [HasFocus, hsame.isOpen, hopen, hset]
        split_ifs with hi
        · rw [hi]
          exact ⟨fun _ => .inl rfl, fun _ => ⟨(hopen j).mp hj, rfl⟩⟩
        · rw [HasFocus, and_assoc]
          constructor
          · rintro ⟨hiw, ho, hf⟩
            rw [hat, if_neg hiw] at hf
            exact .inr ⟨hiw, ho, hf⟩
          · intro hor
            obtain ⟨hiw, ho, hf⟩ := hor.resolve_left hi
            refine ⟨hiw, ho, ?_⟩
            rw [hat, if_neg hiw]
            exact hf
      constructor
      · rintro h' w' j' rfl hj' i hi
        rw [hlast] at hj'
        cases hj'
        by_cases hiw : i = w
        · exact .inl hiw
        · exact .inr ((h'.one ⟨j, (hsame.isOpen j).mpr hj⟩).unique
            ((hfocus i).mpr (.inr ⟨hiw, hi⟩)) ((hfocus j).mpr (.inl rfl)))
      · intro hkeeps
        refine ⟨⟨fun i k hi hk hik => ?_, fun _ => ⟨j, ?_, fun i hi => ?_⟩⟩, fun i k hi hk hne => ?_⟩
        · obtain ⟨hiw, hi⟩ := (hopen i).mp ((hsame.isOpen i).mp hi)
          obtain ⟨hkw, hk⟩ := (hopen k).mp ((hsame.isOpen k).mp hk)
          rw [hsame.id, hsame.id, hid i hiw, hid k hkw] at hik
          exact h.distinct i k hi hk hik
        · exact (hfocus j).mpr (.inl rfl)
        · rcases (hfocus i).mp hi with hij | ⟨hiw, hi⟩
          · exact hij
          · exact (hkeeps w j rfl hlast i hi).resolve_left hiw
        · obtain ⟨hiw, hi⟩ := (hopen i).mp ((hsame.isOpen i).mp hi)
          obtain ⟨-, hk⟩ := (hopen k).mp ((hsame.isOpen k).mp hk)
          rw [hsame.id, hid i hiw]
          exact h.ne_zero i k hi hk hne

theorem turning_step (h : Turning wm) (call : Call) : Turning (step wm call) ↔ KeepsFocus wm call := by
  cases call with
  | create title client => exact turning_wmCreate h title client
  | close id => exact turning_wmClose h id
  | focus id => exact iff_of_true (h.sameWindows (sameWindows_wmFocus id) (h.toSole.wmFocus id)) trivial
  | focusNext => exact iff_of_true (h.sameWindows sameWindows_wmFocusNext h.toSole.wmFocusNext) trivial
  | toggleLayout =>
    refine iff_of_true (turning_tile.mpr (h.sameFlags ?_)) trivial
    exact ⟨rfl, fun _ => rfl, fun _ => rfl, fun _ => rfl⟩
  | move id x y => exact iff_of_true (h.sameFlags (sameFlags_wmMove wm id x y)) trivial

theorem turning_wmInit (wm : Manager) (width height : UInt32) : Turning (wmInit wm width height) := by
  have hnone : ∀ i, ¬Open (wmInit wm width height) i := fun i => Bool.false_ne_true
  refine ⟨⟨fun i _ hi => absurd hi (hnone i), ?_⟩, fun i _ hi => absurd hi (hnone i)⟩
  rintro ⟨i, hi⟩
  exact absurd hi (hnone i)

/-- **The focus stays in order** exactly as long as every call keeps it so: whatever
the table held before `wm_init` and whatever the calls, identifiers are distinct, one
open window has the focus and `wm_focus_next` goes through all of them at every
point, if and only if each call met `KeepsFocus` in the state it was made in. -/
theorem wellFocused_iff (wm : Manager) (width height : UInt32) (calls : List Call) :
    (∀ before after, calls = before ++ after → WellFocused (before.foldl step (wmInit wm width height))) ↔
    Runs.Throughout (fun before call => KeepsFocus (before.foldl step (wmInit wm width height)) call)
      calls := by
  simp only [wellFocused_iff_turning]
  exact Runs.forall_states_iff (turning_wmInit wm width height) fun _ call _ h => turning_step h call

/-- A table nothing has been written to. -/
def blank : Manager where
  screenWidth := 0
  screenHeight := 0
  nextId := 0
  layout := .tiled
  windows := fun _ => ⟨0, 0, 0, 0, 0, false, false, [], 0⟩

/-- Three windows are opened, the first gets the focus and the second is closed: the
first and the third have the focus. -/
theorem two_windows_focused :
    let wm := [.create [] 1, .create [] 2, .create [] 3, .focus 1, .close 2].foldl step (wmInit blank 1024 768)
    HasFocus wm ⟨0, by decide⟩ ∧ HasFocus wm ⟨2, by decide⟩ ∧ ¬WellFocused wm := by
  intro wm
  have h0 : HasFocus wm ⟨0, by decide⟩ := by decide +kernel
  have h2 : HasFocus wm ⟨2, by decide⟩ := by decide +kernel
  refine ⟨h0, h2, fun h => ?_⟩
  have heq := (h.one ⟨_, h0.1⟩).unique h0 h2
  cases heq

end OS64.Windows
