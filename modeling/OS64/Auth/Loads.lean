import OS64.Auth.Session

/-!
# A load that fails

`auth_load` empties the table and puts the session back to its first place before it
looks at the file, and it parses into the table that is in use. When a line is refused
nothing is undone: the accounts of the lines before it (`OS64.Auth.accepted`) are the
table from then on, with the first of them in session. So a load that fails leaves
things as they were only in the states where that is the table already
(`OS64.Auth.failed_load_iff`).
-/

namespace OS64.Auth

open Text

/-- The accounts of the lines up to the first one that is refused, behind those that
are there already. -/
def accepted : List (List UInt8) → List Record → List Record
  | [], rs => rs
  | line :: lines, rs =>
    if line = [] ∨ line.head? = some 35 then accepted lines rs
    else if rs.length < 16 then
      match parseLine line rs.length with
      | none => rs
      | some r => accepted lines (rs ++ [r])
    else rs

/-- The loop leaves these accounts, and the place of the session alone. -/
theorem records_loadLines : ∀ (lines : List (List UInt8)) (t : State),
    (loadLines lines t).1.records = accepted lines t.records ∧ (loadLines lines t).1.current = t.current
  | [], t => ⟨rfl, rfl⟩
  | line :: lines, t => by
    rw [loadLines, accepted]
    by_cases hskip : line = [] ∨ line.head? = some 35
    · rw [if_pos hskip, if_neg (not_and_or.mpr (hskip.imp not_not.mpr not_not.mpr))]
      exact records_loadLines lines t
    rw [if_neg hskip, if_pos (not_or.mp hskip)]
    by_cases hroom : t.records.length < 16
    · rw [dif_pos hroom, if_pos hroom]
      cases parseLine line t.records.length with
      | none => exact ⟨rfl, rfl⟩
      | some r => exact records_loadLines lines (t.push r hroom)
    · rw [dif_neg hroom, if_neg hroom]
      exact ⟨rfl, rfl⟩

/-- What is left by a load that fails. -/
theorem authLoad_failed {t : State} {d : List UInt8} (h : (authLoad t d).2 = false) :
    (authLoad t d).1.records = accepted (d.splitOn 10) [] ∧ (authLoad t d).1.current = 0 := by
  obtain ⟨hrecords, hcurrent⟩ := records_loadLines (d.splitOn 10) t.cleared
  rw [authLoad] at h ⊢
  revert h hrecords hcurrent
  rcases loadLines (d.splitOn 10) t.cleared with ⟨t', _ | _⟩
  · exact fun _ hrecords hcurrent => ⟨hrecords, hcurrent⟩
  · -- without a refusal the load fails only if there are no accounts, and `root` is not found
    intro h hrecords hcurrent
    have hempty : t'.records = [] := not_not.mp (of_decide_eq_false h)
    have hselect : (authSelect t' rootName).1 = t' := by
      rw [authSelect]
      split
      · rfl
      · rename_i hfind
        rw [State.find, hempty] at hfind
        cases hfind
    rw [hselect]
    exact ⟨hrecords, hcurrent⟩

/-- The accounts, the session and what the passwords open are the same. -/
structure Unchanged (kdf : List UInt8 → List UInt8 → Hash) (t t' : State) : Prop where
  records : t'.records = t.records
  identity : t'.identity = t.identity
  check : ∀ u p, authCheck kdf t' u p = authCheck kdf t u p

/-- **A load that fails changes nothing** exactly if the accounts are those of the lines before
the refused one already, and the session is that of the first of them. -/
theorem failed_load_iff (kdf : List UInt8 → List UInt8 → Hash) (t : State) (d : List UInt8)
    (h : (authLoad t d).2 = false) :
    Unchanged kdf t (authLoad t d).1 ↔ t.records = accepted (d.splitOn 10) [] ∧
      t.identity = (t.records.head?.map Record.identity).getD Identity.nobody := by
  obtain ⟨hrecords, hcurrent⟩ := authLoad_failed h
  have hidentity : (authLoad t d).1.identity =
      ((accepted (d.splitOn 10) []).head?.map Record.identity).getD Identity.nobody := by
    rw [State.identity_eq, State.session, hcurrent, hrecords, List.head?_eq_getElem?]
  constructor
  · intro hsame
    have haccounts := hsame.records.symm.trans hrecords
    refine ⟨haccounts, ?_⟩
    rw [← hsame.identity, hidentity, haccounts]
  · rintro ⟨haccounts, hfirst⟩
    refine ⟨hrecords.trans haccounts.symm, ?_, fun u p => ?_⟩
    · rw [hidentity, hfirst, haccounts]
    · rw [authCheck, authCheck, State.find, State.find, hrecords, haccounts]

/-- The line of `root` with an empty salt and a key of zeros. -/
def rootLine : List UInt8 := rootName ++ 58 :: shadowStart ++ 36 :: List.replicate 64 48

/-- A file with a second line that is refused, loaded twice. -/
theorem failed_load_twice :
    (authLoad (authLoad State.initial (rootLine ++ [10, 120])).1 (rootLine ++ [10, 120])).2 = false ∧
      Unchanged (fun _ _ => Hash.zero) (authLoad State.initial (rootLine ++ [10, 120])).1
        (authLoad (authLoad State.initial (rootLine ++ [10, 120])).1 (rootLine ++ [10, 120])).1 := by
  have hfails : (authLoad (authLoad State.initial (rootLine ++ [10, 120])).1 (rootLine ++ [10, 120])).2 =
    false := by decide +kernel
  exact ⟨hfails, (failed_load_iff (fun _ _ => Hash.zero) _ _ hfails).mpr ⟨rfl, by decide +kernel⟩⟩

/-- `root` can log in; after a load of a file that is no file of keys there are no accounts. -/
theorem failed_load_of_x :
    let t := (authLoad State.initial rootLine).1
    let t' := (authLoad t [120]).1
    (authLoad State.initial rootLine).2 = true ∧ (authLoad t [120]).2 = false ∧
      t.records.length = 1 ∧ t'.records.length = 0 ∧
      authCurrentUser t = rootName ∧ authCurrentUser t' = nobodyName ∧
      authCheck (fun _ _ => Hash.zero) t rootName [] = true ∧
      authCheck (fun _ _ => Hash.zero) t' rootName [] = false := by
  decide +kernel

end OS64.Auth
