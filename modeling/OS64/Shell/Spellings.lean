import OS64.Shell.Files
import OS64.Vfs.Archive

/-!
# The spellings of a protected path

Three routines compare paths, each in its own way: `path_eq` finds an entry of the
archive, `same` finds a policy, and `vfs_read` looks at how a path begins. A file
is protected under one spelling; it must be under all of them.

* **The policy is one of the entry** (`ofpAllowed_congr`): paths under which
  `path_eq` finds one entry are treated alike. Both routines ignore slashes at
  either end; `same` ignores `./` too, as often as it stands there.
* **A protected path is one of the archive** (`vfsRead_refused`): however it is
  spelt, no device and no volume answers to it.
-/

namespace OS64.Shell

open List Text Auth Vfs

/-! ### Slashes at the end -/

variable {a b : Path} {c : UInt8}

/-- A path without the slashes at its end. -/
def trimSlashes : Path → Path
  | [] => []
  | c :: a => if trimSlashes a = [] ∧ c = 47 then [] else c :: trimSlashes a

theorem trimSlashes_cons_eq_nil : trimSlashes (c :: a) = [] ↔ trimSlashes a = [] ∧ c = 47 := by
  rw [trimSlashes]
  by_cases h : trimSlashes a = [] ∧ c = 47
  · rw [if_pos h]
    exact iff_of_true rfl h
  · rw [if_neg h]
    exact iff_of_false (cons_ne_nil _ _) h

/-- Whatever is left begins as the path does. -/
theorem trimSlashes_cons_of_ne (h : trimSlashes (c :: a) ≠ []) : trimSlashes (c :: a) = c :: trimSlashes a := by
  rw [trimSlashes, if_neg fun hc => h (trimSlashes_cons_eq_nil.2 hc)]

theorem trimSlashes_cons_inj : trimSlashes (c :: a) = trimSlashes (c :: b) ↔ trimSlashes a = trimSlashes b := by
  constructor
  · intro h
    by_cases hnil : trimSlashes (c :: a) = []
    · rw [(trimSlashes_cons_eq_nil.1 hnil).1, (trimSlashes_cons_eq_nil.1 (h ▸ hnil)).1]
    · have hnil' : trimSlashes (c :: b) ≠ [] := h ▸ hnil
      rw [trimSlashes_cons_of_ne hnil, trimSlashes_cons_of_ne hnil'] at h
      exact (cons.inj h).2
  · intro h
    rw [trimSlashes, trimSlashes, h]

theorem skipSlashes_eq_nil : skipSlashes a = [] ↔ trimSlashes a = [] := by
  induction a with
  | nil => exact Iff.rfl
  | cons c a ih =>
    rw [trimSlashes_cons_eq_nil, ← ih, skipSlashes, dropWhile_cons]
    by_cases hc : c = 47
    · subst hc
      exact (and_iff_left rfl).symm
    · rw [if_neg (by simpa using hc)]
      exact iff_of_false (cons_ne_nil _ _) fun h => hc h.2

/-- What follows is slashes. -/
theorem exists_slashes (a : Path) : ∃ b, trimSlashes b = [] ∧ a = trimSlashes a ++ b := by
  induction a with
  | nil => exact ⟨[], rfl, rfl⟩
  | cons c a ih =>
    by_cases hnil : trimSlashes (c :: a) = []
    · exact ⟨c :: a, hnil, by rw [hnil, nil_append]⟩
    · obtain ⟨b, hb, ha⟩ := ih
      refine ⟨b, hb, ?_⟩
      rw [trimSlashes_cons_of_ne hnil, cons_append, ← ha]

theorem trimSlashes_append (a : Path) (hb : trimSlashes b = []) : trimSlashes (a ++ b) = trimSlashes a := by
  induction a with
  | nil => exact hb
  | cons c a ih => rw [cons_append, trimSlashes, trimSlashes, ih]

/-! ### The two comparisons -/

/-- `path_eq` at its end ignores slashes at the end, and nothing else. -/
theorem sameTail_iff (a b : Path) : sameTail a b = true ↔ trimSlashes a = trimSlashes b := by
  fun_induction sameTail a b with
  | case1 a c b ih => rw [ih, trimSlashes_cons_inj]
  | case2 c a d b hne =>
    rw [decide_eq_true_iff, skipSlashes_eq_nil, skipSlashes_eq_nil]
    constructor
    · rintro ⟨ha, hb⟩
      rw [ha, hb]
    · intro h
      by_cases ha : trimSlashes (c :: a) = []
      · exact ⟨ha, h ▸ ha⟩
      · have hb : trimSlashes (d :: b) ≠ [] := h ▸ ha
        rw [trimSlashes_cons_of_ne ha, trimSlashes_cons_of_ne hb] at h
        exact absurd (cons.inj h).1 hne
  | case3 a b hcons =>
    rw [decide_eq_true_iff, skipSlashes_eq_nil, skipSlashes_eq_nil]
    -- One of the two is empty.
    constructor
    · rintro ⟨ha, hb⟩
      rw [ha, hb]
    · intro h
      rcases a with _ | ⟨c, a⟩
      · exact ⟨rfl, h.symm⟩
      · rcases b with _ | ⟨d, b⟩
        · exact ⟨h, rfl⟩
        · exact (hcons c a d b rfl rfl).elim

/-- `same` at its end: the policy's path, and slashes. -/
theorem sameTo_iff (a q : Path) (hq : trimSlashes q = q) : sameTo a q = true ↔ trimSlashes a = q := by
  fun_induction sameTo a q with
  | case1 c a d b ih =>
    have hne : trimSlashes (d :: b) ≠ [] := by
      rw [hq]
      exact cons_ne_nil _ _
    have hb : trimSlashes b = b := (cons.inj ((trimSlashes_cons_of_ne hne).symm.trans hq)).2
    rw [Bool.and_eq_true, decide_eq_true_iff, ih hb]
    constructor
    · rintro ⟨rfl, ha⟩
      rw [← hq]
      exact trimSlashes_cons_inj.2 (ha.trans hb.symm)
    · intro h
      have hca : trimSlashes (c :: a) ≠ [] := by
        rw [h]
        exact cons_ne_nil _ _
      exact cons.inj ((trimSlashes_cons_of_ne hca).symm.trans h)
  | case2 a => rw [decide_eq_true_iff, skipSlashes_eq_nil]
  | case3 d b => exact iff_of_false Bool.false_ne_true (cons_ne_nil d b).symm

/-! ### One policy for an entry -/

theorem stripDots_skipSlashes (p : Path) : stripDots (skipSlashes p) = stripDots p := by
  induction p with
  | nil => rfl
  | cons c a ih =>
    rw [skipSlashes, dropWhile_cons]
    by_cases hc : c = 47
    · subst hc
      exact ih
    · rw [if_neg (by simpa using hc)]

theorem stripDots_slashes (hb : trimSlashes b = []) : stripDots b = [] := by
  rw [← stripDots_skipSlashes, skipSlashes_eq_nil.2 hb]
  rfl

/-- Where `stripDots` stops. -/
theorem stripDots_cons (hc : c ≠ 47) (hdot : c = 46 → a.head? ≠ some 47) : stripDots (c :: a) = c :: a := by
  refine stripDots.eq_3 _ (fun b hb => hc (cons.inj hb).1) fun b hb => ?_
  obtain ⟨rfl, rfl⟩ := cons.inj hb
  exact hdot rfl rfl

/-- Slashes at the end matter to `stripDots` only if nothing or one dot stands
before them. -/
theorem trimSlashes_stripDots_append {q : Path} (hnil : q ≠ []) (hdot : q ≠ [46]) (a : Path)
    (hb : trimSlashes b = []) : trimSlashes (stripDots (a ++ b)) = q ↔ trimSlashes (stripDots a) = q := by
  fun_induction stripDots a with
  | case1 a ih => exact ih
  | case2 a ih => exact ih
  | case3 a hslash hdots =>
    rcases a with _ | ⟨c, _ | ⟨d, a⟩⟩
    · rw [nil_append, stripDots_slashes hb]
    · have hc : c ≠ 47 := fun hc => hslash [] (by rw [hc])
      rcases b with _ | ⟨d, b⟩
      · rw [append_nil, stripDots_cons hc fun _ => by simp]
      · obtain ⟨hb', rfl⟩ := trimSlashes_cons_eq_nil.1 hb
        by_cases hc46 : c = 46
        · -- A dot is stripped together with the first of the slashes.
          subst hc46
          have hstrip : stripDots ([46] ++ 47 :: b) = stripDots b := rfl
          rw [hstrip, stripDots_slashes hb']
          exact iff_of_false hnil.symm hdot.symm
        · rw [singleton_append, stripDots_cons hc fun h => absurd h hc46, ← singleton_append, trimSlashes_append _ hb]
    · have hc : c ≠ 47 := fun hc => hslash (d :: a) (by rw [hc])
      have hd : c = 46 → d ≠ 47 := fun hc hd => hdots a (by rw [hc, hd])
      rw [cons_append, stripDots_cons hc fun h => by simpa using hd h, ← cons_append, trimSlashes_append _ hb]

/-- The entries of the table are paths without slashes at the end. -/
theorem trimSlashes_policy : ∀ row ∈ policies, trimSlashes row.1 = row.1 ∧ row.1 ≠ [] ∧ row.1 ≠ [46] := by
  decide

/-- A policy is found alike for paths that differ in slashes at either end. -/
theorem same_congr {p p' : Path} (h : trimSlashes (skipSlashes p) = trimSlashes (skipSlashes p'))
    {row : Path × ℕ} (hrow : row ∈ policies) : same p row.1 = same p' row.1 := by
  obtain ⟨hq, hnil, hdot⟩ := trimSlashes_policy row hrow
  have hcore (p : Path) : same p row.1 = true ↔ trimSlashes (stripDots (trimSlashes (skipSlashes p))) = row.1 := by
    obtain ⟨b, hb, hp⟩ := exists_slashes (skipSlashes p)
    rw [same, sameTo_iff _ _ hq, ← stripDots_skipSlashes]
    nth_rewrite 1 [hp]
    exact trimSlashes_stripDots_append hnil hdot _ hb
  rw [Bool.eq_iff_iff, hcore, hcore, h]

/-- **The policy is one of the entry**, not of the way its path is written. -/
theorem ofpAllowed_congr {name p p' : Path} (h : pathEq name p = true) (h' : pathEq name p' = true)
    (auth : Auth.State) (op : ℕ) : ofpAllowed auth p op = ofpAllowed auth p' op := by
  have hp := ((sameTail_iff _ _).1 h).symm.trans ((sameTail_iff _ _).1 h')
  have hfind : (policies.find? fun row => same p row.1) = policies.find? fun row => same p' row.1 := by
      rw [← head?_filter, ← head?_filter, filter_congr fun row hrow => same_congr hp hrow]
  rw [ofpAllowed, ofpAllowed, hfind]

variable {auth : Auth.State} {p : Path}

/-- What may be written may be read: the table has no line with the one and
without the other. -/
theorem ofpRead_of_ofpWrite (h : ofpAllowed auth p ofpWrite = true) : ofpAllowed auth p ofpRead = true := by
  have hnone : ∀ row ∈ policies, row.2 &&& ofpWrite = 0 := by decide
  rw [ofpAllowed, Bool.or_eq_true] at h ⊢
  refine h.imp_right fun h => ?_
  cases hrow : policies.find? fun row => same p row.1 with
  | none => rfl
  | some row =>
    rw [hrow] at h
    exact absurd (hnone row (mem_of_find?_eq_some hrow)) (of_decide_eq_true h)

/-! ### Protected paths are in the archive -/

/-- The only path that may not be read. -/
theorem trimSlashes_of_refused (h : ofpAllowed auth p ofpRead = false) :
    trimSlashes (stripDots p) = chars ['e', 't', 'c', '/', 's', 'h', 'a', 'd', 'o', 'w'] := by
  have honly : ∀ row ∈ policies, row.2 &&& ofpRead = 0 →
      row.1 = chars ['e', 't', 'c', '/', 's', 'h', 'a', 'd', 'o', 'w'] := by decide
  rw [ofpAllowed, Bool.or_eq_false_iff] at h
  cases hrow : policies.find? fun row => same p row.1 with
  | none =>
    rw [hrow] at h
    exact absurd h.2 Bool.true_eq_false_eq_False
  | some row =>
    rw [hrow] at h
    have hmem := mem_of_find?_eq_some hrow
    have hsame : same p row.1 = true := by simpa using find?_some hrow
    rw [← honly row hmem (by simpa using h.2)]
    exact (sameTo_iff _ _ (trimSlashes_policy row hmem).1).1 hsame

section

variable {auth : Auth.State} {p : Path} (h : ofpAllowed auth p ofpRead = false)

include h

variable {x : UInt8}

/-- If a name follows the first slash, it begins with the letter `e`. -/
theorem second_of_refused (hp : p = 47 :: x :: a) (hslash : x ≠ 47) (hdot : x ≠ 46) : x = 101 := by
  have hstrip : stripDots p = x :: a := by
    rw [hp, stripDots, stripDots_cons hslash fun hx => absurd hx hdot]
  have htrim := trimSlashes_of_refused h
  rw [hstrip] at htrim
  have hne : trimSlashes (x :: a) ≠ [] := by
    rw [htrim]
    exact cons_ne_nil _ _
  rw [trimSlashes_cons_of_ne hne] at htrim
  exact (cons.inj htrim).1

/-- So it is in none of the other directories, -/
theorem not_starts_of_refused (a : Path) (hx : x ≠ 47 ∧ x ≠ 46 ∧ x ≠ 101) : Vfs.starts p (47 :: x :: a) = false := by
  rw [Bool.eq_false_iff]
  intro hstarts
  obtain ⟨b, rfl⟩ := isPrefixOf_iff_prefix.1 hstarts
  exact hx.2.2 (second_of_refused h rfl hx.1 hx.2.1)

theorem nativePath_of_refused : nativePath p = false := by
  have hvar : Vfs.starts p varPrefix = false := not_starts_of_refused h _ (by decide)
  have hroot : Vfs.starts p rootPrefix = false := not_starts_of_refused h _ (by decide)
  have hmnt : Vfs.starts p mntPrefix = false := not_starts_of_refused h _ (by decide)
  rw [nativePath, hvar, hroot, hmnt]
  rfl

theorem homePath_of_refused : homePath p = false := by
  have hhome : Vfs.starts p homePrefix = false := not_starts_of_refused h _ (by decide)
  have hmount : Vfs.starts p mountPrefix = false := not_starts_of_refused h _ (by decide)
  rw [homePath, hhome, hmount]
  rfl

/-- and it is none of the paths that are known by name. -/
theorem ne_of_refused {q : Path}
    (hq : q = [47] ∨ q = 47 :: q.getD 1 0 :: q.drop 2 ∧ q.getD 1 0 ≠ 47 ∧ q.getD 1 0 ≠ 46 ∧ q.getD 1 0 ≠ 101) :
    p ≠ q := by
  rintro rfl
  rcases hq with rfl | ⟨hp, hx⟩
  · exact absurd (trimSlashes_of_refused h) (by decide)
  · exact hx.2.2 (second_of_refused h hp hx.1 hx.2.1)

theorem statFixed_of_refused {R : Type} (env : Env R) (s : Vfs.State R) : statFixed env s p = none := by
  have htmp : Vfs.starts p tmpPrefix = false := not_starts_of_refused h _ (by decide)
  have hproc : Vfs.starts p procPrefix = false := not_starts_of_refused h _ (by decide)
  have hchar : p ∉ charDevices := fun hp => ne_of_refused h
    ((by decide : ∀ q ∈ charDevices, q = [47] ∨ q = 47 :: q.getD 1 0 :: q.drop 2 ∧
      q.getD 1 0 ≠ 47 ∧ q.getD 1 0 ≠ 46 ∧ q.getD 1 0 ≠ 101) p hp) rfl
  have hblock : p ∉ blockDevices := fun hp => ne_of_refused h
    ((by decide : ∀ q ∈ blockDevices, q = [47] ∨ q = 47 :: q.getD 1 0 :: q.drop 2 ∧
      q.getD 1 0 ≠ 47 ∧ q.getD 1 0 ≠ 46 ∧ q.getD 1 0 ≠ 101) p hp) rfl
  have hfixed : (fixedDirectories.find? fun row => row.1 = p) = none := by
    refine find?_eq_none.2 fun row hrow => ?_
    rw [decide_eq_true_iff]
    refine (ne_of_refused h ?_).symm
    revert row
    decide
  have hroot : p ≠ chars ['/', 'r', 'o', 'o', 't'] := ne_of_refused h (by decide)
  rw [statFixed, if_neg hchar, if_neg hblock, hfixed, htmp, hproc]
  exact if_neg hroot

end

/-! ### Reading them -/

section

variable {R : Type} (env : Env R) {s : Vfs.State R} {p : Path}

/-- Everybody has the permission to read a file of the archive. -/
theorem check_of_refused (h : ofpAllowed s.auth p ofpRead = false) {e : Entry} (he : fsFind s p = some e)
    (hfile : e.isDir = false) : vfsCheckPermission env s p accessRead = true := by
  have hpermits : permits s.auth 0o444 0 0 accessRead = true := by
    rw [permits]
    split_ifs <;> decide
  rw [check_eq, statFixed_of_refused h, statExt2, nativePath_of_refused h, statFat, homePath_of_refused h,
    he, Bool.or_eq_true]
  right
  change permits s.auth (if e.isDir then 0o555 else 0o444) 0 0 accessRead = true
  rw [hfile]
  exact hpermits

/-- **A protected path is one of the archive**: the reading is that of the entry,
or there is none. -/
theorem vfsRead_refused (h : ofpAllowed s.auth p ofpRead = false) (cap : ℕ) :
    vfsRead env s p cap = (s, readArchive s p cap) := by
  have htmp : Vfs.starts p tmpPrefix = false := not_starts_of_refused h _ (by decide)
  have hproc : Vfs.starts p procPrefix = false := not_starts_of_refused h _ (by decide)
  have hnull : ¬(p = dev ['n', 'u', 'l', 'l'] ∨ p = dev ['e', 'm', 'p', 't', 'y']) :=
    not_or.2 ⟨ne_of_refused h (by decide), ne_of_refused h (by decide)⟩
  have hzero : ¬(p = dev ['z', 'e', 'r', 'o'] ∨ p = dev ['f', 'u', 'l', 'l']) :=
    not_or.2 ⟨ne_of_refused h (by decide), ne_of_refused h (by decide)⟩
  have hrandom : ¬(p = dev ['r', 'a', 'n', 'd', 'o', 'm'] ∨ p = dev ['u', 'r', 'a', 'n', 'd', 'o', 'm']) :=
    not_or.2 ⟨ne_of_refused h (by decide), ne_of_refused h (by decide)⟩
  have hraw : vfsReadRaw env s p cap = (s, readArchive s p cap) := by
    rw [vfsReadRaw, if_neg hnull, if_neg hzero, if_neg hrandom, readFile, homePath_of_refused h,
      nativePath_of_refused h]
    rfl
  rw [vfsRead, hproc, htmp, hraw]
  -- Without the permission there is no regular file to read.
  by_cases hcheck : vfsCheckPermission env s p accessRead = true
  · rw [if_pos hcheck]
    rfl
  · rw [if_neg hcheck, readArchive]
    cases he : fsFind s p with
    | none => rfl
    | some e =>
      have hdir : e.isDir = true := by
        rw [← Bool.not_eq_false]
        exact fun hfile => hcheck (check_of_refused env h he hfile)
      exact (congrArg (Prod.mk s) (if_pos (.inl hdir))).symm

end

end OS64.Shell
