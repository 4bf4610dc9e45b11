import OS64.Vfs.Model

/-!
# Two names for one volume

`/home/x` and `/mnt/os64/x` are the same file, but `vfs_check_permission` does not
treat them alike. It takes the account that owns a file from the path, and behind
`/mnt/os64/` it begins to read two characters too late: the owner of
`/mnt/os64/zzalice/..` is `alice` (`homeOwner_mountPrefix`). Besides, an entry of
the archive can have the one name and not the other, and administrators may create
files below `/mnt/`.

`aliases_agree_iff` says exactly when the two answers are the same.
-/

namespace OS64.Vfs

open Text Auth

variable {R : Type} (env : Env R) (s : State R) (x : Path)

/-! ### The two prefixes -/

theorem rel_homePrefix : Fat.rel (homePrefix ++ x) = x := by
  cases x <;> rfl

theorem rel_mountPrefix : Fat.rel (mountPrefix ++ x) = x := by
  cases x <;> rfl

theorem lastComponent_cons_slash {a : Path} (h : (47 : UInt8) ∉ a) (b : Path) :
    lastComponent (a ++ 47 :: b) = lastComponent b := by
  rw [lastComponent, List.splitOn_append_cons_self_of_not_mem h, lastComponent]
  obtain ⟨c, cs, hcs⟩ := List.exists_cons_of_ne_nil (List.splitOn_ne_nil 47 b)
  rw [hcs]
  rfl

theorem lastComponent_homePrefix : lastComponent (homePrefix ++ x) = lastComponent x := by
  change lastComponent ([] ++ 47 :: (chars ['h', 'o', 'm', 'e'] ++ 47 :: x)) = _
  rw [lastComponent_cons_slash (by decide), lastComponent_cons_slash (by decide)]

theorem lastComponent_mountPrefix : lastComponent (mountPrefix ++ x) = lastComponent x := by
  change lastComponent ([] ++ 47 :: (chars ['m', 'n', 't'] ++ 47 :: (chars ['o', 's', '6', '4'] ++ 47 :: x))) = _
  rw [lastComponent_cons_slash (by decide), lastComponent_cons_slash (by decide), lastComponent_cons_slash (by decide)]

/-- **It is one volume**: both names find the same file. -/
theorem homeFind_mountPrefix (fat : Fat.State) : homeFind fat (mountPrefix ++ x) = homeFind fat (homePrefix ++ x) := by
  have hload : Fat.diskLoad fat (mountPrefix ++ x) = Fat.diskLoad fat (homePrefix ++ x) := by
    simp only [Fat.diskLoad, Fat.findEntry, Fat.parentDir, Fat.leafOf, Fat.directoriesOf,
      rel_homePrefix, rel_mountPrefix]
  rw [homeFind, homeFind, lastComponent_homePrefix, lastComponent_mountPrefix, hload]

theorem statFixed_homePrefix : statFixed env s (homePrefix ++ x) = none := by
  simp [statFixed, charDevices, blockDevices, fixedDirectories, dev, chars, homePrefix, starts, tmpPrefix, procPrefix]

theorem statFixed_mountPrefix : statFixed env s (mountPrefix ++ x) = none := by
  simp [statFixed, charDevices, blockDevices, fixedDirectories, dev, chars, mountPrefix, starts, tmpPrefix, procPrefix]

theorem statExt2_homePrefix : statExt2 s (homePrefix ++ x) = none := rfl

theorem statExt2_mountPrefix : statExt2 s (mountPrefix ++ x) = none := rfl

/-! ### The owner -/

theorem homeOwner_homePrefix : homeOwner env s (homePrefix ++ x) = ownerNamed s.auth x := rfl

/-- **Behind `/mnt/os64/` the owner is read two characters too late.** -/
theorem homeOwner_mountPrefix : homeOwner env s (mountPrefix ++ x) =
    ownerNamed s.auth ((x ++ 0 :: env.after (mountPrefix ++ x)).drop 2) := rfl

theorem mayCreate_homePrefix : mayCreate env s (homePrefix ++ x) =
    (ownerNamed s.auth x).elim false fun o => o.1 = authGetuid s.auth := by
  rw [mayCreate, homeOwner_homePrefix]
  cases ownerNamed s.auth x with
  | none =>
    have htmp : starts (homePrefix ++ x) tmpPrefix = false := rfl
    have hvarTmp : starts (homePrefix ++ x) varTmpPrefix = false := rfl
    have hvar : starts (homePrefix ++ x) varPrefix = false := rfl
    have hmnt : starts (homePrefix ++ x) mntPrefix = false := rfl
    have hlocal : starts (homePrefix ++ x) varLocalPrefix = false := rfl
    simp [htmp, hvarTmp, hvar, hmnt, hlocal]
  | some o => rfl

theorem mayCreate_mountPrefix : mayCreate env s (mountPrefix ++ x) =
    (ownerNamed s.auth ((x ++ 0 :: env.after (mountPrefix ++ x)).drop 2)).elim
      (decide (authCurrentRole s.auth = Role.admin)) fun o => o.1 = authGetuid s.auth := by
  rw [mayCreate, homeOwner_mountPrefix]
  cases ownerNamed s.auth ((x ++ 0 :: env.after (mountPrefix ++ x)).drop 2) with
  | none =>
    have htmp : starts (mountPrefix ++ x) tmpPrefix = false := rfl
    have hvarTmp : starts (mountPrefix ++ x) varTmpPrefix = false := rfl
    have hvar : starts (mountPrefix ++ x) varPrefix = false := rfl
    have hmnt : starts (mountPrefix ++ x) mntPrefix = true := rfl
    have hlocal : starts (mountPrefix ++ x) varLocalPrefix = false := rfl
    simp [htmp, hvarTmp, hvar, hmnt, hlocal]
  | some o => rfl

/-! ### The decision -/

/-- The mode of a file on the volume. -/
def volumeMode (isDir : Bool) : UInt16 := if isDir then 0o700 else 0o600

/-- The mode of an entry of the archive. -/
def archiveMode (e : Entry) : UInt16 := if e.isDir then 0o555 else 0o444

/-- The answer for a path on the volume, given its owner and what holds if there
is neither a file nor an owner. -/
def decision (p : Path) (owner : Option (UInt16 × UInt16)) (otherwise : Bool) (access : UInt32) : Bool :=
  match homeFind s.fat p with
  | some f => permits s.auth (volumeMode f.2) (owner.getD (0, 0)).1 (owner.getD (0, 0)).2 access
  | none =>
    match fsFind s p with
    | some e => permits s.auth (archiveMode e) 0 0 access
    | none => owner.elim otherwise fun o => o.1 = authGetuid s.auth

theorem check_eq_decision {p : Path} {otherwise : Bool} (hfixed : statFixed env s p = none)
    (hext2 : statExt2 s p = none) (hhome : homePath p = true)
    (hcreate : mayCreate env s p = (homeOwner env s p).elim otherwise fun o => o.1 = authGetuid s.auth)
    (access : UInt32) : vfsCheckPermission env s p access =
      (authIsRoot s.auth || decision s p (homeOwner env s p) otherwise access) := by
  rw [vfsCheckPermission, statRaw, hfixed, hext2, statFat, if_pos hhome, decision, hcreate]
  cases homeFind s.fat p with
  | some f => rfl
  | none =>
    rw [statArchive]
    cases fsFind s p with
    | some e => rfl
    | none => rfl

/-! ### Standings -/

/-- What the user is to a file. -/
inductive Standing where
  | owner
  | member
  | other
  deriving DecidableEq

/-- What the user is to the files of an account, of which the numbers are given. -/
def standing (t : Auth.State) (o : UInt16 × UInt16) : Standing :=
  if o.1 = authGetuid t then .owner
  else if o.2 = authGetgid t ∨ gidGroup o.2 &&& authGetgroups t ≠ 0 then .member else .other

/-- The bits of a mode that are compared. -/
def Standing.bits (mode : UInt16) : Standing → UInt16
  | .owner => mode >>> 6
  | .member => mode >>> 3
  | .other => mode

/-- All of `access` is among the bits of the mode for this standing. -/
def Standing.Has (st : Standing) (mode : UInt16) (access : UInt32) : Prop := (st.bits mode).toUInt32 &&& access = access

theorem permits_iff (t : Auth.State) (mode : UInt16) (o : UInt16 × UInt16) (access : UInt32) :
    permits t mode o.1 o.2 access = true ↔ (standing t o).Has mode access := by
  rw [permits, Standing.Has, decide_eq_true_iff, standing]
  split_ifs with h₁ h₂
  · rw [Standing.bits]
  · rw [Standing.bits]
  · rw [Standing.bits]

/-- Of a file on the volume two standings have no bit in common. -/
theorem Standing.eq_of_has {st st' : Standing} {isDir : Bool} {access : UInt32} (h : st.Has (volumeMode isDir) access)
    (h' : st'.Has (volumeMode isDir) access) (hne : st ≠ st') : access = 0 := by
  have hbits : (st.bits (volumeMode isDir)).toUInt32 &&& (st'.bits (volumeMode isDir)).toUInt32 = 0 := by
    cases isDir <;> cases st <;> cases st' <;> first | exact absurd rfl hne | decide
  rw [Standing.Has] at h h'
  rw [← h, ← h', ← UInt32.and_assoc, hbits, UInt32.zero_and]

/-- **Two standings to one file on the volume** get the same answer where nothing is asked for, where they are the same,
and where neither has what is asked for. -/
theorem Standing.has_iff {st st' : Standing} {isDir : Bool} {access : UInt32} :
    (st.Has (volumeMode isDir) access ↔ st'.Has (volumeMode isDir) access) ↔
      access = 0 ∨ st = st' ∨ (¬st.Has (volumeMode isDir) access ∧ ¬st'.Has (volumeMode isDir) access) := by
  constructor
  · intro hiff
    by_cases hhas : st.Has (volumeMode isDir) access
    · by_cases hst : st = st'
      · exact .inr (.inl hst)
      · exact .inl (Standing.eq_of_has hhas (hiff.mp hhas) hst)
    · exact .inr (.inr ⟨hhas, fun h => hhas (hiff.mpr h)⟩)
  · rintro (rfl | rfl | ⟨hno, hno'⟩)
    · exact iff_of_true UInt32.and_zero UInt32.and_zero
    · exact Iff.rfl
    · exact iff_of_false hno hno'

/-- The bits of a file of the archive are among those of a directory. -/
theorem Standing.has_directory {st : Standing} {access : UInt32} (h : st.Has 0o444 access) : st.Has 0o555 access := by
  have hbits : (st.bits 0o555).toUInt32 &&& (st.bits 0o444).toUInt32 = (st.bits 0o444).toUInt32 := by
    cases st <;> decide
  rw [Standing.Has] at h ⊢
  rw [← h, ← UInt32.and_assoc, hbits]

/-! ### When the answers are the same -/

/-- The account that a name begins with is the user's. -/
def OwnName (t : Auth.State) (u : List UInt8) : Prop := ∃ o, ownerNamed t u = some o ∧ o.1 = authGetuid t

/-- The user may make a file below `/mnt/os64/`, whose account is read from `u`. -/
def MayMake (t : Auth.State) (u : List UInt8) : Prop :=
  OwnName t u ∨ ownerNamed t u = none ∧ authCurrentRole t = Role.admin

theorem elim_iff (t : Auth.State) (u : List UInt8) (otherwise : Bool) :
    ((ownerNamed t u).elim otherwise fun o => decide (o.1 = authGetuid t)) = true ↔
      OwnName t u ∨ ownerNamed t u = none ∧ otherwise = true := by
  rw [OwnName]
  cases ownerNamed t u with
  | none => simp
  | some o => simp

/-- **The two names of `x` are treated alike.** Two accounts matter, that which `x` begins with and that which it begins
with two characters later.

* On the volume, the user is the same to the files of both (to those of number 0 where there is no account), unless
  nothing is asked for, or what the user has in neither standing.
* In the archive, both names are files or both are directories, unless what is asked for is had in both cases or in none.
* If one name only is in the archive, what is asked for is had there exactly if the other name may be made.
* If none is, the user owns the name exactly if they may make the other one. -/
structure Agree (access : UInt32) : Prop where
  onVolume : ∀ f, homeFind s.fat (homePrefix ++ x) = some f →
    let st := standing s.auth ((ownerNamed s.auth x).getD (0, 0))
    let st' := standing s.auth ((ownerNamed s.auth ((x ++ 0 :: env.after (mountPrefix ++ x)).drop 2)).getD (0, 0))
    access = 0 ∨ st = st' ∨ (¬st.Has (volumeMode f.2) access ∧ ¬st'.Has (volumeMode f.2) access)
  inArchive : homeFind s.fat (homePrefix ++ x) = none → ∀ e e', fsFind s (homePrefix ++ x) = some e →
    fsFind s (mountPrefix ++ x) = some e' → e.isDir = e'.isDir ∨
      ((standing s.auth (0, 0)).Has 0o555 access → (standing s.auth (0, 0)).Has 0o444 access)
  atHome : homeFind s.fat (homePrefix ++ x) = none → ∀ e, fsFind s (homePrefix ++ x) = some e →
    fsFind s (mountPrefix ++ x) = none → ((standing s.auth (0, 0)).Has (archiveMode e) access ↔
      MayMake s.auth ((x ++ 0 :: env.after (mountPrefix ++ x)).drop 2))
  atMount : homeFind s.fat (homePrefix ++ x) = none → fsFind s (homePrefix ++ x) = none →
    ∀ e, fsFind s (mountPrefix ++ x) = some e → (OwnName s.auth x ↔ (standing s.auth (0, 0)).Has (archiveMode e) access)
  nowhere : homeFind s.fat (homePrefix ++ x) = none → fsFind s (homePrefix ++ x) = none →
    fsFind s (mountPrefix ++ x) = none → (OwnName s.auth x ↔
      MayMake s.auth ((x ++ 0 :: env.after (mountPrefix ++ x)).drop 2))

/-- **When the two names get the same answer**: for `root`, and where the account read
two characters later makes no difference. -/
theorem aliases_agree_iff (access : UInt32) :
    vfsCheckPermission env s (homePrefix ++ x) access = vfsCheckPermission env s (mountPrefix ++ x) access ↔
      authIsRoot s.auth = true ∨ Agree env s x access := by
  rw [check_eq_decision env s (statFixed_homePrefix env s x) (statExt2_homePrefix s x) rfl
      (mayCreate_homePrefix env s x), check_eq_decision env s (statFixed_mountPrefix env s x)
      (statExt2_mountPrefix s x) rfl (mayCreate_mountPrefix env s x), homeOwner_homePrefix,
    homeOwner_mountPrefix]
  cases authIsRoot s.auth with
  | true => simp
  | false =>
    rw [Bool.false_or, Bool.false_or, decision, decision, homeFind_mountPrefix]
    simp only [Bool.false_eq_true, false_or]
    have hown := elim_iff s.auth x false
    have hmake := elim_iff s.auth ((x ++ 0 :: env.after (mountPrefix ++ x)).drop 2)
      (decide (authCurrentRole s.auth = Role.admin))
    rw [decide_eq_true_iff, ← MayMake] at hmake
    simp only [Bool.false_eq_true, and_false, or_false] at hown
    rcases hvolume : homeFind s.fat (homePrefix ++ x) with _ | f
    · rcases hhome : fsFind s (homePrefix ++ x) with _ | e
      · rcases hmount : fsFind s (mountPrefix ++ x) with _ | e'
        · rw [Bool.eq_iff_iff, hown, hmake]
          refine ⟨fun h => ⟨?_, ?_, ?_, ?_, fun _ _ _ => h⟩, fun h => h.nowhere hvolume hhome hmount⟩
          all_goals simp [hvolume, hhome, hmount]
        · rw [Bool.eq_iff_iff, hown, permits_iff s.auth _ (0, 0)]
          refine ⟨fun h => ⟨?_, ?_, ?_, ?_, ?_⟩, fun h => h.atMount hvolume hhome e' hmount⟩
          case refine_4 =>
            intro _ _ e₁ he₁
            rw [← Option.some.inj (hmount.symm.trans he₁)]
            exact h
          all_goals simp [hvolume, hhome, hmount]
      · rcases hmount : fsFind s (mountPrefix ++ x) with _ | e'
        · rw [Bool.eq_iff_iff, hmake, permits_iff s.auth _ (0, 0)]
          refine ⟨fun h => ⟨?_, ?_, ?_, ?_, ?_⟩, fun h => h.atHome hvolume e hhome hmount⟩
          case refine_3 =>
            intro _ e₁ he₁ _
            rw [← Option.some.inj (hhome.symm.trans he₁)]
            exact h
          all_goals simp [hvolume, hhome, hmount]
        · rw [Bool.eq_iff_iff, permits_iff s.auth _ (0, 0), permits_iff s.auth _ (0, 0)]
          have hmodes : ((standing s.auth (0, 0)).Has (archiveMode e) access ↔
              (standing s.auth (0, 0)).Has (archiveMode e') access) ↔ e.isDir = e'.isDir ∨
                ((standing s.auth (0, 0)).Has 0o555 access → (standing s.auth (0, 0)).Has 0o444 access) := by
            have hsub := @Standing.has_directory (standing s.auth (0, 0)) access
            rw [archiveMode, archiveMode]
            cases e.isDir <;> cases e'.isDir
            · simp
            · simp only [Bool.false_eq_true, if_false, if_true, false_or]
              exact ⟨Iff.mpr, fun h => ⟨hsub, h⟩⟩
            · simp only [Bool.false_eq_true, if_false, if_true]
              exact ⟨fun h => .inr h.mp, fun h => ⟨h.resolve_left (by decide), hsub⟩⟩
            · simp
          rw [hmodes]
          refine ⟨fun h => ⟨?_, ?_, ?_, ?_, ?_⟩, fun h => h.inArchive hvolume e e' hhome hmount⟩
          case refine_2 =>
            intro _ e₁ e₂ he₁ he₂
            rw [← Option.some.inj (hhome.symm.trans he₁), ← Option.some.inj (hmount.symm.trans he₂)]
            exact h
          all_goals simp [hvolume, hhome, hmount]
    · rw [Bool.eq_iff_iff, permits_iff, permits_iff, Standing.has_iff]
      refine ⟨fun h => ⟨?_, ?_, ?_, ?_, ?_⟩, fun h => h.onVolume f hvolume⟩
      case refine_1 =>
        intro f₁ hf₁
        rw [← Option.some.inj (hvolume.symm.trans hf₁)]
        exact h
      all_goals simp [hvolume]

/-- The session of `alice`, with no volume mounted and an empty archive. -/
def aliceAlone : State Unit where
  auth := sessionOf aliceName
  fat := Fat.State.initial fun _ => Fat.zero
  ext2 := ⟨fun _ => Fat.zero, 0, 0, false⟩
  nodes := List.replicate 32 none
  files := []
  pool := ()
  shared := rfl
  nodes_length := List.length_replicate

/-- Nothing behind the paths, nothing in `/proc`, and no random bytes. -/
def quietEnv : Env Unit where
  after _ := []
  procText _ := none
  randomRead _ _ := (false, [], ())
  randomMix _ _ := (false, ())

/-- `alice` may not create `/home/zzalice/new`, but `/mnt/os64/zzalice/new`. -/
theorem alice_owns_zzalice :
    authIsRoot aliceAlone.auth = false ∧
      vfsCheckPermission quietEnv aliceAlone
        (homePrefix ++ chars ['z', 'z', 'a', 'l', 'i', 'c', 'e', '/', 'n', 'e', 'w']) accessWrite = false ∧
      vfsCheckPermission quietEnv aliceAlone
        (mountPrefix ++ chars ['z', 'z', 'a', 'l', 'i', 'c', 'e', '/', 'n', 'e', 'w']) accessWrite = true := by
  decide +kernel

end OS64.Vfs
