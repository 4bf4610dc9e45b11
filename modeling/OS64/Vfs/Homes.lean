import OS64.Fat.Reachable
import OS64.Fat.Subtrees
import OS64.Shell.Model
import OS64.Vfs.Aliases

/-!
# The home directories

The files of a user are below `/home/` and the name of the user. Who may use a file
there is decided by the name in the path (`home_owner`); which file it is is decided
by the driver, and that makes a name of eight capital letters of it. What one user
does in their own home directory leaves the files of another alone
(`OS64.Vfs.Apart`) exactly if the first eight characters of the two names differ
(`OS64.Vfs.homes_apart_iff`). Otherwise they have one directory, and each of them is
its owner.

For the one direction, what is below two names of the root directory is disjoint.
For the other, the calls of a user in their own home are never refused
(`OS64.Vfs.check_own_file`).
-/

namespace OS64.Vfs

open List Text Auth Shell
open Fat (rel leafOf name83 pad upper diskStore target call)

/-! ### Paths of a home directory -/

/-- `/home/`, the name of a user, and the rest. -/
def homeOf (u f : Path) : Path := homePrefix ++ (u ++ 47 :: f)

variable {u v : Path} {c : UInt8}

section

variable (hu : validUsername u = true)
include hu

theorem notMem_of_valid (hc : isNameChar c = false) : c ∉ u := by
  intro hmem
  have hall : u.all isNameChar = true := by
    rw [validUsername, decide_eq_true_eq] at hu
    exact hu.1
  rw [all_eq_true.mp hall c hmem] at hc
  exact Bool.noConfusion hc

theorem length_of_valid : 3 ≤ u.length ∧ u.length ≤ 15 := by
  rw [validUsername, decide_eq_true_eq] at hu
  exact ⟨hu.2.2, hu.2.1⟩

theorem ne_nil_of_valid : u ≠ [] := by
  rintro rfl
  exact absurd (length_of_valid hu).1 (by decide)

theorem splitOn_homeOf (f : Path) : (rel (homeOf u f)).splitOn 47 = u :: f.splitOn 47 := by
  rw [homeOf, rel_homePrefix, splitOn_append_cons_self_of_not_mem (notMem_of_valid hu rfl)]

/-- The directories on the path: that of the user, and those of the rest. -/
theorem directoriesOf_homeOf (f : Path) :
    Fat.directoriesOf (homeOf u f) = u :: ((f.splitOn 47).dropLast.filter (· ≠ [])) := by
  rw [Fat.directoriesOf, splitOn_homeOf hu, dropLast_cons_of_ne_nil (splitOn_ne_nil 47 f),
    filter_cons_of_pos (by simpa using ne_nil_of_valid hu)]

theorem leafOf_homeOf (f : Path) : leafOf (homeOf u f) = (f.splitOn 47).getLastD [] := by
  obtain ⟨c, cs, hcs⟩ := exists_cons_of_ne_nil (splitOn_ne_nil 47 f)
  rw [leafOf, splitOn_homeOf hu, hcs]
  rfl

theorem begins_homeOf (f : Path) : Fat.Begins u (homeOf u f) := ⟨_, directoriesOf_homeOf hu f⟩

end

theorem zero_notMem_homeOf {u f : Path} (hu : validUsername u = true) (hf : 0 ∉ f) : 0 ∉ homeOf u f := by
  intro h
  rcases mem_append.mp h with h | h
  · exact absurd h (by decide)
  rcases mem_append.mp h with h | h
  · exact notMem_of_valid hu rfl h
  rcases mem_cons.mp h with h | h
  · cases h
  · exact hf h

/-! ### The names in the directory -/

theorem rel_of_head_ne {n : Path} (h : (47 : UInt8) ∉ n) : rel n = n := by
  cases n with
  | nil => rfl
  | cons c n =>
    have hc : c ≠ 47 := fun hc => h (hc ▸ mem_cons_self)
    rw [rel, if_neg fun h => hc h.1]
    exact if_neg hc

theorem name83_of_valid (hu : validUsername u = true) :
    name83 (u.take 12) = pad 8 ((u.take 8).map upper) ++ pad 3 [] := by
  have hslash : (47 : UInt8) ∉ u.take 12 := fun h => notMem_of_valid hu rfl (mem_of_mem_take h)
  have hdot : (46 : UInt8) ∉ u.take 12 := fun h => notMem_of_valid hu rfl (mem_of_mem_take h)
  have hbase : (u.take 12).takeWhile (fun c => c ≠ 46 ∧ c ≠ 47) = u.take 12 := by
    refine takeWhile_eq_self_iff.mpr fun c hc => ?_
    rw [decide_eq_true_eq]
    constructor
    · rintro rfl
      exact hdot hc
    · rintro rfl
      exact hslash hc
  have hextension : ∀ k, ((u.take 12).drop k).dropWhile (fun c => c ≠ 46) = [] := by
    intro k
    refine dropWhile_eq_nil_iff.mpr fun c hc => ?_
    rw [decide_eq_true_eq]
    rintro rfl
    exact hdot (mem_of_mem_drop hc)
  rw [name83, rel_of_head_ne hslash]
  simp only [hbase, hextension, take_take]
  rfl

/-- Capital letters made small. -/
def lower (c : UInt8) : UInt8 := if 65 ≤ c ∧ c ≤ 90 then c + 32 else c

theorem lower_upper (h : isNameChar c = true) : lower (upper c) = c ∧ upper c ≠ 32 := by
  have hall : ∀ n < 256, isNameChar (UInt8.ofNat n) = true →
      lower (upper (UInt8.ofNat n)) = UInt8.ofNat n ∧ upper (UInt8.ofNat n) ≠ 32 := by
    decide +kernel
  have hc := hall c.toNat c.toNat_lt
  rw [UInt8.ofNat_toNat] at hc
  exact hc h

/-- What stands before the blanks. -/
theorem takeWhile_pad {l : Path} (h : ∀ c ∈ l, c ≠ 32) (k : ℕ) (rest : Path) :
    (pad k l ++ 32 :: rest).takeWhile (· != 32) = l := by
  rw [pad, append_assoc, takeWhile_append_of_pos (by simpa using h)]
  cases k - l.length with
  | zero => simp
  | succ n => simp [replicate_succ]

theorem take_of_name83 (hu : validUsername u = true) :
    u.take 8 = ((name83 (u.take 12)).takeWhile (· != 32)).map lower := by
  have hchar : ∀ c ∈ u.take 8, isNameChar c = true := by
    intro c hc
    by_contra hne
    exact notMem_of_valid hu (Bool.eq_false_of_not_eq_true hne) (mem_of_mem_take hc)
  have hupper : ∀ c ∈ (u.take 8).map upper, c ≠ 32 := by
    intro c hc
    obtain ⟨c', hc', rfl⟩ := mem_map.mp hc
    exact (lower_upper (hchar c' hc')).2
  rw [name83_of_valid hu, show pad 3 [] = 32 :: [32, 32] from rfl, takeWhile_pad hupper, map_map]
  conv_lhs => rw [← map_id (u.take 8)]
  exact map_congr_left fun c hc => (lower_upper (hchar c hc)).1.symm

/-- **Two users have the same key** if the first eight characters are the same, and
only then. -/
theorem name83_eq_iff (hu : validUsername u = true) (hv : validUsername v = true) :
    name83 (u.take 12) = name83 (v.take 12) ↔ u.take 8 = v.take 8 := by
  constructor
  · intro h
    rw [take_of_name83 hu, take_of_name83 hv, h]
  · intro h
    rw [name83_of_valid hu, name83_of_valid hv, h]

/-! ### A session in its own home -/

/-- The session is that of `v`. -/
def InSession (t : Auth.State) (v : Path) : Prop := authLookup t v = some (authGetuid t, authGetgid t)

section

variable {R : Type} (env : Env R) {s : State R} {v rest : Path}

theorem homeOwner_homeOf (hv : validUsername v = true) (hrest : 0 ∉ rest) :
    homeOwner env s (homeOf v rest) = authLookup s.auth v := by
  have hzero : 0 ∉ v ++ 47 :: rest := fun h => zero_notMem_homeOf hv hrest (mem_append_right _ h)
  have huser : (v ++ 47 :: rest).takeWhile (· != 47) = v := by
    rw [takeWhile_append_of_pos fun c hc => ?_]
    · simp
    · rw [bne_iff_ne]
      rintro rfl
      exact notMem_of_valid hv rfl hc
  rw [homeOf, homeOwner_homePrefix, ownerNamed, cstr_eq_self hzero, huser, take_of_length_le (length_of_valid hv).2]
  exact if_neg (ne_nil_of_valid hv)

/-- What `vfs_check_permission` says of a path in the home of the session. -/
theorem check_homeOf (hv : validUsername v = true) (hrest : 0 ∉ rest) (hsession : InSession s.auth v)
    (access : UInt32) : vfsCheckPermission env s (homeOf v rest) access =
      (authIsRoot s.auth || decision s (homeOf v rest) (some (authGetuid s.auth, authGetgid s.auth))
        false access) := by
  have howner := homeOwner_homeOf env (s := s) hv hrest
  rw [homeOf, check_eq_decision env s (statFixed_homePrefix env s _) (statExt2_homePrefix s _) rfl
    (mayCreate_homePrefix env s _), ← homeOf, howner, hsession]

theorem permits_owner (t : Auth.State) (isDir : Bool) (gid : UInt16) {access : UInt32}
    (haccess : access = accessRead ∨ access = accessWrite) :
    permits t (volumeMode isDir) (authGetuid t) gid access = true := by
  rw [permits]
  simp only [if_true]
  rcases haccess with rfl | rfl <;> cases isDir <;> decide

theorem permits_archive (t : Auth.State) (e : Entry) : permits t (archiveMode e) 0 0 accessRead = true := by
  rw [permits, archiveMode]
  split <;> split
  · decide
  · decide
  · split <;> decide
  · split <;> decide

/-- **A user may read whatever is in their home.** -/
theorem check_own_read (hv : validUsername v = true) (hrest : 0 ∉ rest) (hsession : InSession s.auth v) :
    vfsCheckPermission env s (homeOf v rest) accessRead = true := by
  rw [check_homeOf env hv hrest hsession, decision, Bool.or_eq_true]
  right
  cases homeFind s.fat (homeOf v rest) with
  | some f => exact permits_owner s.auth f.2 _ (.inl rfl)
  | none =>
    cases fsFind s (homeOf v rest) with
    | some e => exact permits_archive s.auth e
    | none => exact decide_eq_true rfl

/-- **A user may write a file that is in their home.** -/
theorem check_own_file (hv : validUsername v = true) (hrest : 0 ∉ rest) (hsession : InSession s.auth v)
    (hfile : homeFind s.fat (homeOf v rest) ≠ none) :
    vfsCheckPermission env s (homeOf v rest) accessWrite = true := by
  obtain ⟨f, hf⟩ := Option.ne_none_iff_exists'.mp hfile
  rw [check_homeOf env hv hrest hsession, decision, hf, Bool.or_eq_true]
  exact .inr (permits_owner s.auth f.2 _ (.inr rfl))

/-! ### The calls -/

/-- What a reader sees: the bytes that have been read, and the number. -/
def shown (r : Option Reading) : Option (List UInt8 × ℕ) := r.map fun r => (r.data.take r.n, r.n)

theorem homeOf_ne_dev (v rest : Path) (name : List Char) : homeOf v rest ≠ dev name := by
  intro h
  have hsecond := congrArg (fun l : Path => l.getD 1 0) h
  exact absurd hsecond (by decide : (104 : UInt8) ≠ 100)

theorem shown_vfsRead (hv : validUsername v = true) (hrest : 0 ∉ rest) (hsession : InSession s.auth v)
    (cap : ℕ) : shown (vfsRead env s (homeOf v rest) cap).2 = if cap < 512 then none
      else (Fat.contents s.fat (homeOf v rest)).map fun c => (c.2.take 512, c.1) := by
  have hproc : starts (homeOf v rest) procPrefix = false := rfl
  have htmp : starts (homeOf v rest) tmpPrefix = false := rfl
  have hhome : homePath (homeOf v rest) = true := rfl
  have hdev := homeOf_ne_dev v rest
  rw [vfsRead, if_pos (check_own_read env hv hrest hsession), hproc, htmp, if_neg Bool.false_ne_true,
    if_neg Bool.false_ne_true, vfsReadRaw, if_neg (by simp [hdev]), if_neg (by simp [hdev]),
    if_neg (by simp [hdev]), readFile, if_pos hhome]
  split
  · rfl
  · rw [Fat.contents]
    cases Fat.diskLoad s.fat (homeOf v rest) with
    | none => rfl
    | some f =>
      simp only [shown, Option.map_some, Option.some.injEq, Prod.mk.injEq, and_true]
      rw [ByteMem.take_bytes, ByteMem.take_bytes, min_comm]

theorem fat_vfsWrite (d : List UInt8) :
    (vfsWrite env s (homeOf v rest) d).1.fat = s.fat ∨ (vfsWrite env s (homeOf v rest) d).1.fat =
      (diskStore s.fat (homeOf v rest) (fun i => d.getD i 0) d.length).1 := by
  have htmp : starts (homeOf v rest) tmpPrefix = false := rfl
  have hhome : homePath (homeOf v rest) = true := rfl
  have hdev := homeOf_ne_dev v rest
  rw [vfsWrite, htmp]
  split
  · rw [if_neg Bool.false_ne_true, vfsWriteRaw, if_neg (hdev _), if_neg (by simp [hdev]),
      if_neg (by simp [hdev]), writeFile, if_pos hhome]
    split
    · right
      split
      · rename_i hstore
        rw [hstore]
        rfl
      · rename_i hstore
        rw [hstore]
        rfl
    · exact .inl rfl
  · exact .inl rfl

theorem fat_vfsRemove : (vfsRemove env s (homeOf v rest)).1.fat =
    if vfsCheckPermission env s (homeOf v rest) accessWrite = true then
      (Fat.diskRemove s.fat (homeOf v rest)).1
    else s.fat := by
  have htmp : starts (homeOf v rest) tmpPrefix = false := rfl
  have hhome : homePath (homeOf v rest) = true := rfl
  rw [vfsRemove, htmp, hhome]
  split
  · rfl
  · rfl

/-! ### Two homes -/

variable (s)

/-- The calls for the path `p` have nothing to do with the file `x`: what is read does
not depend on what is stored in it, and writing and removing leave it as it is. -/
structure Apart (x p : Path) : Prop where
  read : ∀ (d : ℕ → UInt8) (size cap : ℕ),
    shown (vfsRead env (s.putFat (Fat.diskStore s.fat x d size).1) p cap).2 =
      shown (vfsRead env s p cap).2
  write : ∀ d, Fat.contents (vfsWrite env s p d).1.fat x = Fat.contents s.fat x
  remove : Fat.contents (vfsRemove env s p).1.fat x = Fat.contents s.fat x

variable {s} {u f : Path}

variable {D : Set ℕ}

/-- A call of `disk_store` below one name of the root leaves the files below another
as they are. -/
theorem contents_diskStore_of_ne {fat : Fat.State} (h : Fat.Inv fat D) {c c' p x : Path}
    (hp : Fat.Begins c p) (hx : Fat.Begins c' x)
    (hne : name83 (c.take 12) ≠ name83 (c'.take 12)) (hzero : 0 ∉ p) (d : ℕ → UInt8)
    (size : ℕ) : Fat.contents (diskStore fat p d size).1 x = Fat.contents fat x := by
  rcases hres : diskStore fat p d size with ⟨fat', ok⟩
  obtain ⟨D', h', -⟩ := h.safe.diskStore hzero d size
  rw [hres] at h'
  rcases h.safe.diskStore_touches hzero hres with ⟨rfl, -⟩ | ⟨a, -, hparent, htouches, -⟩
  · rfl
  · have ht : target fat p = some (a, name83 (leafOf p)) := by
      rw [target, hparent]
      rfl
    exact htouches.contents h h' (h.target_ne hp hx hne ht)

theorem apart_of_ne (hu : validUsername u = true) (hv : validUsername v = true) (hf : 0 ∉ f)
    (hrest : 0 ∉ rest) (hinv : Fat.Inv s.fat D) (hsession : InSession s.auth v)
    (hne : u.take 8 ≠ v.take 8) : Apart env s (homeOf u f) (homeOf v rest) := by
  have hkey : name83 (u.take 12) ≠ name83 (v.take 12) := fun h => hne ((name83_eq_iff hu hv).mp h)
  have hx := begins_homeOf hu f
  have hp := begins_homeOf hv rest
  refine ⟨fun d size cap => ?_, fun d => ?_, ?_⟩
  · have hsame := contents_diskStore_of_ne hinv hx hp hkey (zero_notMem_homeOf hu hf) d size
    generalize (diskStore s.fat (homeOf u f) d size).1 = fat at hsame
    have hsession' : InSession (s.putFat fat).auth v := hsession
    rw [shown_vfsRead env hv hrest hsession, shown_vfsRead env hv hrest hsession',
      show (s.putFat fat).fat = fat from rfl, hsame]
  · have hwrite : (vfsWrite env s (homeOf v rest) d).1.fat = s.fat ∨ _ := fat_vfsWrite env d
    rcases hwrite with hfat | hfat
    · rw [hfat]
    · rw [hfat, contents_diskStore_of_ne hinv hp hx hkey.symm (zero_notMem_homeOf hv hrest)]
  · rw [fat_vfsRemove]
    split
    · rcases hres : Fat.diskRemove s.fat (homeOf v rest) with ⟨fat', ok⟩
      obtain ⟨D', hsafe, -⟩ := hinv.safe.diskRemove (homeOf v rest)
      rw [hres] at hsafe
      rcases hinv.safe.diskRemove_removed hres with ⟨rfl, -⟩ | ⟨-, d, i, e, hparent, -, hr⟩
      · rfl
      · refine hr.contents hinv hsafe hp hx hkey.symm (k := name83 (leafOf (homeOf v rest))) ?_
        rw [target, hparent]
        rfl
    · rfl

/-- With one directory for both, `v` can remove the file of `u`. -/
theorem contents_vfsRemove_of_eq (hu : validUsername u = true) (hv : validUsername v = true)
    (hf : 0 ∉ f) (hinv : Fat.Inv s.fat D) (hsession : InSession s.auth v)
    (hfile : Fat.contents s.fat (homeOf u f) ≠ none) (heq : u.take 8 = v.take 8) :
    Fat.contents (vfsRemove env s (homeOf v f)).1.fat (homeOf u f) = none := by
  have hdirs : Fat.directories (homeOf u f) = Fat.directories (homeOf v f) := by
    rw [Fat.directories, Fat.directories, directoriesOf_homeOf hu, directoriesOf_homeOf hv,
      map_cons, map_cons, (name83_eq_iff hu hv).mpr heq]
  have hleaf : leafOf (homeOf u f) = leafOf (homeOf v f) := by
    rw [leafOf_homeOf hu, leafOf_homeOf hv]
  have hfile' : Fat.contents s.fat (homeOf v f) ≠ none := hinv.safe.contents_congr hdirs hleaf ▸ hfile
  have hfind : homeFind s.fat (homeOf v f) ≠ none := by
    rw [homeFind]
    split
    · simp
    · intro hnone
      rw [Fat.contents, Option.map_eq_none_iff.mp hnone] at hfile'
      exact hfile' rfl
  rw [fat_vfsRemove, if_pos (check_own_file env hv hf hsession hfind)]
  obtain ⟨D', hinv', hgone⟩ := hinv.diskRemove_of_contents hfile'
  rw [hinv'.contents_congr hdirs hleaf, hgone]

/-- **When homes are separate.** A file of `u` in their home is out of reach of the
calls of `v`, for all paths in the home of `v`, exactly if the first eight
characters of the names differ. -/
theorem homes_apart_iff (env : Env R) (s : State R) {u v f : Path} (hu : validUsername u = true)
    (hv : validUsername v = true) (hf : 0 ∉ f) (hvolume : ∃ D, Fat.Inv s.fat D)
    (hsession : InSession s.auth v) (hfile : Fat.contents s.fat (homeOf u f) ≠ none) :
    (∀ rest, 0 ∉ rest → Apart env s (homeOf u f) (homeOf v rest)) ↔ u.take 8 ≠ v.take 8 := by
  obtain ⟨D, hinv⟩ := hvolume
  constructor
  · intro h heq
    have hgone := contents_vfsRemove_of_eq env hu hv hf hinv hsession hfile heq
    rw [(h f hf).remove] at hgone
    exact hfile hgone
  · intro hne rest hrest
    exact apart_of_ne env hu hv hf hrest hinv hsession hne

end

theorem contents_diskCreate_ne_none {fat : Fat.State} {g : Prop} (h : Fat.Safe fat D g) {n q : Path} (hn : 0 ∉ n)
    {type : UInt8} (ht : type ≠ 0) (hq : Fat.contents fat q ≠ none) : Fat.contents (Fat.diskCreate fat n type).1 q ≠ none := by
  rcases h.diskCreate_directory n ht with ⟨ok, hres, -⟩ | ⟨fat', d, i, c, hres, hnew⟩
  · rw [hres]
    exact hq
  have hmade := hnew.made h hn
  obtain ⟨D', h', horderly⟩ := hnew.kept hn
  rw [hres]
  rw [h.contents_eq] at hq
  rw [h'.contents_eq, horderly.mounted]
  split_ifs at hq ⊢ with hmounted
  swap
  · exact hq
  rcases htarget : target fat q with _ | ⟨d', k⟩
  · rw [htarget] at hq
    exact absurd rfl hq
  obtain ⟨hd', rfl, hparent⟩ := h.target_eq_some htarget
  have hleaf : leafOf q ≠ [] := fun hnil => by
    rw [h.parentDir_eq, if_pos hnil] at hparent
    cases hparent
  -- the way to the entry is as before, and so is the entry
  have htarget' : target fat' q = some (d', name83 (leafOf q)) := by
    rw [target, h'.parentDir_eq, if_neg hleaf, Fat.directories,
      hmade.walk h _ h.sound.root (h.walk_of_target htarget)]
    rfl
  rw [htarget, Option.bind_some] at hq
  rw [htarget', Option.bind_some, hmade.lookup d' (fun heq => hmade.notDir (heq ▸ hd'))]
  · rcases hlookup : fat.volume.lookup d' (name83 (leafOf q)) with _ | e
    · rw [hlookup] at hq
      exact absurd rfl hq
    · rw [hlookup, Option.bind_some] at hq
      rw [Option.bind_some]
      split_ifs at hq ⊢
      · exact hq
      · exact Option.some_ne_none _
  · intro heq
    obtain ⟨rfl, hname⟩ := Prod.mk.inj heq
    rw [hname, hmade.absent] at hq
    exact absurd rfl hq

/-- A new volume after `useradd` has made the home of `u`, and `u` has made an empty file there. -/
def oneHome (u : Path) : Fat.State :=
  (Fat.call (Fat.call (Fat.diskFormat (Fat.State.initial fun _ => Fat.zero)) (.create u 1)).1
    (.store (homeOf u [102]) (fun _ => 0) 0)).1

/-- And after `useradd` has made the home of `v`. -/
def twoHomes (u v : Path) : Fat.State := (Fat.diskCreate (oneHome u) v 1).1

theorem reachable_oneHome (hu : validUsername u = true) : Fat.Reachable (oneHome u) :=
  .call (.call (.format _) (show 0 ∉ u from notMem_of_valid hu rfl)) (show 0 ∉ _ from zero_notMem_homeOf hu (by decide))

theorem inv_twoHomes (hu : validUsername u = true) (hv : validUsername v = true) : ∃ D, Fat.Inv (twoHomes u v) D :=
  Fat.Reachable.inv (show Fat.Reachable (Fat.call (oneHome u) (.create v 1)).1 from
    .call (reachable_oneHome hu) (show 0 ∉ v from notMem_of_valid hv rfl))

/-- The session of `v`, with accounts for `u` and `v`, and the volume `fat`. -/
def sessionBeside (fat : Fat.State) (u v : Path) : State Unit :=
  let kdf : List UInt8 → List UInt8 → Hash := fun _ _ => Hash.zero
  let accounts := (authAddRole kdf (sessionOf rootName) u (chars ['p']) Role.standard).1
  let accounts := (authAddRole kdf accounts v (chars ['p']) Role.standard).1
  { aliceAlone with auth := (authSelect accounts v).1 }.putFat fat

theorem fat_sessionBeside (fat : Fat.State) (u v : Path) : (sessionBeside fat u v).fat = fat := rfl

/-- `"carol"`. -/
def carol : Path := chars ['c', 'a', 'r', 'o', 'l']

/-- `"dave"`. -/
def dave : Path := chars ['d', 'a', 'v', 'e']

/-- `"johnsmith1"`. -/
def johnSmith1 : Path := chars ['j', 'o', 'h', 'n', 's', 'm', 'i', 't', 'h', '1']

/-- `"johnsmith2"`. -/
def johnSmith2 : Path := chars ['j', 'o', 'h', 'n', 's', 'm', 'i', 't', 'h', '2']

/-- The file of `carol` is out of reach of `dave`, whose home is another directory. -/
theorem carol_apart_from_dave :
    Apart quietEnv (sessionBeside (twoHomes carol dave) carol dave) (homeOf carol [102])
      (homeOf dave [102]) := by
  have hfile : (Fat.contents (oneHome carol) (homeOf carol [102])).isSome = true := by
    rw [oneHome, Fat.diskFormat_eq]
    decide +kernel
  obtain ⟨D, hinv⟩ := (reachable_oneHome (u := carol) (by decide)).inv
  refine (homes_apart_iff quietEnv _ (by decide) (by decide) (by decide) ?_
    (show authLookup _ _ = _ by decide +kernel) ?_).mpr (by decide) [102] (by decide)
  · rw [fat_sessionBeside]
    exact inv_twoHomes (by decide) (by decide)
  · rw [fat_sessionBeside]
    exact contents_diskCreate_ne_none hinv.safe (show 0 ∉ dave by decide) (by decide)
      (Option.isSome_iff_ne_none.mp hfile)

/-- `johnsmith2` removes the file of `johnsmith1`: their homes are one directory. -/
theorem johnsmiths_share_home :
    let s := sessionBeside (twoHomes johnSmith1 johnSmith2) johnSmith1 johnSmith2
    validUsername johnSmith1 = true ∧ validUsername johnSmith2 = true ∧ InSession s.auth johnSmith2 ∧
      Fat.contents s.fat (homeOf johnSmith1 [102]) ≠ none ∧
      Fat.contents (vfsRemove quietEnv s (homeOf johnSmith2 [102])).1.fat (homeOf johnSmith1 [102]) = none := by
  intro s
  have hsession : InSession s.auth johnSmith2 := show authLookup _ _ = _ by decide +kernel
  have hfile : (Fat.contents (twoHomes johnSmith1 johnSmith2) (homeOf johnSmith1 [102])).isSome = true := by
    rw [twoHomes, oneHome, Fat.diskFormat_eq]
    decide +kernel
  have hfat : s.fat = twoHomes johnSmith1 johnSmith2 := fat_sessionBeside _ _ _
  have hne : Fat.contents s.fat (homeOf johnSmith1 [102]) ≠ none := by
    rw [hfat]
    exact Option.isSome_iff_ne_none.mp hfile
  obtain ⟨D, hinv⟩ := inv_twoHomes (u := johnSmith1) (v := johnSmith2) (by decide) (by decide)
  rw [← hfat] at hinv
  exact ⟨by decide, by decide, hsession, hne, contents_vfsRemove_of_eq quietEnv (by decide) (by decide)
    (by decide) hinv hsession hne (by decide)⟩

end OS64.Vfs
