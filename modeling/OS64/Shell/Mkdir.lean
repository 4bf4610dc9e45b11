import OS64.Fat.Files
import OS64.Shell.Files
import OS64.Vfs.Aliases

/-!
# Making directories from the shell

`mkdir` asks the policy of protected files and looks at how the path begins, and
then calls `disk_create`. It does not ask `vfs_check_permission`. The path may
begin with `/mnt/`, `/root/`, `/var/` or `/tmp/` as well, and the driver of `/home`
takes whatever it gets: it strips as much of its mount point as the path has in
common with it, so that `/mnt/x` is `x` in the root directory of the volume.

A directory is made only where it should be (`OS64.Shell.Confined`) exactly if the
call does not get as far as making one, or all that was not asked happens to be
so (`OS64.Shell.mkdir_confined_iff`).
-/

namespace OS64.Shell

open List Text Auth Vfs
open Fat (diskCreate leafOf name83)

/-! ### The command -/

variable {s : Desk R} {a : List UInt8} {x : UInt8}

/-- `user_path`. -/
def userPath (p : Path) : Bool :=
  Vfs.starts p mntPrefix || Vfs.starts p homePrefix || Vfs.starts p rootPrefix ||
    Vfs.starts p varPrefix || Vfs.starts p tmpPrefix

/-- The operand of `mkdir`; the option `-p` is skipped. -/
def mkdirOperand (a : List UInt8) : List UInt8 :=
  let a := skipSpaces a
  skipSpaces (if Shell.starts a (chars ['-', 'p', ' ']) then a.drop 3 else a)

section

variable {R : Type}

/-- `c_mkdir`. -/
def cMkdir (s : Desk R) (a : List UInt8) : Desk R × Seen :=
  let a := mkdirOperand a
  if a = [] then (s, ⟨[.message "mkdir: missing operand\n"], 2, none⟩)
  else
    let p := resolvePath s.cwd a
    if protectWrite s p then
      if userPath p then
        match Fat.diskCreate s.vfs.fat p 1 with
        | (fat, true) => ({ s with vfs := s.vfs.putFat fat }, ⟨[], 0, none⟩)
        | (fat, false) =>
          ({ s with vfs := s.vfs.putFat fat },
            ⟨[.message "mkdir: cannot create directory on this filesystem\n"], 1, none⟩)
      else (s, ⟨[.message "mkdir: cannot create directory on this filesystem\n"], 1, none⟩)
    else
      (s, ⟨[.message "mkdir: cannot create directory '", .text p,
        .message "': Operation not permitted\n"], 1, none⟩)

/-- The path that `mkdir` works on. -/
def mkdirPath (s : Desk R) (a : List UInt8) : Path := resolvePath s.cwd (mkdirOperand a)

/-! ### What it should do -/

/-- Afterwards the path names a directory, in a cluster that was free before. -/
def NamesNew (before after : Fat.State) (p : Path) : Prop :=
  ∃ r slot, Fat.findEntry after p = some (r, slot) ∧ Fat.entryIsDir r slot = true ∧
    Fat.fatEntry before 0 (Fat.entryCluster r slot) = 0

/-- If `mkdir` changes the volume then the caller may write to the path, the path is
one of the volume, and it names the new directory. -/
def Confined (env : Env R) (s : Desk R) (a : List UInt8) : Prop :=
  (cMkdir s a).1.vfs.fat ≠ s.vfs.fat →
    vfsCheckPermission env s.vfs (mkdirPath s a) accessWrite = true ∧
      homePath (mkdirPath s a) = true ∧ NamesNew s.vfs.fat (cMkdir s a).1.vfs.fat (mkdirPath s a)

/-- `mkdir` gets as far as making a directory. -/
def MakesDirectory (s : Desk R) (a : List UInt8) : Prop :=
  mkdirOperand a ≠ [] ∧ protectWrite s (mkdirPath s a) = true ∧ userPath (mkdirPath s a) = true ∧
    Fat.MakesDirectory s.vfs.fat (mkdirPath s a)

/-! ### Paths -/

theorem mem_resolveStep {out component : Path} (h : x ∈ resolveStep out component) :
    x = 47 ∨ x ∈ out ∨ x ∈ component := by
  rw [resolveStep] at h
  split at h
  · exact .inr (.inl h)
  split at h
  · rw [popComponent] at h
    split at h
    · have hmem := (dropWhile_sublist _).subset (mem_reverse.mp h)
      exact .inr (.inl (dropLast_subset _ (mem_reverse.mp hmem)))
    · exact .inr (.inl h)
  · rcases mem_append.mp h with h | h
    · split at h
      · rcases mem_append.mp h with h | h
        · exact .inr (.inl h)
        · exact .inl (mem_singleton.mp h)
      · exact .inr (.inl h)
    · exact .inr (.inr (mem_of_mem_take h))

theorem mem_foldl_resolveStep : ∀ {components : List Path} {out : Path},
    x ∈ components.foldl resolveStep out → x = 47 ∨ x ∈ out ∨ ∃ component ∈ components, x ∈ component
  | [], _, h => .inr (.inl h)
  | component :: components, out, h => by
    have hrest : x ∈ components.foldl resolveStep (resolveStep out component) := h
    rcases mem_foldl_resolveStep hrest with h | h | ⟨c, hc, h⟩
    · exact .inl h
    · rcases mem_resolveStep h with h | h | h
      · exact .inl h
      · exact .inr (.inl h)
      · exact .inr (.inr ⟨component, mem_cons_self, h⟩)
    · exact .inr (.inr ⟨c, mem_cons_of_mem _ hc, h⟩)

/-- A path is put together from the directory, the argument and slashes. -/
theorem mem_resolvePath {cwd input : Path} (h : x ∈ resolvePath cwd input) : x = 47 ∨ x ∈ cwd ∨ x ∈ input := by
  have hraw : x ∈ resolveRaw cwd (skipSpaces input) → x = 47 ∨ x ∈ cwd ∨ x ∈ input := by
    intro h
    rcases mem_append.mp h with h | h
    · split at h
      · simp at h
      split at h
      · rcases mem_append.mp h with h | h
        · exact .inr (.inl (mem_of_mem_take h))
        · exact .inl (mem_singleton.mp h)
      · exact .inr (.inl (mem_of_mem_take h))
    · exact .inr (.inr ((dropWhile_sublist _).subset (mem_of_mem_take h)))
  have hout : x ∈ (((resolveRaw cwd (skipSpaces input)).splitOn 47).filter (· ≠ [])).foldl
      resolveStep [47] := by
    rw [resolvePath] at h
    split at h
    · exact dropLast_subset _ h
    · exact h
  rcases mem_foldl_resolveStep hout with h | h | ⟨c, hc, h⟩
  · exact .inl h
  · exact .inl (mem_singleton.mp h)
  · exact hraw (Fat.subset_of_mem_splitOn 47 _ (mem_of_mem_filter hc) h)

theorem zero_notMem_mkdirPath (hcwd : 0 ∉ s.cwd) (ha : 0 ∉ a) : 0 ∉ mkdirPath s a := by
  have hoperand : mkdirOperand a ⊆ a := by
    rw [mkdirOperand]
    split
    · exact fun x hx => (dropWhile_sublist _).subset (mem_of_mem_drop
        ((dropWhile_sublist _).subset hx))
    · exact fun x hx => (dropWhile_sublist _).subset ((dropWhile_sublist _).subset hx)
  intro h
  rcases mem_resolvePath h with h | h | h
  · cases h
  · exact hcwd h
  · exact ha (hoperand h)

/-! ### What it does -/

/-- **The path names the directory that was made**, unless its name begins with the
byte of deleted entries. -/
theorem namesNew_iff {fat fat' : Fat.State} {D D' : Set ℕ} {p : Path} {d c : ℕ} {g g' : Prop}
    (h : Fat.Safe fat D g) (h' : Fat.Safe fat' D' g')
    (hp : Fat.parentDir fat p = some (d, leafOf p))
    (hm : Fat.Made fat D fat' d (leafOf p) c) :
    NamesNew fat fat' p ↔ (name83 (leafOf p)).getD 0 0 ≠ 0xe5 := by
  rw [h.parentDir_eq] at hp
  split at hp
  · simp at hp
  rename_i hleaf
  obtain ⟨d', hwalk, heq⟩ := Option.map_eq_some_iff.mp hp
  obtain ⟨rfl, -⟩ := Prod.mk.inj heq
  have htarget := h'.target_of_walk hleaf (hm.walk h _ h.sound.root hwalk)
  have hfind := h'.findEntry_eq p
  rw [htarget, Option.bind_some] at hfind
  have hself := hm.self
  rw [Fat.Volume.lookup, Slots.lookup, Fat.created] at hself
  constructor
  · rintro ⟨r, slot, hsome, -, -⟩ hfirst
    rw [if_pos hfirst] at hself
    rcases hslot : Slots.find Fat.Entry.name 16 (fat'.volume.dir d') (name83 (leafOf p)) with _ | i
    · rw [hfind, hslot] at hsome
      simp at hsome
    · obtain ⟨-, e, he, -⟩ := Slots.find_eq_some hslot
      rw [hslot, Option.bind_some, he] at hself
      simp at hself
  · intro hfirst
    rw [if_neg hfirst] at hself
    obtain ⟨i, hslot, he⟩ := Option.bind_eq_some_iff.mp hself
    obtain ⟨-, hdir, hcluster, -⟩ := Fat.entry_eq_some he
    rw [hslot, Option.map_some] at hfind
    refine ⟨_, i, hfind, hdir.trans (Fat.isDir_directory _ _ _), ?_⟩
    rw [hcluster, h.layout.toGeometry.fatEntry hm.inRange.2]
    exact hm.free

theorem fat_cMkdir_of_not
    (hvolume : s.vfs.fat.mounted = true → ∃ D, Fat.Safe s.vfs.fat D) (hmakes : ¬MakesDirectory s a) :
    (cMkdir s a).1.vfs.fat = s.vfs.fat := by
  rw [cMkdir]
  simp only
  split
  · rfl
  rename_i hoperand
  split
  · rename_i hprotect
    split
    · rename_i huser
      have hcreate : (diskCreate s.vfs.fat (resolvePath s.cwd (mkdirOperand a)) 1).1 = s.vfs.fat := by
        by_cases hm : s.vfs.fat.mounted = true
        · obtain ⟨D, hs⟩ := hvolume hm
          exact hs.diskCreate_of_not (by decide) fun h => hmakes ⟨hoperand, hprotect, huser, h⟩
        · rw [diskCreate, if_pos hm]
      split
      · rename_i hres
        rwa [hres] at hcreate
      · rename_i hres
        rwa [hres] at hcreate
    · rfl
  · rfl

theorem fat_cMkdir {fat : Fat.State} (hmakes : MakesDirectory s a)
    (hcreate : diskCreate s.vfs.fat (mkdirPath s a) 1 = (fat, true)) :
    (cMkdir s a).1.vfs.fat = fat := by
  obtain ⟨hoperand, hprotect, huser, -⟩ := hmakes
  rw [mkdirPath] at hprotect huser hcreate
  rw [cMkdir]
  simp only [if_neg hoperand, if_pos hprotect, if_pos huser, hcreate]
  rfl

/-- What it takes for a directory that is made to be where it should be. -/
theorem confined_iff_of_makes {env : Env R} {s : Desk R} {a : List UInt8}
    (hvolume : s.vfs.fat.mounted = true → ∃ D, Fat.Safe s.vfs.fat D) (hpath : 0 ∉ mkdirPath s a)
    (hmakes : MakesDirectory s a) : Confined env s a ↔
      vfsCheckPermission env s.vfs (mkdirPath s a) accessWrite = true ∧
        homePath (mkdirPath s a) = true ∧
        (name83 (leafOf (mkdirPath s a))).getD 0 0 ≠ 0xe5 := by
  obtain ⟨D, hs⟩ := hvolume hmakes.2.2.2.1
  obtain ⟨d, c, fat, hcreate, hp, hm⟩ := hs.diskCreate_makes hpath
    (show (1 : UInt8) ≠ 0 by decide) hmakes.2.2.2
  obtain ⟨D', hsafe, -⟩ := hs.diskCreate hpath 1
  rw [hcreate] at hsafe
  have hchanged : fat ≠ s.vfs.fat := by
    intro heq
    have hused := hm.used
    rw [heq, hm.free] at hused
    exact hused rfl
  rw [Confined, fat_cMkdir hmakes hcreate, namesNew_iff hs hsafe hp hm]
  exact ⟨fun h => h hchanged, fun h _ => h⟩

/-- **When `mkdir` stays where it belongs**, in any session: whenever it gets as far
as making a directory, the caller may write to the path, the path is below `/home/`
or `/mnt/os64/`, and the name does not begin with the byte of deleted entries. -/
theorem mkdir_confined_iff (env : Env R) (s : Desk R) (a : List UInt8)
    (hvolume : s.vfs.fat.mounted = true → ∃ D, Fat.Safe s.vfs.fat D) (hcwd : 0 ∉ s.cwd) (ha : 0 ∉ a) :
    Confined env s a ↔ (MakesDirectory s a →
      vfsCheckPermission env s.vfs (mkdirPath s a) accessWrite = true ∧
        homePath (mkdirPath s a) = true ∧
        (Fat.name83 (Fat.leafOf (mkdirPath s a))).getD 0 0 ≠ 0xe5) := by
  by_cases hmakes : MakesDirectory s a
  · rw [confined_iff_of_makes hvolume (zero_notMem_mkdirPath hcwd ha) hmakes]
    exact ⟨fun h _ => h, fun h => h hmakes⟩
  · refine iff_of_true (fun hchanged => ?_) fun h => absurd h hmakes
    exact absurd (fat_cMkdir_of_not hvolume hmakes) hchanged

end

/-- `alice` in the directory `/`, with a new volume mounted. -/
def newVolumeDesk : Desk Unit where
  vfs := aliceAlone.putFat (Fat.diskFormat (Fat.State.initial fun _ => Fat.zero))
  cwd := [47]
  image := fun _ => 0
  stack := fun _ => 0

/-- `alice` makes their home directory. -/
theorem mkdir_home_alice :
    Confined quietEnv newVolumeDesk (chars ['/', 'h', 'o', 'm', 'e', '/', 'a', 'l', 'i', 'c', 'e']) :=
  (mkdir_confined_iff quietEnv newVolumeDesk _ (fun _ => ⟨_, Fat.safe_diskFormat _⟩) (by decide)
    (by decide)).mpr fun _ => ⟨by decide +kernel, by decide +kernel, by decide +kernel⟩

/-- `mkdir /mnt/x` makes a directory in the root of the volume, and `mkdir /home/x`
one that `alice` may not create. -/
theorem alice_makes_directories :
    authIsRoot newVolumeDesk.vfs.auth = false ∧
      ¬Confined quietEnv newVolumeDesk (chars ['/', 'm', 'n', 't', '/', 'x']) ∧
      ¬Confined quietEnv newVolumeDesk (chars ['/', 'h', 'o', 'm', 'e', '/', 'x']) := by
  have hmakes : ∀ a, mkdirOperand a ≠ [] ∧ protectWrite newVolumeDesk (mkdirPath newVolumeDesk a) = true ∧
      userPath (mkdirPath newVolumeDesk a) = true ∧
      Fat.directoriesOf (mkdirPath newVolumeDesk a) = [] ∧ leafOf (mkdirPath newVolumeDesk a) ≠ [] ∧
      Fat.findSlot Fat.newRoot (leafOf (mkdirPath newVolumeDesk a)) = none →
      MakesDirectory newVolumeDesk a := by
    rintro a ⟨hoperand, hprotect, huser, hroot, hleaf, hfind⟩
    exact ⟨hoperand, hprotect, huser, Fat.makesDirectory_diskFormat _ hroot hleaf hfind⟩
  refine ⟨by decide +kernel, fun h => ?_, fun h => ?_⟩
  · rw [confined_iff_of_makes (fun _ => ⟨_, Fat.safe_diskFormat _⟩) (by decide +kernel)
      (hmakes _ (by decide +kernel))] at h
    exact absurd h.2.1 (by decide +kernel)
  · rw [confined_iff_of_makes (fun _ => ⟨_, Fat.safe_diskFormat _⟩) (by decide +kernel)
      (hmakes _ (by decide +kernel))] at h
    exact absurd h.1 (by decide +kernel)

end OS64.Shell
