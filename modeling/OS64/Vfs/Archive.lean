import OS64.Vfs.Model

/-!
# The archive with other contents

The archive is only read, and what a call does depends on it in one place: the
file that is found under the path of the call. So take a state, and change the
contents of some entries of its archive, those that are `hidden`, but neither
their names nor their types.

* **Permissions are the same** (`check_withFiles`): an entry's mode comes from its
  type.
* **A reading is the same** unless it is one of a hidden entry
  (`vfsRead_withFiles`).
* **Writing and removing are the same** (`vfsWrite_withFiles`,
  `vfsRemove_withFiles`), and leave the archive alone.
-/

namespace OS64.Vfs

open Text Auth List

/-- An entry and what may stand for it. -/
structure Entry.Masks (hidden : Entry → Prop) (e e' : Entry) : Prop where
  name : e'.name = e.name
  type : e'.type = e.type
  same : ¬hidden e → e' = e

section

variable {R : Type}

/-- The state with another archive. -/
def State.withFiles (s : State R) (fs : List Entry) : State R := { s with files := fs }

variable {hidden : Entry → Prop} {s : State R} {fs : List Entry}

/-- The same entry is found, or what stands for it. -/
theorem fsFind_withFiles (h : Forall₂ (Entry.Masks hidden) s.files fs) (p : Path) :
    Option.Rel (Entry.Masks hidden) (fsFind s p) (fsFind (s.withFiles fs) p) := by
  change Option.Rel _ (s.files.find? fun e => pathEq e.name p) (fs.find? fun e => pathEq e.name p)
  generalize s.files = files at h
  induction h with
  | nil => exact .none
  | @cons e e' _ _ he _ ih =>
    rw [find?_cons, find?_cons, he.name]
    cases pathEq e.name p with
    | true => exact .some he
    | false => exact ih

variable {p : Path}

/-- An entry that is not hidden is found as it was. -/
theorem fsFind_withFiles_eq (h : Forall₂ (Entry.Masks hidden) s.files fs)
    (hp : ∀ e, fsFind s p = some e → ¬hidden e) : fsFind (s.withFiles fs) p = fsFind s p := by
  have hfind := fsFind_withFiles h p
  revert hfind hp
  generalize fsFind s p = o
  generalize fsFind (s.withFiles fs) p = o'
  rintro hp (@⟨e, e', he⟩ | _)
  · rw [he.same (hp e rfl)]
  · rfl

variable (env : Env R)

/-- The archive decides about permissions where nothing before it does. -/
theorem check_eq (t : State R) (p : Path) (access : UInt32) :
    vfsCheckPermission env t p access =
      (authIsRoot t.auth ||
        match ((statFixed env t p).or (statExt2 t p)).or (statFat env t p) with
        | some st => permits t.auth st.mode st.uid st.gid access
        | none =>
          match fsFind t p with
          | some e => permits t.auth (if e.isDir then 0o555 else 0o444) 0 0 access
          | none => mayCreate env t p) := by
  rw [vfsCheckPermission, statRaw]
  cases ((statFixed env t p).or (statExt2 t p)).or (statFat env t p) with
  | some st => rfl
  | none =>
    rw [Option.none_or, statArchive]
    cases fsFind t p <;> rfl

section

variable (h : Forall₂ (Entry.Masks hidden) s.files fs)
include h

/-- **Permissions do not depend on contents.** -/
theorem check_withFiles (p : Path) (access : UInt32) :
    vfsCheckPermission env (s.withFiles fs) p access = vfsCheckPermission env s p access := by
  have hvolumes : ((statFixed env (s.withFiles fs) p).or (statExt2 (s.withFiles fs) p)).or
      (statFat env (s.withFiles fs) p) =
      ((statFixed env s p).or (statExt2 s p)).or (statFat env s p) := rfl
  rw [check_eq, check_eq, hvolumes]
  have hfind := fsFind_withFiles h p
  revert hfind
  generalize fsFind s p = o
  generalize fsFind (s.withFiles fs) p = o'
  rintro (@⟨e, e', he⟩ | _)
  · have hdir : e'.isDir = e.isDir := by rw [Entry.isDir, Entry.isDir, he.type]
    simp only [hdir]
    rfl
  · rfl

section

variable (hp : ∀ e, fsFind s p = some e → ¬hidden e)
include hp

/-- The attributes are the same, unless the entry is hidden. -/
theorem statRaw_withFiles : statRaw env (s.withFiles fs) p = statRaw env s p := by
  rw [statRaw, statRaw, statArchive, statArchive, fsFind_withFiles_eq h hp]
  rfl

/-- So are the contents. -/
theorem readFile_withFiles (cap : ℕ) : readFile (s.withFiles fs) p cap = readFile s p cap := by
  rw [readFile, readFile, readArchive, readArchive, fsFind_withFiles_eq h hp]
  rfl

/-- **A reading that finds no hidden entry is the same.** -/
theorem vfsRead_withFiles (cap : ℕ) :
    vfsRead env (s.withFiles fs) p cap = ((vfsRead env s p cap).1.withFiles fs, (vfsRead env s p cap).2) := by
  have htmp : tmpfsLoad (s.withFiles fs) p cap = tmpfsLoad s p cap := rfl
  have hpool : (s.withFiles fs).pool = s.pool := rfl
  have hstat (data : Option (List UInt8)) : withStat env (s.withFiles fs) p data = withStat env s p data := by
    simp only [withStat, vfsStatPath, statRaw_withFiles env h hp, check_withFiles env h]
  simp only [vfsRead, vfsReadRaw, check_withFiles env h, hstat, htmp, readFile_withFiles h hp, hpool]
  split_ifs <;> try rfl
  rcases env.randomRead cap s.pool with ⟨_ | _, data, pool⟩ <;> rfl

end

end

/-- Temporary files are stored alike. -/
theorem tmpfsStore_withFiles (p : Path) (d : List UInt8) (m u g : UInt16) :
    tmpfsStore (s.withFiles fs) p d m u g = ((tmpfsStore s p d m u g).1.withFiles fs, (tmpfsStore s p d m u g).2) := by
  have hnodes : (s.withFiles fs).nodes = s.nodes := rfl
  simp only [tmpfsStore, hnodes]
  by_cases hfits : d.length ≤ 2048
  · rw [dif_pos hfits, dif_pos hfits]
    cases tmpFind s.nodes p with
    | some i =>
      cases hnode : (s.nodes[i]?).join with
      | none => simp only [hnode]
      | some node =>
        simp only [hnode]
        rfl
    | none => cases s.nodes.findIdx? Option.isNone <;> rfl
  · rw [dif_neg hfits, dif_neg hfits]

/-- Both volumes are written alike. -/
theorem writeFile_withFiles (p : Path) (d : List UInt8) :
    writeFile (s.withFiles fs) p d = ((writeFile s p d).1.withFiles fs, (writeFile s p d).2) := by
  have hfat : (s.withFiles fs).fat = s.fat := rfl
  have hext2 : (s.withFiles fs).ext2 = s.ext2 := rfl
  have hauth : (s.withFiles fs).auth = s.auth := rfl
  simp only [writeFile, varfsStore, hfat, hext2, hauth]
  split_ifs <;> try rfl
  · rcases Fat.diskStore s.fat p (fun i => d.getD i 0) d.length with ⟨fat, _ | _⟩ <;> rfl
  · rcases (Ext2.ext2Store p (fun i => d.getD i 0) d.length (newMode s.auth).toNat
      (authGetuid s.auth).toNat (authGetgid s.auth).toNat).run s.ext2 with ⟨_ | _, ext2⟩ <;> rfl

/-- **Writing does not depend on contents of the archive.** -/
theorem vfsWrite_withFiles (h : Forall₂ (Entry.Masks hidden) s.files fs) (p : Path)
    (d : List UInt8) :
    vfsWrite env (s.withFiles fs) p d = ((vfsWrite env s p d).1.withFiles fs, (vfsWrite env s p d).2) := by
  have hauth : (s.withFiles fs).auth = s.auth := rfl
  have hpool : (s.withFiles fs).pool = s.pool := rfl
  simp only [vfsWrite, vfsWriteRaw, check_withFiles env h, tmpfsStore_withFiles, writeFile_withFiles, hauth, hpool]
  split_ifs <;> try rfl
  · rcases tmpfsStore s p d (newMode s.auth) (authGetuid s.auth) (authGetgid s.auth) with ⟨t, _ | _⟩ <;>
      rfl
  · rcases env.randomMix d s.pool with ⟨_ | _, pool⟩ <;> rfl

/-- **Nor does removing.** -/
theorem vfsRemove_withFiles (h : Forall₂ (Entry.Masks hidden) s.files fs) (p : Path) :
    vfsRemove env (s.withFiles fs) p = ((vfsRemove env s p).1.withFiles fs, (vfsRemove env s p).2) := by
  have hnodes : (s.withFiles fs).nodes = s.nodes := rfl
  simp only [vfsRemove, check_withFiles env h]
  split_ifs <;> try rfl
  simp only [tmpfsRemove, hnodes]
  cases tmpFind s.nodes p <;> rfl

/-! ### The archive stays -/

/-- Nothing is hidden, and nothing has been changed. -/
theorem masks_refl (files : List Entry) : Forall₂ (Entry.Masks fun _ => False) files files :=
  forall₂_same.2 fun _ _ => ⟨rfl, rfl, fun _ => rfl⟩

/-- Reading leaves the archive alone: it could be put back without a change. -/
theorem files_vfsRead (p : Path) (cap : ℕ) : (vfsRead env s p cap).1.files = s.files :=
  congrArg (fun r => State.files r.1)
    (vfsRead_withFiles env (masks_refl s.files) (fun _ _ => not_false) cap)

/-- So does writing. -/
theorem files_vfsWrite (p : Path) (d : List UInt8) : (vfsWrite env s p d).1.files = s.files :=
  congrArg (fun r => State.files r.1) (vfsWrite_withFiles env (masks_refl s.files) p d)

end

end OS64.Vfs
