import OS64.Ext2.Run
import OS64.Vfs.Contents

/-!
# What is written where

`vfs_write` and `vfs_remove` send a path to one backend, by the same look at how it begins
as `vfs_read`. For each backend this module says which call is made there and what is
returned; what is left of the state does not change.
-/

namespace OS64.Vfs

open Text Auth ByteMem

variable {R : Type} {env : Env R} {s : State R} {p : Path} {d : List UInt8}

/-! ### Writing -/

/-- Without the permission nothing happens. -/
theorem vfsWrite_denied (hcheck : vfsCheckPermission env s p accessWrite = false) (d : List UInt8) :
    vfsWrite env s p d = (s, .error) := by
  rw [vfsWrite, if_neg (by rw [hcheck]; exact Bool.false_ne_true)]

/-- A path that is no device's is written as a file. -/
theorem vfsWriteRaw_eq (h : p ∉ charDevices) (d : List UInt8) : vfsWriteRaw env s p d = writeFile s p d := by
  have hne : ∀ q ∈ charDevices, p ≠ q := fun q hq hpq => h (hpq ▸ hq)
  rw [vfsWriteRaw, if_neg, if_neg, if_neg]
  · exact not_or.mpr ⟨hne _ (by decide), hne _ (by decide)⟩
  · exact not_or.mpr ⟨hne _ (by decide), not_or.mpr ⟨hne _ (by decide), hne _ (by decide)⟩⟩
  · exact hne _ (by decide)

theorem vfsWrite_file_eq (hcheck : vfsCheckPermission env s p accessWrite = true) (htmp : starts p tmpPrefix = false)
    (hdev : p ∉ charDevices) (d : List UInt8) : vfsWrite env s p d = writeFile s p d := by
  rw [vfsWrite, if_pos hcheck, htmp]
  exact vfsWriteRaw_eq hdev d

/-- The call by which a path on the volume of `/var` is written. -/
def storeCall (s : State R) (p : Path) (d : List UInt8) : Ext2.Call :=
  .store p (fun i => d.getD i 0) d.length (newMode s.auth) (authGetuid s.auth) (authGetgid s.auth)

theorem varfsStore_eq (s : State R) (p : Path) (d : List UInt8) :
    varfsStore s p d = (s.putExt2 ((storeCall s p d).after s.ext2), ((storeCall s p d).exec.run s.ext2).1.isSome) :=
  rfl

/-- **Writing on the volume of `/home`.** -/
theorem vfsWrite_home (hp : homePath p = true) (hcheck : vfsCheckPermission env s p accessWrite = true)
    (hd : d.length ≤ 512) :
    vfsWrite env s p d = (s.putFat (Fat.diskStore s.fat p (fun i => d.getD i 0) d.length).1,
      if (Fat.diskStore s.fat p (fun i => d.getD i 0) d.length).2 then .ok d.length else .error) := by
  obtain ⟨-, htmp, hdev⟩ := apart_of_home hp
  rw [vfsWrite_file_eq hcheck htmp hdev, writeFile, if_pos hp, if_pos hd]
  rcases Fat.diskStore s.fat p (fun i => d.getD i 0) d.length with ⟨fat, _ | _⟩ <;> rfl

/-- More than a sector is refused there. -/
theorem vfsWrite_home_large (hp : homePath p = true) (hd : ¬d.length ≤ 512) : vfsWrite env s p d = (s, .error) := by
  rcases hcheck : vfsCheckPermission env s p accessWrite with _ | _
  · exact vfsWrite_denied hcheck d
  · obtain ⟨-, htmp, hdev⟩ := apart_of_home hp
    rw [vfsWrite_file_eq hcheck htmp hdev, writeFile, if_pos hp, if_neg hd]

/-- **Writing on the volume of `/var`.** -/
theorem vfsWrite_native (hp : nativePath p = true) (hcheck : vfsCheckPermission env s p accessWrite = true)
    (d : List UInt8) :
    vfsWrite env s p d = (s.putExt2 ((storeCall s p d).after s.ext2),
      if ((storeCall s p d).exec.run s.ext2).1.isSome then .ok d.length else .error) := by
  obtain ⟨-, htmp, hdev⟩ := apart_of_native hp
  rw [vfsWrite_file_eq hcheck htmp hdev, writeFile, if_neg (by rw [homePath_of_native hp]; exact Bool.false_ne_true),
    if_pos hp, varfsStore_eq]
  rcases ((storeCall s p d).exec.run s.ext2).1 with _ | _ <;> rfl

/-- **Writing a temporary file.** -/
theorem vfsWrite_tmp (hp : starts p tmpPrefix = true) (hcheck : vfsCheckPermission env s p accessWrite = true)
    (d : List UInt8) :
    vfsWrite env s p d =
      ((tmpfsStore s p d (newMode s.auth) (authGetuid s.auth) (authGetgid s.auth)).1,
        if (tmpfsStore s p d (newMode s.auth) (authGetuid s.auth) (authGetgid s.auth)).2 then .ok d.length
        else .error) := by
  rw [vfsWrite, if_pos hcheck, if_pos hp]
  rcases tmpfsStore s p d (newMode s.auth) (authGetuid s.auth) (authGetgid s.auth) with ⟨s', _ | _⟩ <;> rfl

/-! ### The volumes -/

/-- Neither volume has changed. -/
def SameVolumes (s s' : State R) : Prop := s'.fat = s.fat ∧ s'.ext2 = s.ext2

theorem SameVolumes.refl (s : State R) : SameVolumes s s := ⟨rfl, rfl⟩

theorem sameVolumes_tmpfsStore (s : State R) (p : Path) (d : List UInt8) (m u g : UInt16) :
    SameVolumes s (tmpfsStore s p d m u g).1 := by
  rw [tmpfsStore]
  split
  · split
    · split
      · exact ⟨rfl, rfl⟩
      · exact .refl s
    · split
      · exact ⟨rfl, rfl⟩
      · exact .refl s
  · exact .refl s

theorem sameVolumes_tmpfsRemove (s : State R) (p : Path) : SameVolumes s (tmpfsRemove s p).1 := by
  rw [tmpfsRemove]
  split
  · exact ⟨rfl, rfl⟩
  · exact .refl s

/-- **A write is a call of one driver**, or leaves both volumes alone. -/
theorem vfsWrite_cases (env : Env R) (s : State R) (p : Path) (d : List UInt8) :
    SameVolumes s (vfsWrite env s p d).1 ∨
    (homePath p = true ∧ (vfsWrite env s p d).1 = s.putFat (Fat.diskStore s.fat p (fun i => d.getD i 0) d.length).1) ∨
    (nativePath p = true ∧ (vfsWrite env s p d).1 = s.putExt2 ((storeCall s p d).after s.ext2)) := by
  rcases hcheck : vfsCheckPermission env s p accessWrite with _ | _
  · rw [vfsWrite_denied hcheck]
    exact .inl (.refl s)
  by_cases hhome : homePath p = true
  · by_cases hd : d.length ≤ 512
    · exact .inr (.inl ⟨hhome, congrArg Prod.fst (vfsWrite_home hhome hcheck hd)⟩)
    · rw [vfsWrite_home_large hhome hd]
      exact .inl (.refl s)
  by_cases hnative : nativePath p = true
  · exact .inr (.inr ⟨hnative, congrArg Prod.fst (vfsWrite_native hnative hcheck d)⟩)
  · left
    rw [vfsWrite, if_pos hcheck]
    split
    · have hsame := sameVolumes_tmpfsStore s p d (newMode s.auth) (authGetuid s.auth) (authGetgid s.auth)
      split <;> simp_all
    · rw [vfsWriteRaw, writeFile, if_neg hhome, if_neg hnative]
      repeat' split
      all_goals exact ⟨rfl, rfl⟩

/-- **A removal is a call of one driver**, or leaves both volumes alone. -/
theorem vfsRemove_cases (env : Env R) (s : State R) (p : Path) :
    SameVolumes s (vfsRemove env s p).1 ∨
    (homePath p = true ∧ (vfsRemove env s p).1 = s.putFat (Fat.diskRemove s.fat p).1) ∨
    (nativePath p = true ∧ (vfsRemove env s p).1 = s.putExt2 ((Ext2.Call.remove p).after s.ext2)) := by
  rw [vfsRemove]
  by_cases hcheck : vfsCheckPermission env s p accessWrite = true
  case neg =>
    rw [if_neg hcheck]
    exact .inl (.refl s)
  rw [if_pos hcheck]
  by_cases htmp : starts p tmpPrefix = true
  · rw [if_pos htmp]
    exact .inl (sameVolumes_tmpfsRemove s p)
  rw [if_neg htmp]
  by_cases hhome : homePath p = true
  · rw [if_pos hhome]
    exact .inr (.inl ⟨hhome, rfl⟩)
  rw [if_neg hhome]
  by_cases hnative : nativePath p = true
  · rw [if_pos hnative]
    exact .inr (.inr ⟨hnative, rfl⟩)
  · rw [if_neg hnative]
    exact .inl (.refl s)

end OS64.Vfs
