import OS64.Shell.Spellings
import OS64.Vfs.Aliases

/-!
# What the commands reveal of protected files

An entry of the archive is protected if the policy refuses to read it under one of
its spellings. Two states that differ only in the contents of protected entries
should look the same to whoever reads files: the same output, the same status, the
same bytes for an application, and the same files afterwards.

* **All commands but `cp` keep to that** (`run_withFiles`), whatever they are given:
  they ask the policy about the path they are going to read, or, as `mv` does,
  whether it may be written, which is stricter.
* **`cp` asks only about the path it writes.** It reveals the contents of a
  protected file exactly if there is a place to copy them to (`independent_iff`).
-/

namespace OS64.Shell

open Text Auth Vfs List

/-! ### Two states -/

variable {auth : Auth.State} {e : Entry} {xp : Path}

/-- The policy refuses to read the entry, under some spelling. -/
def Protected (auth : Auth.State) (e : Entry) : Prop :=
  ∃ p, pathEq e.name p = true ∧ ofpAllowed auth p ofpRead = false

section

variable {R : Type} {s : Desk R} {fs : List Entry}

/-- The state with another archive. -/
def Desk.withFiles (s : Desk R) (fs : List Entry) : Desk R := { s with vfs := s.vfs.withFiles fs }

/-- The archive `fs` differs from that of the state in the contents of protected
entries only. -/
def Masked (auth : Auth.State) (s : Desk R) (fs : List Entry) : Prop :=
  Forall₂ (Entry.Masks (Protected auth)) s.vfs.files fs

/-- Two states that differ in the contents of protected entries only. -/
def Alike (s s' : Desk R) : Prop := ∃ fs, Masked s.vfs.auth s fs ∧ s' = s.withFiles fs

theorem masked_refl (auth : Auth.State) (s : Desk R) : Masked auth s s.vfs.files :=
  forall₂_same.2 fun _ _ => ⟨rfl, rfl, fun _ => rfl⟩

variable {t : Vfs.State R} {p : Path} {call : Call}

/-- Under a path that may be read no protected entry is found. -/
theorem not_protected_of_allowed (h : ofpAllowed auth p ofpRead = true) (e : Entry) (he : fsFind t p = some e) :
    ¬Protected auth e := by
  rintro ⟨p', hp', hrefused⟩
  have hp : pathEq e.name p = true := by simpa using find?_some he
  rw [ofpAllowed_congr hp' hp, h] at hrefused
  exact Bool.noConfusion hrefused

/-- What the file system shows of a file: the bytes and the length. -/
def contents (t : Vfs.State R) (p : Path) (cap : ℕ) : Option (List UInt8 × ℕ) :=
  if Vfs.starts p tmpPrefix then (tmpfsLoad t p cap).map fun d => (d, d.length)
  else (readFile t p cap).map fun r => (r.data, r.n)

variable (env : Env R)

/-- Apart from what may not be read, the files are the same. -/
def SameFiles (auth : Auth.State) (t t' : Vfs.State R) : Prop :=
  ∀ p, ofpAllowed auth p ofpRead = true →
    statRaw env t p = statRaw env t' p ∧ ∀ cap, contents t p cap = contents t' p cap

variable {env}

theorem SameFiles.symm {t t' : Vfs.State R} (h : SameFiles env auth t t') : SameFiles env auth t' t :=
  fun p hp => ⟨(h p hp).1.symm, fun cap => ((h p hp).2 cap).symm⟩

theorem SameFiles.trans {t t' t'' : Vfs.State R} (h : SameFiles env auth t t')
    (h' : SameFiles env auth t' t'') : SameFiles env auth t t'' :=
  fun p hp => ⟨(h p hp).1.trans (h' p hp).1, fun cap => ((h p hp).2 cap).trans ((h' p hp).2 cap)⟩

/-- Other contents of protected entries are not seen. -/
theorem sameFiles_withFiles (env : Env R) (h : Forall₂ (Entry.Masks (Protected auth)) t.files fs) :
    SameFiles env auth t (t.withFiles fs) := by
  intro p hp
  have hshown : ∀ e, fsFind t p = some e → ¬Protected auth e := not_protected_of_allowed hp
  refine ⟨(statRaw_withFiles env h hshown).symm, fun cap => ?_⟩
  rw [contents, contents, readFile_withFiles h hshown]
  rfl

/-! ### The commands that ask -/

@[simp] theorem cwd_withFiles : (s.withFiles fs).cwd = s.cwd := rfl

@[simp] theorem auth_withFiles : (s.withFiles fs).vfs.auth = s.vfs.auth := rfl

@[simp] theorem vfs_withFiles : (s.withFiles fs).vfs = s.vfs.withFiles fs := rfl

/-- What is done, and what comes of it, is the same for another archive. -/
def Commutes {A : Type} (f : Desk R → Desk R × A) (s : Desk R) (fs : List Entry) : Prop :=
  f (s.withFiles fs) = ((f s).1.withFiles fs, (f s).2)

variable (env)

section Reading

variable (h : Masked s.vfs.auth s fs) {p : Path}

include h

theorem readStack_withFiles (hp : ofpAllowed s.vfs.auth p ofpRead = true) (cap : ℕ) :
    Commutes (fun s => readStack env s p cap) s fs := by
  have hread := vfsRead_withFiles env h (not_protected_of_allowed hp) cap
  simp only [Commutes, readStack, vfs_withFiles, hread]
  rcases vfsRead env s.vfs p cap with ⟨t, _ | r⟩ <;> rfl

theorem readImage_withFiles (hp : ofpAllowed s.vfs.auth p ofpRead = true) (cap : ℕ) :
    Commutes (fun s => readImage env s p cap) s fs := by
  have hread := vfsRead_withFiles env h (not_protected_of_allowed hp) cap
  simp only [Commutes, readImage, vfs_withFiles, hread]
  rcases vfsRead env s.vfs p cap with ⟨t, _ | r⟩ <;> rfl

theorem fileReadArg_withFiles (a : List UInt8) : Commutes (fun s => fileReadArg env s a) s fs := by
  simp only [Commutes, fileReadArg, cwd_withFiles, auth_withFiles]
  by_cases ha : skipSpaces a = []
  · simp only [if_pos ha]
  · by_cases hp : ofpAllowed s.vfs.auth (resolvePath s.cwd a) ofpRead = true
    · have hread : readImage env (s.withFiles fs) (resolvePath s.cwd a) imageCapacity = _ :=
        readImage_withFiles env h hp imageCapacity
      simp only [if_neg ha, if_pos hp, hread]
      rcases readImage env s (resolvePath s.cwd a) imageCapacity with ⟨t, _ | ⟨b, n⟩⟩ <;> rfl
    · simp only [if_neg ha, if_neg hp]
      exact if_neg hp

/-- The commands that read into an array on the stack, whatever they show. -/
theorem shows_withFiles (missing : Seen) (refused failed : Path → Seen) (shown : ByteMem → ℕ → Seen)
    (a : List UInt8) :
    Commutes (fun s =>
      if skipSpaces a = [] then (s, missing)
      else if ofpAllowed s.vfs.auth (resolvePath s.cwd a) ofpRead then
        match readStack env s (resolvePath s.cwd a) 512 with
        | (t, none) => (t, failed (resolvePath s.cwd a))
        | (t, some (b, n)) => (t, shown b n)
      else (s, refused (resolvePath s.cwd a))) s fs := by
  simp only [Commutes, cwd_withFiles, auth_withFiles]
  by_cases ha : skipSpaces a = []
  · simp only [if_pos ha]
  · by_cases hp : ofpAllowed s.vfs.auth (resolvePath s.cwd a) ofpRead = true
    · have hread : readStack env (s.withFiles fs) (resolvePath s.cwd a) 512 = _ := readStack_withFiles env h hp 512
      simp only [if_neg ha, if_pos hp, hread]
      rcases readStack env s (resolvePath s.cwd a) 512 with ⟨t, _ | ⟨b, n⟩⟩ <;> rfl
    · simp only [if_neg ha, if_neg hp]
      exact if_neg hp

section

variable (a : List UInt8)

theorem cCat_withFiles : Commutes (fun s => cCat env s a) s fs :=
  shows_withFiles env h _ (fun p => ⟨[.message "cat: ", .text p, .message ": Operation not permitted\n"], 1, none⟩)
    (fun p => ⟨[.message "cat: cannot open '", .text p, .message "'\n"], 1, none⟩)
    (fun b n => ⟨.styled (b.bytes 0 n) :: endLine b n, 0, none⟩) a

theorem cXxd_withFiles : Commutes (fun s => cXxd env s a) s fs :=
  shows_withFiles env h _ (fun _ => ⟨[.message "xxd: Operation not permitted\n"], 1, none⟩)
    (fun p => ⟨[.message "xxd: cannot read '", .text p, .message "'\n"], 1, none⟩)
    (fun b n => ⟨(range ((n + 15) / 16)).map fun k => .text (xxdLine b n (16 * k)), 0, none⟩) a

theorem cHead_withFiles : Commutes (fun s => cHead env s a) s fs := by
  simp only [Commutes, cHead]
  rcases lineArgs a with _ | ⟨lines, f⟩
  · rfl
  · have hread : fileReadArg env (s.withFiles fs) f = _ := fileReadArg_withFiles env h f
    simp only [hread]
    rcases fileReadArg env s f with ⟨t, _ | ⟨p, b, n⟩⟩ <;> rfl

theorem cTail_withFiles : Commutes (fun s => cTail env s a) s fs := by
  simp only [Commutes, cTail]
  rcases lineArgs a with _ | ⟨lines, f⟩
  · rfl
  · have hread : fileReadArg env (s.withFiles fs) f = _ := fileReadArg_withFiles env h f
    simp only [hread]
    rcases fileReadArg env s f with ⟨t, _ | ⟨p, b, n⟩⟩ <;> rfl

theorem cWc_withFiles : Commutes (fun s => cWc env s a) s fs := by
  have hread : fileReadArg env (s.withFiles fs) (wcArgs a).2 = _ := fileReadArg_withFiles env h _
  simp only [Commutes, cWc, hread]
  rcases fileReadArg env s (wcArgs a).2 with ⟨t, _ | ⟨p, b, n⟩⟩ <;> rfl

end

theorem abiReadFile_withFiles (p : Path) (d : ByteMem) (cap : ℕ) :
    Commutes (fun s => abiReadFile env s p d cap) s fs := by
  simp only [Commutes, abiReadFile, auth_withFiles]
  by_cases hp : ofpAllowed s.vfs.auth p ofpRead = true
  · have hread := vfsRead_withFiles env h (not_protected_of_allowed hp) cap
    simp only [if_pos hp, vfs_withFiles, hread]
    rcases vfsRead env s.vfs p cap with ⟨t, _ | r⟩ <;> rfl
  · simp only [if_neg hp]
    exact if_neg hp

end Reading

/-! ### The commands that write -/

/-- Reading leaves the archive alone. -/
theorem masked_readImage (h : Masked auth s fs) (p : Path) (cap : ℕ) : Masked auth (readImage env s p cap).1 fs := by
  have hfiles : (readImage env s p cap).1.vfs.files = (vfsRead env s.vfs p cap).1.files := by
    rw [readImage]
    rcases vfsRead env s.vfs p cap with ⟨t, _ | r⟩ <;> rfl
  rw [Masked, hfiles, files_vfsRead]
  exact h

theorem ddWrite_withFiles (h : Masked auth s fs) (bs : ℕ) (p : Path) (b : ByteMem)
    (n : ℕ) : Commutes (fun s => ddWrite env s bs p b n) s fs := by
  have hwrite := vfsWrite_withFiles env h p (b.bytes 0 n)
  simp only [Commutes, ddWrite, vfs_withFiles, hwrite]
  rcases vfsWrite env s.vfs p (b.bytes 0 n) with ⟨t, _ | written | _⟩
  · rfl
  · by_cases hall : written = n
    · simp only [if_pos hall]
      rfl
    · simp only [if_neg hall]
      rfl
  · rfl

section

variable (h : Masked s.vfs.auth s fs)
include h

theorem ddTransfer_withFiles (o : DdArgs) {ip : Path} (hip : ofpAllowed s.vfs.auth ip ofpRead = true) (op : Path) :
    Commutes (fun s => ddTransfer env s o ip op) s fs := by
  simp only [Commutes, ddTransfer]
  generalize (if o.count ≠ 0 then o.bs * o.count else imageCapacity) = requested
  by_cases hlarge : requested > imageCapacity
  · simp only [if_pos hlarge]
  · have hread : readImage env (s.withFiles fs) ip requested = _ := readImage_withFiles env h hip requested
    have hmasked := masked_readImage env h ip requested
    simp only [if_neg hlarge, hread]
    revert hmasked
    rcases readImage env s ip requested with ⟨t, _ | ⟨b, n⟩⟩
    · exact fun _ => rfl
    · exact fun hmasked => ddWrite_withFiles env hmasked o.bs op b _

theorem cDd_withFiles (a : List UInt8) : Commutes (fun s => cDd env s a) s fs := by
  simp only [Commutes, cDd]
  rcases ddArgs a with m | o
  · rfl
  · change (if ofpAllowed s.vfs.auth (resolvePath s.cwd o.input) ofpRead = true ∧
        protectWrite s (resolvePath s.cwd o.output) = true
      then ddTransfer env (s.withFiles fs) o (resolvePath s.cwd o.input) (resolvePath s.cwd o.output)
      else _) = _
    by_cases hallowed : ofpAllowed s.vfs.auth (resolvePath s.cwd o.input) ofpRead = true ∧
        protectWrite s (resolvePath s.cwd o.output) = true
    · simp only [if_pos hallowed]
      exact ddTransfer_withFiles env h o hallowed.1 _
    · simp only [if_neg hallowed]

/-- Copying a file that may be read. -/
theorem copy_withFiles (hp : ofpAllowed s.vfs.auth xp ofpRead = true) (yp : Path) :
    Commutes (fun s => copy env s xp yp) s fs := by
  have hread : readImage env (s.withFiles fs) xp imageCapacity = _ := readImage_withFiles env h hp imageCapacity
  have hmasked := masked_readImage env h xp imageCapacity
  simp only [Commutes, copy, hread]
  revert hmasked
  rcases readImage env s xp imageCapacity with ⟨t, _ | ⟨b, n⟩⟩
  · exact fun _ => rfl
  · intro hmasked
    have hwrite := vfsWrite_withFiles env hmasked yp (b.bytes 0 n)
    simp only [vfs_withFiles, hwrite]
    rfl

end

/-- Copying leaves the archive alone. -/
theorem masked_copy (h : Masked auth s fs) (xp yp : Path) : Masked auth (copy env s xp yp).1 fs := by
  have hmasked := masked_readImage env h xp imageCapacity
  rw [copy]
  revert hmasked
  rcases readImage env s xp imageCapacity with ⟨t, _ | ⟨b, n⟩⟩
  · exact id
  · intro hmasked
    have hfiles := files_vfsWrite (s := t.vfs) env yp (b.bytes 0 n)
    revert hfiles
    simp only
    intro hfiles
    rw [Masked] at hmasked ⊢
    exact hfiles ▸ hmasked

theorem moveFile_withFiles (h : Masked s.vfs.auth s fs)
    (hxp : ofpAllowed s.vfs.auth xp ofpRead = true) (yp : Path) :
    Commutes (fun s => moveFile env s xp yp) s fs := by
  have hcopy : copy env (s.withFiles fs) xp yp = _ := copy_withFiles env h hxp yp
  have hmasked := masked_copy env h xp yp
  simp only [Commutes, moveFile, hcopy]
  revert hmasked
  rcases copy env s xp yp with ⟨t, _ | _⟩
  · exact fun _ => rfl
  · intro hmasked
    have hremove := vfsRemove_withFiles env hmasked xp
    simp only [vfs_withFiles, hremove]
    rfl

theorem cMv_withFiles (h : Masked s.vfs.auth s fs) (a : List UInt8) : Commutes (fun s => cMv env s a) s fs := by
  simp only [Commutes, cMv, cwd_withFiles]
  rcases twoArgs a with _ | ⟨x, y⟩
  · rfl
  · by_cases hallowed : protectWrite s (resolvePath s.cwd x) = true ∧ protectWrite s (resolvePath s.cwd y) = true
    · -- What may be written may be read, so the source is not protected.
      have hmove : moveFile env (s.withFiles fs) (resolvePath s.cwd x) (resolvePath s.cwd y) = _ :=
        moveFile_withFiles env h (ofpRead_of_ofpWrite hallowed.1) _
      have hallowed' : protectWrite (s.withFiles fs) (resolvePath s.cwd x) = true ∧
        protectWrite (s.withFiles fs) (resolvePath s.cwd y) = true := hallowed
      simp only [if_pos hallowed, if_pos hallowed', hmove]
      rcases moveFile env s (resolvePath s.cwd x) (resolvePath s.cwd y) with ⟨t, _ | _⟩ <;> rfl
    · have hallowed' : ¬(protectWrite (s.withFiles fs) (resolvePath s.cwd x) = true ∧
        protectWrite (s.withFiles fs) (resolvePath s.cwd y) = true) := hallowed
      simp only [if_neg hallowed]
      exact if_neg hallowed'

/-! ### The command that does not ask -/

/-- `cp` of a file that may be read. -/
theorem cCp_withFiles (h : Masked s.vfs.auth s fs) (a : List UInt8)
    (hsource : ∀ x y, twoArgs a = some (x, y) → protectWrite s (resolvePath s.cwd y) = true →
      ofpAllowed s.vfs.auth (resolvePath s.cwd x) ofpRead = true) :
    Commutes (fun s => cCp env s a) s fs := by
  simp only [Commutes, cCp, cwd_withFiles]
  rcases hargs : twoArgs a with _ | ⟨x, y⟩
  · rfl
  · by_cases hallowed : protectWrite s (resolvePath s.cwd y) = true
    · have hcopy : copy env (s.withFiles fs) (resolvePath s.cwd x) (resolvePath s.cwd y) = _ :=
        copy_withFiles env h (hsource x y hargs hallowed) _
      have hallowed' : protectWrite (s.withFiles fs) (resolvePath s.cwd y) = true := hallowed
      simp only [if_pos hallowed, if_pos hallowed', hcopy]
      rcases copy env s (resolvePath s.cwd x) (resolvePath s.cwd y) with ⟨t, _ | _⟩ <;> rfl
    · have hallowed' : ¬protectWrite (s.withFiles fs) (resolvePath s.cwd y) = true := hallowed
      simp only [if_neg hallowed]
      exact if_neg hallowed'

/-- If the call is a `cp` that copies something, the policy lets that be read. -/
def SourceAllowed (s : Desk R) (call : Call) : Prop :=
  ∀ a, call = .cp a → ∀ x y, twoArgs a = some (x, y) → protectWrite s (resolvePath s.cwd y) = true →
    ofpAllowed s.vfs.auth (resolvePath s.cwd x) ofpRead = true

/-- **The commands that ask the policy treat alike what is alike.** -/
theorem run_withFiles (h : Masked s.vfs.auth s fs) (hcp : SourceAllowed s call) :
    Commutes (fun s => call.run env s) s fs := by
  cases call with
  | cat a => exact cCat_withFiles env h a
  | xxd a => exact cXxd_withFiles env h a
  | head a => exact cHead_withFiles env h a
  | tail a => exact cTail_withFiles env h a
  | wc a => exact cWc_withFiles env h a
  | dd a => exact cDd_withFiles env h a
  | cp a => exact cCp_withFiles env h a (hcp a rfl)
  | mv a => exact cMv_withFiles env h a
  | readFile p d cap => exact abiReadFile_withFiles env h p d cap

/-- There is nothing to copy. -/
theorem copy_of_readArchive_none (hp : ofpAllowed s.vfs.auth xp ofpRead = false)
    (hnone : readArchive s.vfs xp imageCapacity = none) (yp : Path) : copy env s xp yp = (s, false) := by
  rw [copy, readImage, vfsRead_refused env hp, hnone]

/-- The copy of a protected file is what is written under the other path. -/
theorem copy_of_fsFind (hp : ofpAllowed s.vfs.auth xp ofpRead = false)
    (he : fsFind s.vfs xp = some e) (hfile : e.isDir = false) (hsize : e.data.length ≤ imageCapacity)
    (yp : Path) :
    copy env s xp yp =
      ({ s with
          vfs := (vfsWrite env s.vfs yp e.data).1
          image := s.image.store 0 e.data },
        decide ((vfsWrite env s.vfs yp e.data).2 = .ok e.data.length)) := by
  have hread : readArchive s.vfs xp imageCapacity = some (.whole e.data 0o444 .initramfs) := by
    rw [readArchive, he]
    exact if_neg fun hor => hor.elim (fun hdir => by rw [hfile] at hdir; exact Bool.noConfusion hdir)
      fun hlarge => absurd hsize (not_le.2 hlarge)
  rw [copy, readImage, vfsRead_refused env hp, hread]
  simp only [Reading.whole, ByteMem.bytes_store]

/-! ### Independence of protected contents -/

/-- What is seen of a call and what it leaves of the files do not depend on the
contents of protected entries. -/
def Independent (call : Call) (s : Desk R) : Prop :=
  ∀ s', Alike s s' → (call.run env s').2 = (call.run env s).2 ∧
    SameFiles env s.vfs.auth (call.run env s).1.vfs (call.run env s').1.vfs

/-- The call is a `cp` of a protected file, and what is written to its target
either arrives or changes some file. -/
def CopiesProtected (s : Desk R) (call : Call) : Prop :=
  ∃ a x y, call = .cp a ∧ twoArgs a = some (x, y) ∧ protectWrite s (resolvePath s.cwd y) = true ∧
    ofpAllowed s.vfs.auth (resolvePath s.cwd x) ofpRead = false ∧
    (∃ e, fsFind s.vfs (resolvePath s.cwd x) = some e ∧ e.isDir = false) ∧
    ∃ d : List UInt8, d.length ≤ imageCapacity ∧
      ((vfsWrite env s.vfs (resolvePath s.cwd y) d).2 = .ok d.length ∨
        ¬SameFiles env s.vfs.auth s.vfs (vfsWrite env s.vfs (resolvePath s.cwd y) d).1)

/-- The archive with other contents for what is found under a path. -/
def rewrite (files : List Entry) (p : Path) (d : List UInt8) : List Entry :=
  files.map fun e => if pathEq e.name p then { e with data := d } else e

variable {env}

theorem masked_rewrite (hp : ofpAllowed s.vfs.auth p ofpRead = false) (d : List UInt8) :
    Masked s.vfs.auth s (rewrite s.vfs.files p d) := by
  refine forall₂_map_right_iff.2 (forall₂_same.2 fun e _ => ?_)
  by_cases hname : pathEq e.name p = true
  · rw [if_pos hname]
    exact ⟨rfl, rfl, fun hshown => absurd ⟨p, hname, hp⟩ hshown⟩
  · rw [if_neg hname]
    exact ⟨rfl, rfl, fun _ => rfl⟩

theorem fsFind_rewrite (he : fsFind s.vfs p = some e) (d : List UInt8) :
    fsFind (s.withFiles (rewrite s.vfs.files p d)).vfs p = some { e with data := d } := by
  have hname : pathEq e.name p = true := by simpa using find?_some he
  have hsame : ((fun e : Entry => pathEq e.name p) ∘
      fun e => if pathEq e.name p then { e with data := d } else e) = fun e => pathEq e.name p := by
    funext e
    by_cases h : pathEq e.name p = true
    · simp only [Function.comp_apply, if_pos h]
    · simp only [Function.comp_apply, if_neg h]
  change (rewrite s.vfs.files p d).find? _ = _
  rw [rewrite, find?_map, hsame]
  change Option.map _ (fsFind s.vfs p) = _
  rw [he, Option.map_some, if_pos hname]

/-- What is read from the archive is a file that fits. -/
theorem exists_of_readArchive {cap : ℕ} {r : Reading} (h : readArchive t p cap = some r) :
    ∃ e, fsFind t p = some e ∧ e.isDir = false ∧ e.data.length ≤ cap := by
  rw [readArchive] at h
  split at h
  · cases h
  · rename_i e he
    split at h
    · cases h
    · rename_i hok
      rw [not_or, Bool.not_eq_true, not_lt] at hok
      exact ⟨e, he, hok.1, hok.2⟩

variable (env)

/-- Nor are they after a write. -/
theorem sameFiles_vfsWrite (h : Masked auth s fs) (p : Path) (d : List UInt8) :
    SameFiles env auth (vfsWrite env s.vfs p d).1 ((vfsWrite env s.vfs p d).1.withFiles fs) := by
  refine sameFiles_withFiles env ?_
  rw [files_vfsWrite]
  exact h

/-- `cp` behind its checks. -/
theorem cCp_eq {a x y : List UInt8} (hargs : twoArgs a = some (x, y))
    (hallowed : protectWrite s (resolvePath s.cwd y) = true) :
    (cCp env s a).1 = (copy env s (resolvePath s.cwd x) (resolvePath s.cwd y)).1 ∧
      (cCp env s a).2 = if (copy env s (resolvePath s.cwd x) (resolvePath s.cwd y)).2 then ⟨[], 0, none⟩
        else ⟨[.message "cp: cannot copy between these filesystems\n"], 1, none⟩ := by
  rw [cCp, hargs]
  simp only [if_pos hallowed]
  rcases copy env s (resolvePath s.cwd x) (resolvePath s.cwd y) with ⟨t, _ | _⟩ <;> exact ⟨rfl, rfl⟩

section Copying

variable {a x y : List UInt8} (hargs : twoArgs a = some (x, y))
  (hallowed : protectWrite s (resolvePath s.cwd y) = true)
  (hp : ofpAllowed s.vfs.auth (resolvePath s.cwd x) ofpRead = false)

include hargs hallowed hp

/-- `cp` of a protected file that is not there or too large. -/
theorem cCp_of_readArchive_none
    (hnone : readArchive (s.withFiles fs).vfs (resolvePath s.cwd x) imageCapacity = none) :
    (cCp env (s.withFiles fs) a).1.vfs = s.vfs.withFiles fs ∧
      (cCp env (s.withFiles fs) a).2 = ⟨[.message "cp: cannot copy between these filesystems\n"], 1, none⟩ := by
  obtain ⟨hstate, hseen⟩ := cCp_eq env (s := s.withFiles fs) hargs hallowed
  rw [hstate, hseen, cwd_withFiles, copy_of_readArchive_none env (s := s.withFiles fs) hp hnone]
  exact ⟨rfl, rfl⟩

/-- `cp` of a protected file: its contents are written, in whatever archive. -/
theorem cCp_of_fsFind (h : Masked s.vfs.auth s fs)
    (he : fsFind (s.withFiles fs).vfs (resolvePath s.cwd x) = some e) (hfile : e.isDir = false)
    (hsize : e.data.length ≤ imageCapacity) :
    (cCp env (s.withFiles fs) a).1.vfs = (vfsWrite env s.vfs (resolvePath s.cwd y) e.data).1.withFiles fs ∧
      (cCp env (s.withFiles fs) a).2 =
        if (vfsWrite env s.vfs (resolvePath s.cwd y) e.data).2 = .ok e.data.length then ⟨[], 0, none⟩
        else ⟨[.message "cp: cannot copy between these filesystems\n"], 1, none⟩ := by
  obtain ⟨hstate, hseen⟩ := cCp_eq env (s := s.withFiles fs) hargs hallowed
  rw [hstate, hseen, cwd_withFiles, copy_of_fsFind env (s := s.withFiles fs) hp he hfile hsize]
  simp only [vfs_withFiles, vfsWrite_withFiles env h, decide_eq_true_eq, and_self]

variable {env}

/-- A copy of a protected file that cannot be made: the message is the same and no
file changes, whatever the contents. -/
theorem cCp_fails (hnot : ¬CopiesProtected env s (.cp a)) (h : Masked s.vfs.auth s fs) :
    (cCp env (s.withFiles fs) a).2 = ⟨[.message "cp: cannot copy between these filesystems\n"], 1, none⟩ ∧
      SameFiles env s.vfs.auth s.vfs (cCp env (s.withFiles fs) a).1.vfs := by
  cases hread : readArchive (s.withFiles fs).vfs (resolvePath s.cwd x) imageCapacity with
  | none =>
    obtain ⟨hstate, hseen⟩ := cCp_of_readArchive_none env hargs hallowed hp hread
    rw [hstate]
    exact ⟨hseen, sameFiles_withFiles env h⟩
  | some r =>
    -- There is a file, so the one in `s` is a file too, and what is written does not arrive.
    obtain ⟨e, he, hfile, hsize⟩ := exists_of_readArchive hread
    obtain ⟨e₀, he₀, hfile₀⟩ : ∃ e₀, fsFind s.vfs (resolvePath s.cwd x) = some e₀ ∧ e₀.isDir = false := by
      have hrel := fsFind_withFiles h (resolvePath s.cwd x)
      rw [show fsFind (s.vfs.withFiles fs) (resolvePath s.cwd x) = some e from he] at hrel
      revert hrel
      generalize fsFind s.vfs (resolvePath s.cwd x) = o
      rintro ⟨hmasks⟩
      exact ⟨_, rfl, by rw [Entry.isDir, ← hmasks.type]; exact hfile⟩
    have hwrite : (vfsWrite env s.vfs (resolvePath s.cwd y) e.data).2 ≠ .ok e.data.length ∧
        SameFiles env s.vfs.auth s.vfs (vfsWrite env s.vfs (resolvePath s.cwd y) e.data).1 := by
      by_contra hcontra
      refine hnot ⟨a, x, y, rfl, hargs, hallowed, hp, ⟨e₀, he₀, hfile₀⟩, e.data, hsize, ?_⟩
      rw [not_and_or, not_not] at hcontra
      exact hcontra
    obtain ⟨hstate, hseen⟩ := cCp_of_fsFind env hargs hallowed hp h he hfile hsize
    rw [hstate, hseen, if_neg hwrite.1]
    exact ⟨rfl, hwrite.2.trans (sameFiles_vfsWrite env h _ _)⟩

/-- A copy that can be seen gives the contents away. Two states are compared: in
one the file holds `d`, in the other it is too large to be read. -/
theorem not_independent (he : fsFind s.vfs (resolvePath s.cwd x) = some e)
    (hfile : e.isDir = false) {d : List UInt8} (hsize : d.length ≤ imageCapacity)
    (hsees : (vfsWrite env s.vfs (resolvePath s.cwd y) d).2 = .ok d.length ∨
      ¬SameFiles env s.vfs.auth s.vfs (vfsWrite env s.vfs (resolvePath s.cwd y) d).1) :
    ¬Independent env (.cp a) s := by
  intro hind
  have hsmall := masked_rewrite hp d
  have hbig := masked_rewrite hp (replicate (imageCapacity + 1) 0)
  obtain ⟨hseen, hfiles⟩ := hind _ ⟨_, hsmall, rfl⟩
  obtain ⟨hseen', hfiles'⟩ := hind _ ⟨_, hbig, rfl⟩
  have hnone : readArchive
      (s.withFiles (rewrite s.vfs.files (resolvePath s.cwd x) (replicate (imageCapacity + 1) 0))).vfs
      (resolvePath s.cwd x) imageCapacity = none := by
    rw [readArchive, fsFind_rewrite he]
    exact if_pos (.inr (by rw [length_replicate]; exact Nat.lt_succ_self _))
  obtain ⟨hstate', hout'⟩ := cCp_of_readArchive_none env hargs hallowed hp hnone
  obtain ⟨hstate, hout⟩ := cCp_of_fsFind env hargs hallowed hp hsmall (fsFind_rewrite he d) hfile hsize
  have hlost : (vfsWrite env s.vfs (resolvePath s.cwd y) d).2 ≠ .ok d.length := by
    intro hok
    have heq := hseen.trans hseen'.symm
    rw [Call.run, Call.run, hout, hout', if_pos hok] at heq
    cases heq
  refine hsees.elim hlost fun hchanged => hchanged ?_
  rw [Call.run, Call.run, hstate] at hfiles
  rw [Call.run, Call.run, hstate'] at hfiles'
  have hwritten := sameFiles_vfsWrite env hsmall (resolvePath s.cwd y) d
  exact ((sameFiles_withFiles env hbig).trans hfiles'.symm).trans (hfiles.trans hwritten.symm)

end Copying

/-- The calls that ask the policy leave the archive alone: it could be put back
without a change. -/
theorem masked_run (hcp : SourceAllowed s call) (h : Masked s.vfs.auth s fs) :
    Masked s.vfs.auth (call.run env s).1 fs := by
  have hfiles : (call.run env s).1.vfs.files = s.vfs.files :=
    congrArg (fun r => r.1.vfs.files) (run_withFiles env (masked_refl _ s) hcp)
  rw [Masked, hfiles]
  exact h

/-- **What is revealed of protected files.** A call is independent of their
contents unless it is a `cp` from one of them to a place where there is something
to see of it. -/
theorem independent_iff (call : Call) (s : Desk R) : Independent env call s ↔ ¬CopiesProtected env s call := by
  constructor
  · rintro hind ⟨a, x, y, rfl, hargs, hallowed, hp, ⟨e, he, hfile⟩, d, hsize, hsees⟩
    exact not_independent hargs hallowed hp he hfile hsize hsees hind
  · rintro hnot s' ⟨fs, h, rfl⟩
    by_cases hcp : SourceAllowed s call
    · have hrun : call.run env (s.withFiles fs) = _ := run_withFiles env h hcp
      rw [hrun]
      exact ⟨rfl, sameFiles_withFiles env (masked_run env hcp h)⟩
    · unfold SourceAllowed at hcp
      push Not at hcp
      obtain ⟨a, rfl, x, y, hargs, hallowed, hp⟩ := hcp
      obtain ⟨hseen, hfiles⟩ := cCp_fails hargs hallowed (Bool.eq_false_of_not_eq_true hp) hnot (masked_refl _ s)
      obtain ⟨hseen', hfiles'⟩ := cCp_fails hargs hallowed (Bool.eq_false_of_not_eq_true hp) hnot h
      exact ⟨hseen'.trans hseen.symm, hfiles.symm.trans hfiles'⟩

end

/-- `alice` in the directory `/`, with the archive's `etc/shadow` holding `d`. -/
def shadowDesk (d : List UInt8) : Desk Unit where
  vfs := aliceAlone.withFiles [⟨chars ['e', 't', 'c', '/', 's', 'h', 'a', 'd', 'o', 'w'], d, 48⟩]
  cwd := [47]
  image := fun _ => 0
  stack := fun _ => 0

/-- The arguments `/etc/shadow /tmp/x`. -/
def copyShadow : List UInt8 :=
  chars ['/', 'e', 't', 'c', '/', 's', 'h', 'a', 'd', 'o', 'w', ' ', '/', 't', 'm', 'p', '/', 'x']

/-- The two states differ in a file that `alice` may not read, and after
`cp /etc/shadow /tmp/x` in one that they may. -/
theorem alice_copies_shadow :
    authIsRoot (shadowDesk [49]).vfs.auth = false ∧ Alike (shadowDesk [49]) (shadowDesk [50]) ∧
      contents ((Call.cp copyShadow).run quietEnv (shadowDesk [49])).1.vfs
        (chars ['/', 't', 'm', 'p', '/', 'x']) 512 = some ([49], 1) ∧
      contents ((Call.cp copyShadow).run quietEnv (shadowDesk [50])).1.vfs
        (chars ['/', 't', 'm', 'p', '/', 'x']) 512 = some ([50], 1) := by
  have hprotected : Protected (shadowDesk [49]).vfs.auth
      ⟨chars ['e', 't', 'c', '/', 's', 'h', 'a', 'd', 'o', 'w'], [49], 48⟩ :=
    ⟨chars ['/', 'e', 't', 'c', '/', 's', 'h', 'a', 'd', 'o', 'w'], by decide +kernel, by decide +kernel⟩
  have halike : Alike (shadowDesk [49]) (shadowDesk [50]) :=
    ⟨(shadowDesk [50]).vfs.files, .cons ⟨rfl, rfl, fun h => absurd hprotected h⟩ .nil, rfl⟩
  exact ⟨by decide +kernel, halike, by decide +kernel, by decide +kernel⟩

end OS64.Shell
