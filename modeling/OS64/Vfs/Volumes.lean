import OS64.Ext2.Confined
import OS64.Vfs.Tmpfs
import OS64.Vfs.Writes

/-!
# Two volumes on one disk

The drivers of `/home` and of `/var` share a disk, and each takes from the disk the
numbers of the sectors that it writes. As long as the volume of `/home` is safe, its
driver stays below the partition of `/var` (`OS64.Fat.Orderly`); the driver of `/var` never
leaves its own (`OS64.Ext2.Stays`). So neither volume is changed through the other driver,
and both remain sound in a run in which calls to both are mixed, together with everything
else that happens to files (`OS64.Vfs.volumes_run`).
-/

namespace OS64

open List ByteMem

/-! ### What is outside of a volume -/

namespace Fat

variable {s : State} {D : Set ℕ}

/-- Soundness looks at the table and at the directories only. -/
theorem Guarded.congr {V V' : Volume} (h : Guarded V D) (hfat : V'.fat = V.fat)
    (hdir : ∀ d ∈ D, V'.dir d = V.dir d) : Guarded V' D := by
  have hholds : ∀ {d i e}, V'.Holds D d i e → V.Holds D d i e := by
    rintro d i e ⟨hd, hi, he, hdots⟩
    exact ⟨hd, hi, (congrFun (hdir d hd) i).symm.trans he, hdots⟩
  have hlinks : V'.Links = V.Links := by
    funext a b
    rw [Volume.Links, Volume.Links, hfat]
  refine ⟨⟨h.sound.root, ?_, ?_, ?_, ?_, ?_, ?_, ?_⟩, ?_, ?_⟩
  · rw [hfat]
    exact h.sound.dirs
  · rw [hfat]
    exact h.sound.small
  · intro d hd
    rw [hdir d hd]
    exact h.sound.unique d hd
  · rw [hfat]
    exact fun d i e he => h.sound.heads d i e (hholds he)
  · exact fun d i e he => h.sound.empty d i e (hholds he)
  · exact fun d i e d' i' e' he he' => h.sound.separate d i e d' i' e' (hholds he) (hholds he')
  · rw [hfat, hlinks]
    intro a b hab
    obtain ⟨hrange, hused, hnot, honce, hheads⟩ := h.sound.links a b hab
    exact ⟨hrange, hused, hnot, honce, fun d i e he => hheads d i e (hholds he)⟩
  · rw [hfat]
    exact h.zero
  · rw [hfat]
    intro _ hlt
    obtain ⟨hrange, hroot, hused, hnot, hhead, hnext⟩ := h.spare trivial hlt
    exact ⟨hrange, hroot, hfat ▸ hused, hnot, fun d i e he => hhead d i e (hholds he), hlinks ▸ hnext⟩

theorem fat_withDisk {disk : Disk} (hdisk : ∀ lba, InHome lba → disk lba = s.disk lba) :
    State.fat { s with disk := disk } = s.fat := by
  funext c
  rw [State.fat, State.fat]
  by_cases hc : c < 127008
  · rw [if_pos hc, if_pos hc]
    exact congrArg (r32 · _) (hdisk _ ⟨by rw [homeStart]; omega, by rw [varStart]; omega⟩)
  · rw [if_neg hc, if_neg hc]

theorem State.Counted.withDisk (h : s.Counted) {disk : Disk} (hdisk : ∀ lba, InHome lba → disk lba = s.disk lba) :
    State.Counted { s with disk := disk } := by
  rw [State.Counted, fat_withDisk hdisk]
  exact h

/-- **A safe volume stays safe** when the disk changes outside it. -/
theorem Safe.withDisk (h : Safe s D) {disk : Disk} (hpartition : disk 0 = s.disk 0)
    (hdisk : ∀ lba, InHome lba → disk lba = s.disk lba) : Safe { s with disk := disk } D := by
  have hhome : ∀ lba, 2048 ≤ lba → lba < 131072 → disk lba = s.disk lba := fun lba hge hlt => hdisk lba ⟨hge, hlt⟩
  have hl := h.layout
  refine ⟨⟨⟨hl.volumeStart, hl.reserved, hl.fatSectors, hl.dataStart, hl.rootCluster, hl.fatCount,
    hl.sectorsPerCluster⟩, ?_, ?_, ?_, ?_, fun i hi => ?_⟩, ?_, h.next_ge, h.next_le⟩
  · exact hpartition.trans hl.partition
  · exact (hdisk 2048 (by decide)).trans hl.boot
  · exact (hdisk 2049 (by decide)).trans hl.info
  · exact (hdisk 2055 (by decide)).trans hl.infoCopy
  · exact (hhome _ (by omega) (by omega)).trans ((hl.copies i hi).trans (hhome _ (by omega) (by omega)).symm)
  · refine h.guarded.congr (fat_withDisk hdisk) fun d hd => ?_
    obtain ⟨hge, hlt⟩ := (h.sound.dirs d hd).1
    have hsector : State.sector { s with disk := disk } d = s.sector d := by
      rw [State.sector, State.sector, if_pos hge, if_pos hge]
      exact hhome _ (by omega) (by omega)
    rw [graph_dir, graph_dir, hsector]

end Fat

namespace Ext2

variable {s : State} {P : ℕ → ℕ}

/-- **A good volume stays good** when the disk changes before it. -/
theorem Good.withDisk (h : Good s P) {disk : Disk} (hdisk : ∀ lba, InVar lba → disk lba = s.disk lba) :
    Good { s with disk := disk } P := by
  have hblock : ∀ n < 16384, State.block { s with disk := disk } n = s.block n := by
    intro n hn
    funext x
    simp only [State.block, blockAt, h.base]
    split
    · rw [hdisk]
      constructor
      · rw [Fat.varStart]
        omega
      · rw [Fat.varStart, Fat.varSectors]
        omega
    · rfl
  have hview : State.view { s with disk := disk } = s.view := by
    simp only [State.view, View.mk.injEq]
    refine ⟨by rw [hblock 2 (by decide)], by rw [hblock 3 (by decide)], ?_, ?_⟩
    · funext ino
      split
      · rw [hblock _ (by omega)]
      · rfl
    · funext n
      split
      · rw [hblock _ (by omega)]
      · rfl
  refine ⟨⟨⟨h.base, h.blocks, h.mounted⟩, ?_, ?_, ?_, ?_⟩, hview.symm ▸ h.sound⟩
  · rw [hblock 0 (by decide), hview]
    exact h.superBlocks
  · rw [hblock 0 (by decide), hview]
    exact h.superInodes
  · rw [hblock 1 (by decide), hview]
    exact h.groupBlocks
  · rw [hblock 1 (by decide), hview]
    exact h.groupInodes

end Ext2

namespace Vfs

variable {R : Type} {env : Env R} {s : State R}

/-! ### What happens to files -/

/-- What happens to files: a call for a path, a call of one of the drivers, and what
happens to accounts and to the random numbers. -/
inductive Act (R : Type) where
  | write (p : Path) (d : List UInt8)
  | remove (p : Path)
  | home (call : Fat.KernelCall)
  | var (call : Ext2.Call)
  | tmp (call : TmpCall)
  | session (auth : Auth.State)
  | stir (pool : R)

/-- It happens. -/
def Act.exec (env : Env R) (s : State R) : Act R → State R
  | .write p d => (vfsWrite env s p d).1
  | .remove p => (vfsRemove env s p).1
  | .home call => s.putFat (call.exec s.fat)
  | .var call => s.putExt2 (call.after s.ext2)
  | .tmp call => (call.exec s).1
  | .session auth => { s with auth := auth }
  | .stir pool => { s with pool := pool }

/-- The paths are strings. -/
def Act.ZeroFree : Act R → Prop
  | .write p _ => 0 ∉ p
  | .remove p => 0 ∉ p
  | .home call => call.ZeroFree
  | _ => True

/-- What is handed to the driver of `/var` fits into its buffer. -/
def Act.Fits : Act R → Prop
  | .write p _ => nativePath p = true → Ext2.LeafFits p
  | .remove p => nativePath p = true → Ext2.LeafFits p
  | .var call => call.Fits
  | _ => True

/-- It is not a `disk_store_large` that comes upon a directory. -/
def Act.SparesDirectories (s : State R) : Act R → Prop
  | .home call => call.SparesDirectories s.fat
  | _ => True

/-- Both volumes are new. -/
def formatted (level : ℕ) (s : State R) : State R :=
  let s := s.putFat (Fat.diskFormat s.fat)
  s.putExt2 ((Ext2.extVariantFormat level).run s.ext2).2

/-- What becomes of two new volumes. -/
def run (env : Env R) (level : ℕ) (s₀ : State R) (acts : List (Act R)) : State R :=
  acts.foldl (Act.exec env) (formatted level s₀)

/-! ### Both volumes -/

/-- The volume of `/home` is safe, with right counters, and that of `/var` is good. -/
structure Volumes (s : State R) : Prop where
  home : ∃ D, Fat.Safe s.fat D ∧ s.fat.Counted
  var : Ext2.Good s.ext2 fun _ => 0

theorem not_inHome_of_inVar {lba : ℕ} (h : Ext2.InVar lba) : ¬Fat.InHome lba := fun h' =>
  absurd h'.2 (not_lt.mpr h.1)

theorem Volumes.putFat (h : Volumes s) {fat : Fat.State} (hhome : ∃ D, Fat.Safe fat D ∧ fat.Counted)
    (hwrites : Store.Writes Fat.InHome s.fat.disk fat.disk) : Volumes (s.putFat fat) := by
  refine ⟨hhome, h.var.withDisk fun lba hlba => ?_⟩
  rw [s.shared]
  exact hwrites.frame (not_inHome_of_inVar hlba)

/-- What the driver of `/var` writes is outside the volume of `/home`. -/
theorem home_withDisk {fat : Fat.State} {disk : Disk} (h : ∃ D, Fat.Safe fat D ∧ fat.Counted)
    (hwrites : Store.Writes Ext2.InVar fat.disk disk) :
    ∃ D, Fat.Safe { fat with disk := disk } D ∧ Fat.State.Counted { fat with disk := disk } := by
  obtain ⟨D, hsafe, hcounted⟩ := h
  have hdisk : ∀ lba, Fat.InHome lba → disk lba = fat.disk lba := fun lba hlba =>
    hwrites.frame fun hin => not_inHome_of_inVar hin hlba
  exact ⟨D, hsafe.withDisk (hwrites.frame (by decide)) hdisk, hcounted.withDisk hdisk⟩

theorem Volumes.putExt2 (h : Volumes s) {ext2 : Ext2.State} (hvar : Ext2.Good ext2 fun _ => 0)
    (hwrites : Store.Writes Ext2.InVar s.ext2.disk ext2.disk) : Volumes (s.putExt2 ext2) := by
  rw [s.shared] at hwrites
  exact ⟨home_withDisk h.home hwrites, hvar⟩

theorem Volumes.same {s' : State R} (h : Volumes s) (hsame : SameVolumes s s') : Volumes s' := by
  obtain ⟨hfat, hext2⟩ := hsame
  exact ⟨hfat ▸ h.home, hext2 ▸ h.var⟩

theorem sameVolumes_tmpfsChange (s : State R) (p : Path) (f : Node → Node) : SameVolumes s (tmpfsChange s p f).1 := by
  rw [tmpfsChange]
  repeat' split
  all_goals exact ⟨rfl, rfl⟩

theorem sameVolumes_tmpCall (s : State R) (call : TmpCall) : SameVolumes s (call.exec s).1 := by
  cases call with
  | store p d m u g => exact sameVolumes_tmpfsStore s p d m u g
  | remove p => exact sameVolumes_tmpfsRemove s p
  | chmod p m => exact sameVolumes_tmpfsChange s p _
  | chown p u g su sg => exact sameVolumes_tmpfsChange s p _

/-- The sectors that belong to a path. -/
def pathRegion (p : Path) (lba : ℕ) : Prop :=
  (homePath p = true ∧ Fat.InHome lba) ∨ (nativePath p = true ∧ Ext2.InVar lba)

/-- The sectors that may be written. -/
def Act.region : Act R → ℕ → Prop
  | .write p _ => pathRegion p
  | .remove p => pathRegion p
  | .home _ => Fat.InHome
  | .var _ => Ext2.InVar
  | _ => fun _ => False

/-- From `s` to `s'` only sectors of `P` have been written. -/
def WritesDisk (P : ℕ → Prop) (s s' : State R) : Prop := Store.Writes P s.fat.disk s'.fat.disk

theorem WritesDisk.of_same {P : ℕ → Prop} {s' : State R} (h : SameVolumes s s') : WritesDisk P s s' := by
  rw [WritesDisk, h.1]
  exact .refl

/-- A call of the driver of `/home` keeps both volumes in order. -/
theorem Volumes.home_exec (h : Volumes s) (call : Fat.KernelCall) (hzero : call.ZeroFree)
    (hspares : call.SparesDirectories s.fat) :
    Volumes (s.putFat (call.exec s.fat)) ∧ WritesDisk Fat.InHome s (s.putFat (call.exec s.fat)) := by
  obtain ⟨D, hsafe, hcounted⟩ := h.home
  obtain ⟨D', hsafe', hcounted', hwrites⟩ := hsafe.exec hcounted hzero hspares
  exact ⟨h.putFat ⟨D', hsafe', hcounted'⟩ hwrites, hwrites⟩

/-- A call of the driver of `/var` keeps both volumes in order. -/
theorem Volumes.var_exec (h : Volumes s) (call : Ext2.Call) :
    Volumes (s.putExt2 (call.after s.ext2)) ∧ WritesDisk Ext2.InVar s (s.putExt2 (call.after s.ext2)) := by
  have hwrites := (Ext2.respects_exec call s.ext2).writes ⟨h.var.base, h.var.blocks.le⟩
  refine ⟨h.putExt2 (h.var.after call) hwrites, ?_⟩
  rw [WritesDisk, ← s.shared]
  exact hwrites

/-- **Whatever happens keeps both volumes in order**, and only writes where it may. -/
theorem Volumes.exec (h : Volumes s) {act : Act R} (hzero : act.ZeroFree) (hspares : act.SparesDirectories s) :
    Volumes (act.exec env s) ∧ WritesDisk act.region s (act.exec env s) := by
  cases act with
  | write p d =>
    rcases vfsWrite_cases env s p d with hsame | ⟨hp, heq⟩ | ⟨hp, heq⟩
    · exact ⟨h.same hsame, .of_same hsame⟩
    · obtain ⟨hvolumes, hwrites⟩ := h.home_exec (.call (.store p _ d.length)) hzero trivial
      rw [Act.exec, heq]
      exact ⟨hvolumes, hwrites.mono fun lba hlba => .inl ⟨hp, hlba⟩⟩
    · obtain ⟨hvolumes, hwrites⟩ := h.var_exec (storeCall s p d)
      rw [Act.exec, heq]
      exact ⟨hvolumes, hwrites.mono fun lba hlba => .inr ⟨hp, hlba⟩⟩
  | remove p =>
    rcases vfsRemove_cases env s p with hsame | ⟨hp, heq⟩ | ⟨hp, heq⟩
    · exact ⟨h.same hsame, .of_same hsame⟩
    · obtain ⟨hvolumes, hwrites⟩ := h.home_exec (.call (.remove p)) hzero trivial
      rw [Act.exec, heq]
      exact ⟨hvolumes, hwrites.mono fun lba hlba => .inl ⟨hp, hlba⟩⟩
    · obtain ⟨hvolumes, hwrites⟩ := h.var_exec (.remove p)
      rw [Act.exec, heq]
      exact ⟨hvolumes, hwrites.mono fun lba hlba => .inr ⟨hp, hlba⟩⟩
  | home call => exact h.home_exec call hzero hspares
  | var call => exact h.var_exec call
  | tmp call =>
    have hsame := sameVolumes_tmpCall s call
    exact ⟨h.same hsame, .of_same hsame⟩
  | session auth => exact ⟨⟨h.home, h.var⟩, .of_same ⟨rfl, rfl⟩⟩
  | stir pool => exact ⟨⟨h.home, h.var⟩, .of_same ⟨rfl, rfl⟩⟩

/-! ### Runs -/

theorem volumes_formatted {level : ℕ} (hlevel : 2 ≤ level ∧ level ≤ 4) (s : State R) : Volumes (formatted level s) := by
  obtain ⟨ext2, hformat, hnew⟩ := Ext2.formatted_extVariantFormat hlevel (s.putFat (Fat.diskFormat s.fat)).ext2
  have hwrites := Ext2.writes_extVariantFormat level (s.putFat (Fat.diskFormat s.fat)).ext2
  rw [formatted]
  rw [hformat] at hwrites ⊢
  have hnewHome : ∃ D, Fat.Safe (Fat.diskFormat s.fat) D ∧ (Fat.diskFormat s.fat).Counted :=
    ⟨{2}, Fat.safe_diskFormat s.fat, (Fat.diskFormat_inv s.fat).counted⟩
  exact ⟨home_withDisk hnewHome hwrites, hnew.toGood⟩

section

variable {level : ℕ} (hlevel : 2 ≤ level ∧ level ≤ 4) (s₀ : State R) {acts : List (Act R)}
  (hzero : ∀ act ∈ acts, act.ZeroFree)
  (hspares : Runs.Throughout (fun before act => act.SparesDirectories (run env level s₀ before)) acts)
include hlevel hzero hspares

/-- **Both volumes are in order in a run** in which no `disk_store_large` comes upon a
directory. -/
theorem volumes_run : Volumes (run env level s₀ acts) := by
  refine Runs.foldl_invariant (volumes_formatted hlevel s₀) ?_
  rintro before act after rfl h
  exact (h.exec (hzero act (by simp)) (hspares before act after rfl)).1

/-- **No driver writes outside of its partition** in a run in which no `disk_store_large`
comes upon a directory and no path is too long for the driver of `/var`. -/
theorem partitions_isolated (_hfits : ∀ act ∈ acts, act.Fits) :
    Runs.Throughout (fun before act =>
      WritesDisk act.region (run env level s₀ before) (act.exec env (run env level s₀ before))) acts := by
  rintro before act after rfl
  have hbefore : Volumes (run env level s₀ before) := by
    refine volumes_run hlevel s₀ (fun act hact => hzero act (by simp [hact])) ?_
    exact fun before' act' after' hsplit =>
      hspares before' act' (after' ++ act :: after) (by rw [hsplit, append_assoc, cons_append])
  exact (hbefore.exec (hzero act (by simp)) (hspares before act after rfl)).2

/-- **Both volumes stay in order on the one disk**, however the calls to their drivers are mixed. -/
theorem volumes_consistent (_hfits : ∀ act ∈ acts, act.Fits) : Ext2.Consistent (run env level s₀ acts).ext2 ∧
    ∃ D, Fat.Safe (run env level s₀ acts).fat D ∧ (run env level s₀ acts).fat.Counted :=
  have h := volumes_run hlevel s₀ hzero hspares
  ⟨h.var.consistent, h.home⟩

end

/-- The disk of two new volumes is that of a new volume of `/home`, but for the partition
of `/var`. -/
theorem fat_formatted (level : ℕ) (s : State R) : (formatted level s).fat =
    { Fat.diskFormat s.fat with
      disk := fun lba =>
        if Ext2.InVar lba then (formatted level s).fat.disk lba else (Fat.diskFormat s.fat).disk lba } := by
  have hwrites := Ext2.writes_extVariantFormat level (s.putFat (Fat.diskFormat s.fat)).ext2
  have hdisk : (formatted level s).fat.disk = fun lba =>
      if Ext2.InVar lba then (formatted level s).fat.disk lba else (Fat.diskFormat s.fat).disk lba := by
    funext lba
    by_cases hlba : Ext2.InVar lba
    · rw [if_pos hlba]
    · rw [if_neg hlba]
      exact hwrites.frame hlba
  rw [← hdisk]
  rfl

theorem run_home (env : Env R) (level : ℕ) (s₀ : State R) (calls : List Fat.KernelCall) :
    (run env level s₀ (calls.map .home)).fat = calls.foldl Fat.KernelCall.exec (formatted level s₀).fat := by
  induction calls using List.reverseRecOn with
  | nil => rfl
  | append_singleton calls call ih =>
    rw [run, map_append, foldl_append, foldl_append]
    exact congrArg call.exec ih

/-- Nothing happens to a sector outside of the volume. -/
theorem WritesDisk.home_frame {call : Fat.KernelCall}
    (h : WritesDisk (Act.region (.home call : Act R)) s (Act.exec env s (.home call))) {lba : ℕ}
    (hlba : ¬Fat.InHome lba) : (call.exec s.fat).disk lba = s.fat.disk lba :=
  h.frame hlba

/-- A directory and a file are made on the volume of `/home`, and a file on that of `/var`. -/
def bothVolumes : List (Act Unit) :=
  [.home (.call (.create (homePrefix ++ chars ['a']) 1)), .var Ext2.storeFirst,
    .home (.call (.store (homePrefix ++ chars ['a', '/', 'f']) (fun _ => 65) 512))]

theorem proper_bothVolumes : (∀ act ∈ bothVolumes, act.ZeroFree) ∧ (∀ act ∈ bothVolumes, act.Fits) ∧
    Runs.Throughout (fun before act => act.SparesDirectories (run quietEnv 2 aliceAlone before)) bothVolumes := by
  refine ⟨?_, ?_, ?_⟩
  · simp only [bothVolumes, forall_mem_cons]
    exact ⟨(by decide : 0 ∉ homePrefix ++ _), trivial, (by decide : 0 ∉ homePrefix ++ _), by simp⟩
  · simp only [bothVolumes, forall_mem_cons]
    exact ⟨trivial, (by decide : Ext2.LeafFits Ext2.firstPath), trivial, by simp⟩
  · rintro before act after hsplit
    have hact : act ∈ bothVolumes := by rw [hsplit]; simp
    simp only [bothVolumes, mem_cons, not_mem_nil, or_false] at hact
    rcases hact with rfl | rfl | rfl
    · trivial
    · trivial
    · trivial

theorem volumes_consistent_both : Ext2.Consistent (run quietEnv 2 aliceAlone bothVolumes).ext2 ∧
    ∃ D, Fat.Safe (run quietEnv 2 aliceAlone bothVolumes).fat D ∧ (run quietEnv 2 aliceAlone bothVolumes).fat.Counted :=
  volumes_consistent (by decide) aliceAlone proper_bothVolumes.1 proper_bothVolumes.2.2 proper_bothVolumes.2.1

/-- The first of them makes a directory: the root directory of `/home` is written, and nothing
outside of the partition. -/
theorem mkdir_isolated :
    let s := run quietEnv 2 aliceAlone []
    let s' := Act.exec quietEnv s (.home (.call (.create (homePrefix ++ chars ['a']) 1)))
    WritesDisk Fat.InHome s s' ∧ s'.fat.disk 4066 32 = 65 ∧ s.fat.disk 4066 32 = 0 := by
  intro s s'
  have hbyte : ((Fat.diskCreate (run quietEnv 2 aliceAlone []).fat (homePrefix ++ chars ['a']) 1).1.disk 4066 32,
      (run quietEnv 2 aliceAlone []).fat.disk 4066 32) = (65, 0) := by
    rw [show (run quietEnv 2 aliceAlone []).fat = (formatted 2 aliceAlone).fat from rfl, fat_formatted, aliceAlone,
      Fat.diskFormat_eq]
    decide +kernel
  obtain ⟨hafter, hbefore⟩ := Prod.mk.inj hbyte
  have hexec : ∀ t : State Unit, (Act.exec quietEnv t (.home (.call (.create (homePrefix ++ chars ['a']) 1)))).fat =
      (Fat.diskCreate t.fat (homePrefix ++ chars ['a']) 1).1 := fun _ => rfl
  refine ⟨?_, ?_, hbefore⟩
  · exact partitions_isolated (by decide) aliceAlone proper_bothVolumes.1 proper_bothVolumes.2.2 proper_bothVolumes.2.1
      [] _ _ rfl
  · rw [← hafter]
    exact congrArg (fun fat : Fat.State => fat.disk 4066 32) (hexec s)

/-- The entry of a directory `G` in sector 100, before the volumes. -/
def strayEntry : Sector :=
  Fat.setCluster (Fat.w8 (store (fill Fat.zero 0 32 11) 0 (chars ['G'])) 11 0x10) 0 (2 ^ 32 - 3964)

/-- Directories `a`, `a/a` and `a/a/f` and a file `a/f`; for the last one `strayEntry` is
stored as its text. The name is then looked up a second time, and leads to the directory. -/
def strayCalls : List Fat.KernelCall :=
  [.call (.create (homePrefix ++ chars ['a']) 1), .call (.create (homePrefix ++ chars ['a', '/', 'a']) 1),
    .call (.create (homePrefix ++ chars ['a', '/', 'a', '/', 'f']) 1),
    .call (.create (homePrefix ++ chars ['a', '/', 'f']) 0),
    .call (.storeLarge (homePrefix ++ chars ['a', '/', 'f']) strayEntry 32)]

/-- A file is made in the directory `G` of the directory `f`. -/
def strayCreate : Fat.KernelCall := .call (.create (homePrefix ++ chars ['f', '/', 'g', '/', 'x']) 0)

/-- Sector 100 is then written. -/
theorem create_strays :
    ¬WritesDisk (Act.region (.home strayCreate : Act Unit)) (run quietEnv 2 aliceAlone (strayCalls.map .home))
      (Act.exec quietEnv (run quietEnv 2 aliceAlone (strayCalls.map .home)) (.home strayCreate)) := by
  have hbyte : ((strayCreate.exec (run quietEnv 2 aliceAlone (strayCalls.map .home)).fat).disk 100 0,
      (run quietEnv 2 aliceAlone (strayCalls.map .home)).fat.disk 100 0) = (88, 0) := by
    rw [run_home, fat_formatted, aliceAlone, Fat.diskFormat_eq]
    decide +kernel
  intro hwrites
  rw [hwrites.home_frame (show ¬Fat.InHome 100 by decide)] at hbyte
  obtain ⟨hafter, hbefore⟩ := Prod.mk.inj hbyte
  exact absurd (hafter.symm.trans hbefore) (by decide)

end Vfs

end OS64
