import OS64.Fat.GivenBack
import OS64.Vfs.Aliases

/-!
# What `stat` says and what is there

`stat_raw` and `disk_load` find a file of the volume of `/home` in different ways.
`disk_load` follows the path. `stat_raw` looks for the last component among the entries of
the root, as they are printed, and only if there is none it asks `disk_load`; a file
that is not found is then looked for in the archive.

So `stat` is right in two cases (`OS64.Vfs.stat_agrees_iff`). Either the root has an
entry that is printed as the last component, and the path has no directories and is
spelled such that it means just this entry. Or it has none, and the path leads to a file, or the archive has nothing to add: a
directory that is spelled with small letters, or one inside another directory, is
not seen.
-/

namespace OS64.Vfs

open Text Option
open Fat (dirRead entrySize entryIsDir diskLoad pathA diskFormat_eq)

variable {R : Type} (env : Env R) (s : State R) {p : Path}

/-! ### The search -/

/-- The slot of the root directory that `stat_raw` takes for the path: the first one that
is printed as its last component. -/
def rootSlot (fat : Fat.State) (p : Path) : Option ℕ :=
  if fat.mounted then
    let r := Fat.dirRead fat fat.rootCluster
    (List.range 16).find? fun i => (Fat.entryLive r i && (Fat.entryAttr r i &&& 8 = 0)) &&
      (printable (Fat.entryName r i) = lastComponent p)
  else none

/-- **The search of `stat_raw`** in terms of slots. -/
theorem homeFind_eq (fat : Fat.State) (p : Path) : homeFind fat p =
    match rootSlot fat p with
    | some i => some (entrySize (dirRead fat fat.rootCluster) i, entryIsDir (dirRead fat fat.rootCluster) i)
    | none => (diskLoad fat p).map fun f => (f.1, false) := by
  have hfind : (diskFiles fat).find? (fun f => f.1 = lastComponent p) = (rootSlot fat p).map fun i =>
      (printable (Fat.entryName (dirRead fat fat.rootCluster) i),
        entryIsDir (dirRead fat fat.rootCluster) i,
        entrySize (dirRead fat fat.rootCluster) i) := by
    rw [diskFiles, rootSlot]
    by_cases hm : fat.mounted = true
    · rw [if_pos hm, if_pos hm]
      simp only [List.find?_map, List.find?_filter]
      congr 2
      funext i
      simp only [Function.comp_apply, Bool.decide_and, Bool.decide_eq_true]
    · rw [if_neg hm, if_neg hm]
      rfl
  rw [homeFind, hfind]
  rcases rootSlot fat p with _ | i
  · rfl
  · rfl

/-- On the volume of `/home` nothing comes before it, and the archive after it. -/
theorem statRaw_home (hp : homePath p = true) : statRaw env s p = (statFat env s p).or (statArchive s p) := by
  rcases Bool.or_eq_true_iff.mp hp with hp | hp
  · obtain ⟨x, rfl⟩ := List.isPrefixOf_iff_prefix.mp hp
    rw [statRaw, statFixed_homePrefix, statExt2_homePrefix]
    rfl
  · obtain ⟨x, rfl⟩ := List.isPrefixOf_iff_prefix.mp hp
    rw [statRaw, statFixed_mountPrefix, statExt2_mountPrefix]
    rfl

/-! ### Agreement -/

/-- The path leads to slot `i` of directory `d`. -/
def LeadsTo (fat : Fat.State) (p : Path) (d i : ℕ) : Prop :=
  Fat.parentDir fat p = some (d, Fat.leafOf p) ∧ Fat.findSlot (Fat.dirRead fat d) (Fat.leafOf p) = some i

/-- The volume is mounted and the path leads to a directory. -/
def IsDirectory (fat : Fat.State) (p : Path) : Prop :=
  fat.mounted = true ∧ ∃ d i, LeadsTo fat p d i ∧ Fat.entryIsDir (Fat.dirRead fat d) i = true

/-- `stat_raw` says what is there: a file of some size exactly if `disk_load` finds one of
this size, a directory exactly if the path leads to one, and if it takes its answer
from an entry of the root, then from the one the path leads to. -/
structure StatAgrees (env : Env R) (s : State R) (p : Path) : Prop where
  file : ∀ z, (∃ st, statRaw env s p = some st ∧ st.type = .file ∧ st.size = z) ↔
    ∃ b, Fat.diskLoad s.fat p = some (z, b)
  directory : (∃ st, statRaw env s p = some st ∧ st.type = .directory) ↔ IsDirectory s.fat p
  own : ∀ i, rootSlot s.fat p = some i → LeadsTo s.fat p s.fat.rootCluster i

theorem diskLoad_eq (fat : Fat.State) {d i : ℕ} (hm : fat.mounted = true)
    (hlead : LeadsTo fat p d i) : diskLoad fat p =
      if entryIsDir (dirRead fat d) i then none
      else some (entrySize (dirRead fat d) i, fat.disk (Fat.clusterLba fat (Fat.entryCluster (dirRead fat d) i))) := by
  rw [diskLoad, if_neg (not_not.mpr hm), Fat.findEntry, hlead.1]
  simp only [hlead.2]

theorem not_isDirectory_of_diskLoad (fat : Fat.State) {f : ℕ × Sector}
    (hload : diskLoad fat p = some f) : ¬IsDirectory fat p := by
  rintro ⟨hm, d, i, hlead, hdir⟩
  rw [diskLoad_eq fat hm hlead, if_pos hdir] at hload
  simp at hload

section Cases

variable {s} (hp : homePath p = true)
include hp

variable {i z : ℕ} {b : Sector}

theorem statRaw_of_rootSlot (hslot : rootSlot s.fat p = some i) :
    ∃ st, statRaw env s p = some st ∧ st.size = entrySize (dirRead s.fat s.fat.rootCluster) i ∧
      st.type = if entryIsDir (dirRead s.fat s.fat.rootCluster) i then .directory else .file := by
  rw [statRaw_home env s hp, statFat, if_pos hp, homeFind_eq, hslot]
  exact ⟨_, rfl, rfl, rfl⟩

omit hp in
theorem statAgrees_of_file {st : Stat} (hst : statRaw env s p = some st) (hsize : st.size = z)
    (htype : st.type = .file) (hload : diskLoad s.fat p = some (z, b))
    (hown : ∀ i, rootSlot s.fat p = some i → LeadsTo s.fat p s.fat.rootCluster i) : StatAgrees env s p := by
  refine ⟨fun z' => ⟨?_, ?_⟩, ⟨?_, ?_⟩, hown⟩
  · rintro ⟨st', hst', -, rfl⟩
    rw [← some.inj (hst.symm.trans hst'), hsize]
    exact ⟨b, hload⟩
  · rintro ⟨b', hb'⟩
    exact ⟨st, hst, htype, hsize.trans (Prod.mk.inj (some.inj (hload.symm.trans hb'))).1⟩
  · rintro ⟨st', hst', htype'⟩
    rw [← some.inj (hst.symm.trans hst'), htype] at htype'
    simp at htype'
  · exact fun hisDir => absurd hisDir (not_isDirectory_of_diskLoad s.fat hload)

theorem statAgrees_of_rootSlot (hslot : rootSlot s.fat p = some i) :
    StatAgrees env s p ↔ LeadsTo s.fat p s.fat.rootCluster i := by
  refine ⟨fun h => h.own i hslot, fun hlead => ?_⟩
  obtain ⟨st, hst, hsize, htype⟩ := statRaw_of_rootSlot env hp hslot
  have hm : s.fat.mounted = true := by
    by_contra hm
    rw [rootSlot, if_neg hm] at hslot
    simp at hslot
  have hload := diskLoad_eq s.fat hm hlead
  have hown : ∀ j, rootSlot s.fat p = some j → LeadsTo s.fat p s.fat.rootCluster j := by
    intro j hj
    rw [← some.inj (hslot.symm.trans hj)]
    exact hlead
  by_cases hdir : entryIsDir (dirRead s.fat s.fat.rootCluster) i = true
  · rw [if_pos hdir] at hload htype
    refine ⟨fun z => ⟨?_, ?_⟩, ⟨fun _ => ⟨hm, _, i, hlead, hdir⟩, fun _ => ⟨st, hst, htype⟩⟩, hown⟩
    · rintro ⟨st', hst', htype', -⟩
      rw [← some.inj (hst.symm.trans hst'), htype] at htype'
      simp at htype'
    · rintro ⟨b, hb⟩
      simp [hload] at hb
  · rw [if_neg hdir] at hload htype
    exact statAgrees_of_file env hst hsize htype hload hown

theorem statAgrees_of_diskLoad (hslot : rootSlot s.fat p = none)
    (hload : diskLoad s.fat p = some (z, b)) : StatAgrees env s p := by
  obtain ⟨st, hst, hsize, htype⟩ : ∃ st, statRaw env s p = some st ∧ st.size = z ∧ st.type = .file := by
    rw [statRaw_home env s hp, statFat, if_pos hp, homeFind_eq, hslot, hload]
    exact ⟨_, rfl, rfl, rfl⟩
  refine statAgrees_of_file env hst hsize htype hload fun i hi => ?_
  simp [hslot] at hi

theorem statAgrees_of_archive (hslot : rootSlot s.fat p = none) (hload : diskLoad s.fat p = none) :
    StatAgrees env s p ↔ (∀ e, fsFind s p = some e → e.isDir = true) ∧ (fsFind s p ≠ none ↔ IsDirectory s.fat p) := by
  have hst : statRaw env s p = statArchive s p := by
    rw [statRaw_home env s hp, statFat, if_pos hp, homeFind_eq, hslot, hload]
    rfl
  have hkind : ∀ e, fsFind s p = some e → ∃ st, statRaw env s p = some st ∧ st.size = e.data.length ∧
      st.type = if e.isDir then .directory else .file := by
    intro e he
    rw [hst, statArchive, he]
    exact ⟨_, rfl, rfl, rfl⟩
  constructor
  · intro h
    have hdirs : ∀ e, fsFind s p = some e → e.isDir = true := by
      intro e he
      by_contra hdir
      obtain ⟨st, hst, hsize, htype⟩ := hkind e he
      rw [if_neg hdir] at htype
      obtain ⟨b, hb⟩ := (h.file _).mp ⟨st, hst, htype, hsize⟩
      simp [hload] at hb
    refine ⟨hdirs, ?_⟩
    rw [← h.directory]
    constructor
    · intro hne
      obtain ⟨e, he⟩ := ne_none_iff_exists'.mp hne
      obtain ⟨st, hst, -, htype⟩ := hkind e he
      rw [if_pos (hdirs e he)] at htype
      exact ⟨st, hst, htype⟩
    · rintro ⟨st, hsome, -⟩ hnone
      rw [hst, statArchive, hnone] at hsome
      simp at hsome
  · rintro ⟨hdirs, hiff⟩
    have hanswer : ∀ st, statRaw env s p = some st → st.type = .directory ∧ fsFind s p ≠ none := by
      intro st hsome
      rw [hst, statArchive] at hsome
      obtain ⟨e, he, rfl⟩ := map_eq_some_iff.mp hsome
      exact ⟨if_pos (hdirs e he), by simp [he]⟩
    refine ⟨fun z => ⟨?_, ?_⟩, ⟨?_, ?_⟩, fun i hi => ?_⟩
    · rintro ⟨st, hsome, htype, -⟩
      rw [(hanswer st hsome).1] at htype
      simp at htype
    · rintro ⟨b, hb⟩
      simp [hload] at hb
    · rintro ⟨st, hsome, -⟩
      exact hiff.mp (hanswer st hsome).2
    · intro hisDir
      obtain ⟨e, he⟩ := ne_none_iff_exists'.mp (hiff.mpr hisDir)
      obtain ⟨st, hsome, -, -⟩ := hkind e he
      exact ⟨st, hsome, (hanswer st hsome).1⟩
    · simp [hslot] at hi

end Cases

/-! ### On the path and the volume -/

/-- Slot `i` of a directory is shown as `q`: it has an entry that is no label, and is printed so. -/
def Shown (r : Sector) (q : Path) (i : ℕ) : Prop :=
  i < 16 ∧ Fat.entryLive r i = true ∧ Fat.entryAttr r i &&& 8 = 0 ∧ printable (Fat.entryName r i) = q

/-- The first slot of the root that is shown as the last component. -/
theorem rootSlot_eq_some {fat : Fat.State} {i : ℕ} : rootSlot fat p = some i ↔ fat.mounted = true ∧
    Shown (dirRead fat fat.rootCluster) (lastComponent p) i ∧
      ∀ j < i, ¬Shown (dirRead fat fat.rootCluster) (lastComponent p) j := by
  rw [rootSlot]
  split_ifs with hm
  · rw [List.find?_range_eq_some]
    simp only [Shown, Bool.and_eq_true, decide_eq_true_eq, List.mem_range, Bool.not_eq_true', Bool.and_eq_false_iff,
      decide_eq_false_iff_not, hm, true_and]
    constructor
    · rintro ⟨⟨⟨hlive, hattr⟩, hname⟩, hi, hall⟩
      refine ⟨⟨hi, hlive, hattr, hname⟩, ?_⟩
      rintro j hj ⟨-, hlive', hattr', hname'⟩
      rcases hall j hj with (hno | hno) | hno
      · rw [hlive'] at hno
        cases hno
      · exact hno hattr'
      · exact hno hname'
    · rintro ⟨⟨hi, hlive, hattr, hname⟩, hall⟩
      refine ⟨⟨⟨hlive, hattr⟩, hname⟩, hi, fun j hj => ?_⟩
      by_contra hno
      simp only [not_or, not_not, Bool.not_eq_false] at hno
      exact hall j hj ⟨hj.trans hi, hno.1.1, hno.1.2, hno.2⟩
  · exact iff_of_false (by simp) fun h => hm h.1

theorem rootSlot_eq_none {fat : Fat.State} : rootSlot fat p = none ↔
    (fat.mounted = true → ∀ i, ¬Shown (dirRead fat fat.rootCluster) (lastComponent p) i) := by
  rw [eq_none_iff_forall_ne_some]
  constructor
  · intro hall hm i hi
    classical
    obtain ⟨hshown, hfirst⟩ := Nat.find_spec ⟨i, hi⟩, fun j hj => Nat.find_min ⟨i, hi⟩ hj
    exact hall _ (rootSlot_eq_some.mpr ⟨hm, hshown, hfirst⟩)
  · intro hall i hi
    obtain ⟨hm, hshown, -⟩ := rootSlot_eq_some.mp hi
    exact hall hm i hshown

theorem eq_nil_of_walk_root {fat : Fat.State} {D : Set ℕ} (h : Fat.Safe fat D) {cs : List Path}
    (hwalk : Fat.walk fat 2 cs = some 2) : cs = [] := by
  cases cs with
  | nil => rfl
  | cons c cs =>
    rw [Fat.walk] at hwalk
    rcases hsub : Fat.subdirectory fat 2 c with _ | b
    · rw [hsub] at hwalk
      cases hwalk
    · rw [hsub] at hwalk
      have hchild := h.hasDir_of_subdirectory h.sound.root hsub
      obtain ⟨-, hreach⟩ := h.walk cs (h.sound.mem_of_hasDir hchild) hwalk
      exact absurd (.head' hchild hreach) (h.sound.not_transGen_root 2)

/-- **A path leads to an entry of the root** if it has no directories and is spelled as the entry is. -/
theorem leadsTo_root_iff {fat : Fat.State} {D : Set ℕ} (h : Fat.Safe fat D) {i : ℕ} (hi : i < 16)
    (hlive : Fat.entryLive (dirRead fat fat.rootCluster) i = true) : LeadsTo fat p fat.rootCluster i ↔
      Fat.leafOf p ≠ [] ∧ Fat.directoriesOf p = [] ∧
        Fat.entryName (dirRead fat fat.rootCluster) i = Fat.name83 (Fat.leafOf p) := by
  rw [LeadsTo, Fat.parentDir]
  rw [h.layout.rootCluster, h.dirRead h.sound.root] at hlive ⊢
  rw [Fat.findSlot_eq_listing]
  constructor
  · rintro ⟨hparent, hslot⟩
    split_ifs at hparent with hleaf
    obtain ⟨d, hwalk, heq⟩ := map_eq_some_iff.mp hparent
    rw [(Prod.mk.inj heq).1] at hwalk
    obtain ⟨-, e, he, hname⟩ := Slots.find_eq_some hslot
    exact ⟨hleaf, eq_nil_of_walk_root h hwalk, (Fat.listing_eq_some he).1.trans hname⟩
  · rintro ⟨hleaf, hnil, hname⟩
    refine ⟨by rw [if_neg hleaf, hnil]; rfl, ?_⟩
    have hentry : Fat.listing (fat.sector 2) i = some ⟨Fat.entryName (fat.sector 2) i, Fat.entryAttr (fat.sector 2) i,
        Fat.entryCluster (fat.sector 2) i, 0⟩ := by
      rw [Fat.listing, Fat.entry, if_pos hlive]
      rfl
    rw [← hname]
    exact (h.sound.unique 2 h.sound.root).find_eq hi hentry

theorem forall_rootSlot_iff {fat : Fat.State} {D : Set ℕ} (h : Fat.Safe fat D) :
    (∀ i, rootSlot fat p = some i → LeadsTo fat p fat.rootCluster i) ↔
      (fat.mounted = true → ∀ i, Shown (dirRead fat fat.rootCluster) (lastComponent p) i →
        (∀ j < i, ¬Shown (dirRead fat fat.rootCluster) (lastComponent p) j) →
          Fat.leafOf p ≠ [] ∧ Fat.directoriesOf p = [] ∧
            Fat.entryName (dirRead fat fat.rootCluster) i = Fat.name83 (Fat.leafOf p)) := by
  constructor
  · intro hall hm i hshown hfirst
    exact (leadsTo_root_iff h hshown.1 hshown.2.1).mp (hall i (rootSlot_eq_some.mpr ⟨hm, hshown, hfirst⟩))
  · intro hall i hslot
    obtain ⟨hm, hshown, hfirst⟩ := rootSlot_eq_some.mp hslot
    exact (leadsTo_root_iff h hshown.1 hshown.2.1).mpr (hall hm i hshown hfirst)

/-- **`stat` agrees with access exactly if** the first entry of the root that is shown as the last component, if there
is one, has the 8.3 name of the path, which has no directories, and, if there is none and no file either, the archive
has a directory if the path leads to one, and else nothing. -/
theorem stat_agrees_iff (hvolume : ∃ D, Fat.Safe s.fat D) (hp : homePath p = true) : StatAgrees env s p ↔
    (s.fat.mounted = true → ∀ i, Shown (dirRead s.fat s.fat.rootCluster) (lastComponent p) i →
      (∀ j < i, ¬Shown (dirRead s.fat s.fat.rootCluster) (lastComponent p) j) →
        Fat.leafOf p ≠ [] ∧ Fat.directoriesOf p = [] ∧
          Fat.entryName (dirRead s.fat s.fat.rootCluster) i = Fat.name83 (Fat.leafOf p)) ∧
    ((s.fat.mounted = true → ∀ i, ¬Shown (dirRead s.fat s.fat.rootCluster) (lastComponent p) i) →
      Fat.diskLoad s.fat p = none →
        (∀ e, fsFind s p = some e → e.isDir = true) ∧ (fsFind s p ≠ none ↔ IsDirectory s.fat p)) := by
  obtain ⟨D, hsafe⟩ := hvolume
  rw [← rootSlot_eq_none]
  rw [← forall_rootSlot_iff hsafe]
  rcases hslot : rootSlot s.fat p with _ | i
  · rcases hload : diskLoad s.fat p with _ | ⟨z, b⟩
    · rw [statAgrees_of_archive env hp hslot hload]
      simp
    · have h := statAgrees_of_diskLoad env hp hslot hload
      simp [h]
  · rw [statAgrees_of_rootSlot env hp hslot]
    simp

/-- A new volume with a file `A` of three bytes, and nothing else in the system. -/
def oneFileHome : State Unit := aliceAlone.putFat (Fat.oneFile 3)

theorem oneFileHome_fat : oneFileHome.fat =
    (Fat.diskStoreLarge (Fat.diskFormat (Fat.State.initial fun _ => Fat.zero)) pathA (fun _ => 65) 3).1 := by
  rw [oneFileHome, State.putFat, Fat.oneFile_eq]

/-- `stat` of `/home/A` agrees with access. -/
theorem stat_agrees_in_root : StatAgrees quietEnv oneFileHome Fat.pathA := by
  have hslot : rootSlot oneFileHome.fat pathA = some 1 := by
    rw [oneFileHome_fat, diskFormat_eq]
    decide +kernel
  have hname : Fat.entryName (dirRead oneFileHome.fat oneFileHome.fat.rootCluster) 1 = Fat.name83 (Fat.leafOf pathA) := by
    rw [oneFileHome_fat, diskFormat_eq]
    decide +kernel
  have hspares : Fat.fillsDirectory (Fat.diskFormat (Fat.State.initial fun _ => Fat.zero)) pathA = false := by
    rw [diskFormat_eq]
    decide +kernel
  have hsafe : ∃ D, Fat.Safe oneFileHome.fat D := by
    rw [oneFileHome_fat]
    obtain ⟨D, h, -⟩ := (Fat.safe_diskFormat (Fat.State.initial fun _ => Fat.zero)).diskStoreLarge
      (show 0 ∉ pathA by decide) hspares (fun _ => 65) 3
    exact ⟨D, h⟩
  refine (stat_agrees_iff quietEnv oneFileHome hsafe (by decide)).mpr ⟨fun hm i hshown hfirst => ?_, fun hnone => ?_⟩
  · have hi := rootSlot_eq_some.mpr ⟨hm, hshown, hfirst⟩
    rw [hslot] at hi
    rw [← some.inj hi]
    exact ⟨by decide, by decide, hname⟩
  · rw [rootSlot_eq_none.mpr hnone] at hslot
    cases hslot

/-- `/home/B/A`, which does not exist, is said to be a file of three bytes. -/
theorem stat_of_other_directory :
    (statRaw quietEnv oneFileHome (homePrefix ++ [66, 47, 65])).map (fun st => (st.type, st.size)) = some (.file, 3) ∧
    (Fat.diskLoad oneFileHome.fat (homePrefix ++ [66, 47, 65])).map Prod.fst = none := by
  have hslot : rootSlot oneFileHome.fat (homePrefix ++ [66, 47, 65]) = some 1 := by
    rw [oneFileHome_fat, diskFormat_eq]
    decide +kernel
  have hentry : entrySize (dirRead oneFileHome.fat oneFileHome.fat.rootCluster) 1 = 3 ∧
      entryIsDir (dirRead oneFileHome.fat oneFileHome.fat.rootCluster) 1 = false := by
    rw [oneFileHome_fat, diskFormat_eq]
    decide +kernel
  obtain ⟨st, hst, hsize, htype⟩ := statRaw_of_rootSlot quietEnv (by decide) hslot
  refine ⟨?_, ?_⟩
  · rw [hst, map_some, hsize, htype, hentry.1, hentry.2]
    rfl
  · rw [oneFileHome_fat, diskFormat_eq]
    decide +kernel

end OS64.Vfs
