import OS64.Ext2.Format
import OS64.Ext2.Loads
import OS64.Ext2.Stores
import OS64.Lib.Runs
import Mathlib.Tactic.IntervalCases

/-!
# Runs of the volume of `/var`

The states of the driver that calls of `ext2_store`, `ext2_remove`, `ext2_chmod` and
`ext2_chown` lead to from a volume that `ext_variant_format` has made, whether the calls
succeed or not. All of them are good (`OS64.Ext2.good_run`), whatever the paths are: a
path that runs through a regular file harms the file, but not the volume.

A call of `ext2_store` that fails for a file that exists has taken back all that it did
(`OS64.Ext2.failed_store_restores`).
-/

namespace OS64.Ext2

open ByteMem Fallible Option
open Tree (resolve Dirs)

/-! ### Calls -/

variable {f : File} {path : Path} {s : State} {gid k mode size uid : ℕ} {data : ℕ → UInt8}

/-- The calls that change the volume. -/
inductive Call where
  | store (path : Path) (data : ℕ → UInt8) (size : ℕ) (mode uid gid : UInt16)
  | remove (path : Path)
  | chmod (path : Path) (m : UInt16)
  | chown (path : Path) (u g : UInt16) (su sg : Bool)

/-- The buffer for the last component is large enough. -/
def Call.Fits : Call → Prop
  | .store path .. => LeafFits path
  | .remove path => LeafFits path
  | _ => True

/-- A call is made. -/
def Call.exec : Call → M Unit
  | .store path data size mode uid gid => ext2Store path data size mode.toNat uid.toNat gid.toNat
  | .remove path => ext2Remove path
  | .chmod path m => ext2Chmod path m.toNat
  | .chown path u g su sg => ext2Chown path u.toNat g.toNat su sg

/-- The state after a call, successful or not. -/
def Call.after (s : State) (call : Call) : State := (call.exec.run s).2

/-- A run on a new volume. -/
def run (level : ℕ) (s₀ : State) (calls : List Call) : State :=
  calls.foldl Call.after ((extVariantFormat level).run s₀).2

theorem of_wp {α : Type} {x : M α} {I : State → Prop} (h : wp x (fun _ s' => I s') I s) : I (x.run s).2 := by
  rw [wp] at h
  rcases hx : x.run s with ⟨_ | a, s'⟩
  · rw [hx] at h
    exact h
  · rw [hx] at h
    exact h

/-- **Every call leaves a good state.** -/
theorem Good.after (h : Good s fun _ => 0) (call : Call) : Good (call.after s) fun _ => 0 := by
  refine of_wp (I := fun s => Good s fun _ => 0) ?_
  cases call with
  | store path data size mode uid gid =>
    exact h.wp_ext2Store _ _ _ _ _ path (fun s' h' _ => h') (fun s' h' _ => h')
  | remove path => exact h.wp_ext2Remove path (fun s' h' _ _ => h') h
  | chmod path m => exact h.wp_ext2Chmod path m.toNat (fun s' h' _ _ => h') h
  | chown path u g su sg =>
    exact h.wp_ext2Chown path (UInt16.toNat_lt u) (UInt16.toNat_lt g) su sg (fun s' h' _ _ => h') h

variable {level : ℕ}

/-- **All states of a run are good.** -/
theorem good_run (hlevel : 2 ≤ level ∧ level ≤ 4) (s₀ : State) (calls : List Call) :
    Good (run level s₀ calls) fun _ => 0 := by
  obtain ⟨s₁, hformat, hformatted⟩ := formatted_extVariantFormat hlevel s₀
  rw [run, hformat]
  refine Runs.foldl_invariant (I := fun s => Good s fun _ => 0) hformatted.toGood ?_
  exact fun _ call _ _ h => h.after call

/-! ### A store that fails -/

variable {v v' t : View} {cur m d : ℕ} {names : List Path}

variable {i : ℕ} {leaf : Path}

/-- A walk on which everything is found makes nothing. -/
theorem Walk.of_resolve (hw : Walk v cur names m v' d) (hres : resolve v.look cur names = some i) : v' = v ∧ d = i := by
  induction hw with
  | here v cur => exact ⟨rfl, some.inj hres⟩
  | found hlook hw ih =>
    rw [resolve, hlook] at hres
    exact ih hres
  | made hlook hm hw ih =>
    rw [resolve, hlook] at hres
    simp at hres

theorem Stuck.resolve_eq_none (hw : Stuck v cur names m t v') : resolve v.look cur names = none := by
  obtain ⟨ns, name, rest, d, rfl, hw, hnone, -⟩ := hw
  rw [Tree.resolve_append]
  rcases hns : resolve v.look cur ns with _ | i
  · rfl
  · obtain ⟨rfl, rfl⟩ := hw.of_resolve hns
    rw [bind_some, resolve, hnone]
    rfl

/-- **A store that fails for a file that exists** has changed nothing. -/
theorem StoreCall.restored
    (hst : StoreCall data size mode uid gid v path false v') (hfile : v.fileAt (components path) = some f) :
    Restored v v' := by
  obtain ⟨i, hres, hi⟩ := bind_eq_some_iff.mp hfile
  cases hst with
  | big _ => exact Restored.refl v
  | root _ => exact Restored.refl v
  | @stuck names leaf m t _ hpath hw =>
    rw [hpath, Tree.resolve_append, hw.resolve_eq_none] at hres
    simp at hres
  | @arrived names leaf m d t _ _ hsize hpath hw hst =>
    rw [hpath, Tree.resolve_concat] at hres
    obtain ⟨d', hd', hlook⟩ := bind_eq_some_iff.mp hres
    obtain ⟨rfl, rfl⟩ := hw.of_resolve hd'
    cases hst with
    | directory _ _ => exact Restored.refl _
    | short _ _ _ hr => exact hr
    | refused hnone _ _ =>
      rw [hnone] at hlook
      simp at hlook

/-- **A store that succeeds for a file that exists** has given it the bytes. -/
theorem StoreCall.replaces
    (hst : StoreCall data size mode uid gid v path true v') (hfile : v.fileAt (components path) = some f) :
    v'.fileAt (components path) = some { f with bytes := bytes data 0 size } := by
  obtain ⟨i, hres, hi⟩ := bind_eq_some_iff.mp hfile
  cases hst with
  | @arrived names leaf m d t _ _ hsize hpath hw hst =>
    have hwhole := hres
    rw [hpath, Tree.resolve_concat] at hres
    obtain ⟨d', hd', hlook⟩ := bind_eq_some_iff.mp hres
    obtain ⟨rfl, rfl⟩ := hw.of_resolve hd'
    cases hst with
    | @replaced j _ hlook' hnot hr =>
      obtain rfl : i = j := some.inj (hlook.symm.trans hlook')
      have hdir : ¬v'.IsDir i := by
        have hsame : v'.IsDir i ↔ t.IsDir i := iff_of_eq (congrFun (congrArg Dirs.dir hr.dirs) i)
        exact fun hdir => hnot (hsame.mp hdir)
      have hres' : resolve v'.look rootIno (components path) = some i := by
        have hlook : v'.look = t.look := congrArg Dirs.look hr.dirs
        rw [hlook]
        exact hwhole
      rw [View.IsDir] at hnot hdir
      rw [if_neg hnot] at hi
      rw [View.fileAt_of_resolve hres', if_neg hdir, hr.file, some.inj hi]
    | created hnone _ =>
      rw [hnone] at hlook
      simp at hlook

/-- Both bitmaps, the four counters, the inodes and the contents of all files are the
same. -/
structure Unchanged (s s' : State) : Prop where
  blockBits : s'.view.blockBit = s.view.blockBit
  inodeBits : s'.view.inodeBit = s.view.inodeBit
  superBlocks : r32 (s'.block 0) 1036 = r32 (s.block 0) 1036
  superInodes : r32 (s'.block 0) 1040 = r32 (s.block 0) 1040
  groupBlocks : r16 (s'.block 1) 12 = r16 (s.block 1) 12
  groupInodes : r16 (s'.block 1) 14 = r16 (s.block 1) 14
  inodes : s'.view.inode = s.view.inode
  contents : ∀ i, s.view.Used i → ¬s.view.IsDir i → s'.view.content i = s.view.content i
  loads : ∀ p cap, ((ext2Load p cap).run s').1 = ((ext2Load p cap).run s).1

theorem Restored.unchanged {s' : State} {P P' : ℕ → ℕ} (hr : Restored s.view s'.view) (h : Good s P)
    (h' : Good s' P') : Unchanged s s' := by
  have hdirs := hr.toUntouched.dirs h.sound
  have hlook : s'.view.look = s.view.look := congrArg Dirs.look hdirs
  refine ⟨hr.blockBit, hr.inodeBit, ?_, ?_, ?_, ?_, hr.inode, fun i _ hi => ?_, fun p cap => ?_⟩
  · rw [h'.superBlocks, h.superBlocks, hr.blockBit]
  · rw [h'.superInodes, h.superInodes, hr.inodeBit]
  · rw [h'.groupBlocks, h.groupBlocks, hr.blockBit]
  · rw [h'.groupInodes, h.groupInodes, hr.inodeBit]
  · exact congrArg File.bytes (hr.toUntouched.file h.sound hi)
  · have hfiles : s'.view.fileAt (components p) = s.view.fileAt (components p) := by
      rw [View.fileAt, View.fileAt, hlook, hr.inode]
      refine Option.bind_congr fun i _ => ?_
      split_ifs with hdir
      · rfl
      · rw [hr.toUntouched.file h.sound hdir]
    rw [h'.run_ext2Load, h.run_ext2Load, hfiles]

/-- **Storing under the path of a file**: it gets the bytes, or nothing has changed. -/
theorem Good.store_existing (h : Good s fun _ => 0)
    (hfile : s.view.fileAt (components path) = some f) (data : ℕ → UInt8) (size : ℕ) (mode uid gid : UInt16) :
    (∃ s', (Call.store path data size mode uid gid).exec.run s = (some (), s') ∧ (Good s' fun _ => 0) ∧
      s'.view.fileAt (components path) = some { f with bytes := bytes data 0 size }) ∨
    ∃ s', (Call.store path data size mode uid gid).exec.run s = (none, s') ∧ Unchanged s s' := by
  rcases hrun : (Call.store path data size mode uid gid).exec.run s with ⟨_ | _, s'⟩
  · have hwp := h.wp_ext2Store (Q := fun _ _ => True) (E := fun s' => Good s' (fun _ => 0) ∧
      StoreCall data size mode.toNat uid.toNat gid.toNat s.view path false s'.view)
      data size mode.toNat uid.toNat gid.toNat path (fun _ _ _ => trivial) fun s' h' hst => ⟨h', hst⟩
    obtain ⟨h', hst⟩ := (wp_of_eq_none hrun).mp hwp
    exact .inr ⟨s', rfl, (hst.restored hfile).unchanged h h'⟩
  · have hwp := h.wp_ext2Store (Q := fun _ s' => Good s' (fun _ => 0) ∧
      StoreCall data size mode.toNat uid.toNat gid.toNat s.view path true s'.view) (E := fun _ => True)
      data size mode.toNat uid.toNat gid.toNat path (fun s' h' hst => ⟨h', hst⟩) fun _ _ _ => trivial
    obtain ⟨h', hst⟩ := (wp_of_eq hrun).mp hwp
    exact .inl ⟨s', rfl, h', hst.replaces hfile⟩

/-- **A call of `ext2_store` that fails for an existing file leaves everything as it was**,
at whatever point it ran out of blocks. -/
theorem failed_store_restores {level : ℕ} (hlevel : 2 ≤ level ∧ level ≤ 4) (s₀ : State) (calls : List Call)
    {path : Path} {f : File} (hfile : (run level s₀ calls).view.fileAt (components path) = some f)
    (data : ℕ → UInt8) (size : ℕ) (mode uid gid : UInt16) {s' : State}
    (hfail : (Call.store path data size mode uid gid).exec.run (run level s₀ calls) = (none, s')) :
    Unchanged (run level s₀ calls) s' := by
  rcases (good_run hlevel s₀ calls).store_existing hfile data size mode uid gid with
    ⟨s₁, hrun, -⟩ | ⟨s₁, hrun, hsame⟩
  · rw [hfail] at hrun
    cases hrun
  · rw [hfail] at hrun
    obtain rfl := (Prod.mk.inj hrun).2
    exact hsame

/-! ### The first file -/

theorem run_extVariantFormat_two (s₀ : State) : ∃ s₁, (extVariantFormat 2).run s₀ = (some (), s₁) ∧ Empty s₁ := by
  obtain ⟨s₁, hrun, hempty⟩ := run_ext2Format s₀
  refine ⟨s₁, ?_, hempty⟩
  rw [extVariantFormat, run_bind_some (run_require_pos (by decide) s₀), run_bind_some hrun]
  rfl

/-- `/a`. -/
def firstPath : Path := [47, 97]

theorem last_of_components {leaf leaf' : Path} {names : List Path} (hpath : components path = [leaf])
    (heq : components path = names ++ [leaf']) : names = [] ∧ leaf' = leaf := by
  obtain ⟨hnames, hleaf⟩ := List.append_inj' (heq.symm.trans (hpath.trans (List.nil_append _).symm)) rfl
  exact ⟨hnames, List.singleton_inj.mp hleaf⟩

/-- **A new file in the root directory.** -/
theorem Good.store_new {leaf : Path} (h : Good s fun _ => 0) (hpath : components path = [leaf])
    (hnone : s.view.look rootIno leaf = none) (hwhy : ¬Refused s.view rootIno leaf size) (data : ℕ → UInt8)
    (hsize : size ≤ maxFileSize) (mode uid gid : ℕ) : ∃ s' i, (ext2Store path data size mode uid gid).run s = (some (), s') ∧
      Good s' (fun _ => 0) ∧ Created s.view s'.view rootIno leaf i data size mode uid gid := by
  have hwp := h.wp_ext2Store (Q := fun _ s' => Good s' (fun _ => 0) ∧
      StoreCall data size mode uid gid s.view path true s'.view)
    (E := fun s' => StoreCall data size mode uid gid s.view path false s'.view) data size mode uid gid path
    (fun s' h' hst => ⟨h', hst⟩) fun s' _ hst => hst
  rcases hrun : (ext2Store path data size mode uid gid).run s with ⟨_ | u, s'⟩
  · exfalso
    have hst := (wp_of_eq_none hrun).mp hwp
    generalize s'.view = v' at hst
    cases hst with
    | big hbig => exact absurd hsize (not_le.mpr hbig)
    | root hroot => simp [hpath] at hroot
    | stuck hpath' hw =>
      obtain ⟨rfl, -⟩ := last_of_components hpath hpath'
      obtain ⟨ns, name, rest, d, hns, -⟩ := hw
      simp at hns
    | arrived _ hpath' hw hst =>
      obtain ⟨rfl, rfl⟩ := last_of_components hpath hpath'
      obtain ⟨rfl, rfl⟩ := hw.of_resolve rfl
      cases hst with
      | directory hlook _ => simp [hnone] at hlook
      | short hlook _ _ _ => simp [hnone] at hlook
      | refused _ hwhy' _ => exact hwhy hwhy'
  · obtain ⟨h', hst⟩ := (wp_of_eq hrun).mp hwp
    refine ⟨s', ?_⟩
    cases hst with
    | arrived _ hpath' hw hst =>
      obtain ⟨rfl, rfl⟩ := last_of_components hpath hpath'
      obtain ⟨rfl, rfl⟩ := hw.of_resolve rfl
      cases hst with
      | replaced hlook _ _ => simp [hnone] at hlook
      | @created i _ _ hc => exact ⟨i, rfl, h', hc⟩

theorem Created.look
    (hc : Created v v' d leaf i data size mode uid gid) (hd : v.IsDir d) : v'.look d leaf = some i := by
  have hlook : v'.look = _ := congrArg Dirs.look (hc.dirs_of_directory hd)
  rw [hlook]
  exact if_pos ⟨rfl, rfl⟩

/-- A disk with nothing on it. -/
def blankDisk : State := ⟨fun _ => zero, 0, 0, false⟩

/-! ### Filling the volume -/

/-- `/a`, `/b` and so on. -/
def nthPath (k : ℕ) : Path := [47, UInt8.ofNat (97 + k)]

/-- What is left on a volume after it has taken `k` files, none of them larger than the largest. -/
structure Filled (s : State) (k : ℕ) : Prop extends Good s fun _ => 0 where
  root : s.view.IsDir rootIno
  first : s.view.ptr rootIno 0 ≠ 0
  free : 16123 ≤ s.view.freeBlocks + 1037 * k
  inodes : ∃ taken : Finset ℕ, taken.card ≤ k ∧ ∀ i, 11 ≤ i → s.view.Used i → i ∈ taken
  roomy : Roomy (s.view.data (s.view.ptr rootIno 0)) (12 * (16 - k))
  new : ∀ j, k ≤ j → j < 16 → s.view.look rootIno [UInt8.ofNat (97 + j)] = none
  stored : 0 < k → ∃ i, s.view.look rootIno [97] = some i ∧ ¬s.view.IsDir i

theorem Empty.freeBlocks (h : Empty s) : s.view.freeBlocks = 16123 := by
  rw [View.freeBlocks, Counting.count, Finset.filter_true_of_mem, Nat.card_Ico]
  intro b hb
  obtain ⟨hlow, hhigh⟩ := Finset.mem_Ico.mp hb
  rw [h.blockBit (by omega), decide_eq_false_iff_not]
  omega

theorem Empty.filled (h : Empty s) : Filled s 0 where
  toGood := h.good
  root := h.isDir_iff.mpr rfl
  first := by
    rw [h.ptr]
    decide
  free := h.freeBlocks.ge
  inodes := by
    refine ⟨∅, le_rfl, fun i hlow hused => ?_⟩
    have hbit := hused.2.2
    have hhigh := hused.2.1
    rw [h.inodeBit (by omega), decide_eq_true_iff] at hbit
    omega
  roomy := by
    have hdata : s.view.data (s.view.ptr rootIno 0) = clip (newDirectory 2 2) := by
      rw [h.ptr]
      exact h.root
    rw [hdata]
    refine ⟨_, (segment_newDirectory (by decide) (by decide) (by decide) (by decide)).congr fun x _ hx => clip_apply _ hx,
      ⟨⟨[46, 46], 2, 2⟩, 4084⟩, by simp, by decide⟩
  new j _ hj := by
    rw [eq_none_iff_forall_ne_some]
    intro i hlook
    interval_cases j <;> exact (h.look_iff.mp hlook).2.2.elim (by decide) (by decide)
  stored hpos := absurd hpos (lt_irrefl 0)

/-- There are an inode, blocks and room for an entry. -/
theorem Filled.not_refused (h : Filled s k) (hk : k < 15) (hsize : size ≤ maxFileSize) :
    ¬Refused s.view rootIno [UInt8.ofNat (97 + k)] size := by
  rintro (hinode | hblocks | hroom)
  · obtain ⟨taken, hcard, htaken⟩ := h.inodes
    obtain ⟨i, hi, hnot⟩ : ∃ i ∈ Finset.Ico 11 8193, i ∉ taken := by
      refine Finset.exists_mem_notMem_of_card_lt_card ?_
      rw [Nat.card_Ico]
      omega
    obtain ⟨hlow, hhigh⟩ := Finset.mem_Ico.mp hi
    refine hinode i ⟨hlow, by omega, Bool.eq_false_iff.mpr fun hbit => ?_⟩
    exact hnot (htaken i hlow ⟨by omega, by omega, hbit⟩)
  · have hfree := h.free
    rw [maxFileSize] at hsize
    rw [demand] at hblocks
    split_ifs at hblocks <;> omega
  · rw [View.room, if_pos ⟨⟨by simp, by simp⟩, h.first⟩] at hroom
    obtain ⟨p, hp⟩ := (h.roomy.mono (show ideal 1 ≤ 12 * (16 - k) by simp [ideal]; omega)).find
    exact absurd (hp.symm.trans hroom) (some_ne_none p)

theorem nth_ne {j : ℕ} (hne : j ≠ k) (hj : j < 16) (hk : k < 16) : [UInt8.ofNat (97 + j)] ≠ [UInt8.ofNat (97 + k)] := by
  intro heq
  have hcode := congrArg UInt8.toNat (List.singleton_inj.mp heq)
  rw [UInt8.toNat_ofNat', UInt8.toNat_ofNat'] at hcode
  omega

/-- **A volume takes fifteen files of the largest size.** -/
theorem Filled.store (h : Filled s k) (hk : k < 15) (data : ℕ → UInt8) (hsize : size ≤ maxFileSize) (mode uid gid : ℕ) :
    ∃ s' i, (ext2Store (nthPath k) data size mode uid gid).run s = (some (), s') ∧ Filled s' (k + 1) ∧
      Created s.view s'.view rootIno [UInt8.ofNat (97 + k)] i data size mode uid gid := by
  have hpath : components (nthPath k) = [[UInt8.ofNat (97 + k)]] := by
    interval_cases k <;> decide
  obtain ⟨s', i, hrun, h', hc⟩ := h.store_new hpath (h.new k le_rfl (by omega)) (h.not_refused hk hsize) data hsize mode uid gid
  have hdirs := hc.dirs_of_directory h.root
  have hlook : s'.view.look = _ := congrArg Dirs.look hdirs
  have hisDir : s'.view.IsDir = s.view.IsDir := congrArg Dirs.dir hdirs
  have hptr : s'.view.ptr rootIno 0 = s.view.ptr rootIno 0 := by
    rw [View.ptr_of_lt _ (by decide), View.ptr_of_lt _ (by decide), hc.inode]
  refine ⟨s', i, hrun, ⟨h', ?_, hptr ▸ h.first, ?_, ?_, ?_, ?_, ?_⟩, hc⟩
  · rw [hisDir]
    exact h.root
  · have hfree := h.free
    have hcount := hc.count
    rw [maxFileSize] at hsize
    rw [demand] at hcount
    split_ifs at hcount <;> omega
  · obtain ⟨taken, hcard, htaken⟩ := h.inodes
    refine ⟨insert i taken, (Finset.card_insert_le i taken).trans (by omega), fun j hlow hused => ?_⟩
    rcases hc.free.used.mp ((congrFun (congrArg Dirs.used hdirs) j).mp hused) with rfl | hused
    · exact Finset.mem_insert_self _ _
    · exact Finset.mem_insert_of_mem (htaken j hlow hused)
  · obtain ⟨p, hroom, hdata⟩ := hc.room
    rw [View.room, if_pos ⟨⟨by simp, by simp⟩, h.first⟩] at hroom
    rw [hptr, hdata]
    have hroomy := h.roomy
    rw [show 12 * (16 - k) = ideal [UInt8.ofNat (97 + k)].length + 12 * (16 - (k + 1)) by simp [ideal]; omega] at hroomy
    have hlow := hc.free.1
    have hhigh := hc.free.2.1
    exact hroomy.addRecord 1 (by simp) (by omega) (by omega) hroom
  · intro j hj hj'
    rw [hlook]
    refine (if_neg ?_).trans (h.new j (by omega) hj')
    exact fun hand => nth_ne (by omega) hj' (by omega) hand.2
  · rintro -
    by_cases hzero : k = 0
    · subst hzero
      exact ⟨i, hc.look h.root, hc.isFile⟩
    · rw [hlook, hisDir]
      obtain ⟨i₀, hlook₀, hfile₀⟩ := h.stored (by omega)
      refine ⟨i₀, (if_neg ?_).trans hlook₀, hfile₀⟩
      exact fun hand => nth_ne (Ne.symm hzero) (by decide) (by omega) hand.2

theorem Filled.fileAt (h : Filled s k) (hk : 0 < k) : ∃ f, s.view.fileAt (components firstPath) = some f := by
  obtain ⟨i, hlook, hfile⟩ := h.stored hk
  have hres : resolve s.view.look rootIno (components firstPath) = some i := by
    rw [show components firstPath = [[97]] by decide, resolve, hlook]
    rfl
  rw [View.fileAt_of_resolve hres]
  exact ⟨_, if_neg hfile⟩

/-- The call that stores an empty file `/a`. -/
def storeFirst : Call := .store firstPath (fun _ => 0) 0 0 0 0

/-- The calls that store `k` files of the largest size. -/
def fill (k : ℕ) : List Call := (List.range k).map fun j => .store (nthPath j) (fun _ => 65) maxFileSize 0 0 0

theorem demand_maxFileSize : demand ((maxFileSize + 4095) / 4096) = 1037 := by decide

theorem filled_run (hk : k ≤ 15) : Filled (run 2 blankDisk (fill k)) k ∧
    (run 2 blankDisk (fill k)).view.freeBlocks + 1037 * k = 16123 := by
  induction k with
  | zero =>
    obtain ⟨s₁, hformat, hempty⟩ := run_extVariantFormat_two blankDisk
    rw [run, hformat]
    exact ⟨hempty.filled, hempty.freeBlocks⟩
  | succ k ih =>
    obtain ⟨hfilled, hfree⟩ := ih (by omega)
    obtain ⟨s', i, hrun, hfilled', hc⟩ := hfilled.store (by omega) (fun _ => 65) (le_refl maxFileSize) 0 0 0
    have hstate : run 2 blankDisk (fill (k + 1)) = s' := by
      rw [run, fill, List.range_succ, List.map_append, List.foldl_append]
      exact congrArg Prod.snd hrun
    have hcount := hc.count
    rw [demand_maxFileSize] at hcount
    rw [hstate]
    refine ⟨hfilled', ?_⟩
    rw [← hcount] at hfree
    clear hcount hc hfilled
    omega

/-- A file that exists gets no new contents if there are not blocks enough. -/
theorem Good.store_short {leaf : Path} {i : ℕ} (h : Good s fun _ => 0) (hpath : components path = [leaf])
    (hlook : s.view.look rootIno leaf = some i) (hshort : s.view.freeBlocks < demand ((size + 4095) / 4096))
    (data : ℕ → UInt8) (mode uid gid : ℕ) : ∃ s', (ext2Store path data size mode uid gid).run s = (none, s') := by
  have hwp := h.wp_ext2Store (Q := fun _ s' => StoreCall data size mode uid gid s.view path true s'.view)
    (E := fun _ => True) data size mode uid gid path (fun s' _ hst => hst) fun _ _ _ => trivial
  rcases hrun : (ext2Store path data size mode uid gid).run s with ⟨_ | u, s'⟩
  · exact ⟨s', rfl⟩
  · exfalso
    have hst := (wp_of_eq hrun).mp hwp
    generalize s'.view = v' at hst
    cases hst with
    | arrived _ hpath' hw hst =>
      obtain ⟨rfl, rfl⟩ := last_of_components hpath hpath'
      obtain ⟨rfl, rfl⟩ := hw.of_resolve rfl
      cases hst with
      | replaced _ _ hr => exact absurd hr.enough (not_le.mpr hshort)
      | created hnone _ => simp [hlook] at hnone

/-- With fifteen files of the largest size there are blocks left, but too few for one more: the
store takes them, fails and gives them back. -/
theorem store_out_of_blocks_restores : 0 < (run 2 blankDisk (fill 15)).view.freeBlocks ∧
    ∃ s', (Call.store firstPath (fun _ => 66) maxFileSize 0 0 0).exec.run (run 2 blankDisk (fill 15)) = (none, s') ∧
      Unchanged (run 2 blankDisk (fill 15)) s' := by
  obtain ⟨hfilled, hfree⟩ := filled_run (le_refl 15)
  obtain ⟨f, hf⟩ := hfilled.fileAt (by decide)
  obtain ⟨i, hlook, -⟩ := hfilled.stored (by decide)
  have hshort : (run 2 blankDisk (fill 15)).view.freeBlocks < demand ((maxFileSize + 4095) / 4096) := by
    rw [demand_maxFileSize]
    omega
  obtain ⟨s', hfail⟩ := hfilled.store_short (show components firstPath = [[97]] by decide) hlook hshort (fun _ => 66) 0 0 0
  exact ⟨by omega, s', hfail, failed_store_restores (by decide) blankDisk (fill 15) hf _ _ 0 0 0 hfail⟩

/-! ### The whole volume, and its files as a map -/

/-- The volume is in order: a pointer is to a block of the data area that is marked as taken, no two
pointers are to one block, names lead to inodes in use, different paths to different inodes, and
the counters are the numbers of the clear bits. -/
structure Consistent (s : State) : Prop extends Counted s where
  allocated : ∀ i k, s.view.ptr i k ≠ 0 →
    260 ≤ s.view.ptr i k ∧ s.view.ptr i k < 16384 ∧ s.view.blockBit (s.view.ptr i k) = true
  exclusive : ∀ i k i' k', s.view.ptr i k = s.view.ptr i' k' → s.view.ptr i k ≠ 0 → i = i' ∧ k = k'
  owned : ∀ i k, s.view.ptr i k ≠ 0 → s.view.Used i
  named : ∀ p i, resolve s.view.look rootIno p = some i → s.view.Used i
  paths : ∀ p q i, (∀ n ∈ p, PlainName n) → (∀ n ∈ q, PlainName n) →
    resolve s.view.look rootIno p = some i → resolve s.view.look rootIno q = some i → p = q

theorem Good.consistent (h : Good s fun _ => 0) : Consistent s where
  toCounted := h.toCounted
  allocated _ _ := h.sound.ptr_allocated
  exclusive _ _ _ _ := h.sound.exclusive.ptr_inj
  owned _ _ := h.sound.used_of_ptr
  named _ _ := h.sound.tree.resolve_used
  paths _ _ _ := h.sound.tree.resolve_inj

/-- **The volume is consistent after every run** of calls that fit, whatever else they are given and
whether they succeed. -/
theorem consistent_run (hlevel : 2 ≤ level ∧ level ≤ 4) (s₀ : State) (calls : List Call)
    (_hfits : ∀ call ∈ calls, call.Fits) : Consistent (run level s₀ calls) :=
  (good_run hlevel s₀ calls).consistent

theorem fits_storeFirst : ∀ call ∈ [storeFirst], call.Fits := by
  intro call hcall
  rw [List.mem_singleton.mp hcall]
  exact (by decide : LeafFits firstPath)

theorem consistent_storeFirst : Consistent (run 2 blankDisk [storeFirst]) :=
  consistent_run (by decide) _ _ fits_storeFirst

/-- A call that fails changes nothing, and one that succeeds the file of one path only. -/
def Edits (call : Call) (s : State) (p : List Path) (x : Option File) : Prop :=
  ((call.exec.run s).1 = none → call.after s = s) ∧
    ((call.exec.run s).1 = some () → Assigns s.view (call.after s).view p x)

theorem edits_of_wp {call : Call} {p : List Path} {x : Option File}
    (h : wp call.exec (fun _ s' => Assigns s.view s'.view p x) (fun s' => s' = s) s) : Edits call s p x := by
  rw [Edits, Call.after]
  rcases hx : call.exec.run s with ⟨_ | _, s'⟩
  · exact ⟨fun _ => (wp_of_eq_none hx).mp h, fun hsome => (by cases hsome)⟩
  · exact ⟨fun hnone => (by cases hnone), fun _ => (wp_of_eq hx).mp h⟩

/-- **The files are a map after every run**: `ext2_load` looks a path up, and `ext2_remove`,
`ext2_chmod` and `ext2_chown` change what is at the path, with `.` and `..` resolved, or fail. -/
theorem edits_run (hlevel : 2 ≤ level ∧ level ≤ 4) (s₀ : State) (calls : List Call)
    (_hfits : ∀ call ∈ calls, call.Fits) (hs : run level s₀ calls = s) (path : Path) :
    (∀ cap, (ext2Load path cap).run s =
      ((s.view.fileAt (components path)).bind fun f => if f.bytes.length ≤ cap then some f.bytes else none, s)) ∧
    (LeafFits path → Edits (.remove path) s (location path) none) ∧
    (∀ m, Edits (.chmod path m) s (location path)
      ((s.view.fileAt (location path)).map fun f => { f with mode := m.toNat &&& 0o777 })) ∧
    ∀ u g su sg, Edits (.chown path u g su sg) s (location path) ((s.view.fileAt (location path)).map fun f =>
      { f with uid := if su then u.toNat else f.uid, gid := if sg then g.toNat else f.gid }) := by
  have h := good_run hlevel s₀ calls
  rw [hs] at h
  refine ⟨h.run_ext2Load path, fun _ => edits_of_wp ?_, fun m => edits_of_wp ?_, fun u g su sg => edits_of_wp ?_⟩
  · exact h.wp_ext2Remove path (fun _ _ hassigns _ => hassigns) rfl
  · exact h.wp_ext2Chmod path _ (fun _ _ hassigns _ => hassigns) rfl
  · exact h.wp_ext2Chown path u.toNat_lt g.toNat_lt su sg (fun _ _ hassigns _ => hassigns) rfl

theorem edits_storeFirst : Edits (.remove firstPath) (run 2 blankDisk [storeFirst]) (location firstPath) none :=
  (edits_run (by decide) blankDisk [storeFirst] fits_storeFirst rfl firstPath).2.1 (by decide)

end OS64.Ext2
