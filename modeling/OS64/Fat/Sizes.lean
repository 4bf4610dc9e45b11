import OS64.Fat.Outcomes
import OS64.Lib.Runs

/-!
# Files fit into their chains

The size in an entry is at most 512 bytes for each cluster of its chain
(`OS64.Fat.Sized`), for every entry of every directory one gets to, and every call keeps
it so (`OS64.Fat.Fitting.call`).

Each call leaves the entries as they are but for one slot (`OS64.Fat.Inherits`), where
the root may have become a copy of another directory. An entry that was there before has
the chain it had, since only free clusters are taken; where a chain is given back, it is
the one of the entry that is deleted.
-/

namespace OS64.Fat

open List Function Relation Chains

variable {s s' : State} {D D' : Set ℕ} {d d₀ i c : ℕ} {e : Entry} {l : List ℕ} {New : Entry → Prop}

/-- Slot `i` of directory `d`, one that can be reached, has the entry `e`. -/
def State.Has (s : State) (d i : ℕ) (e : Entry) : Prop :=
  LiveDir s d ∧ i < 16 ∧ entry (s.sector d) i = some e

/-- The chain of the entry is long enough. The entries `.` and `..` have no size. -/
def SizeFits (s : State) (e : Entry) : Prop :=
  (e.IsDots → e.size = 0) ∧ ∀ l, Chain (fatStep s) e.cluster l → e.size ≤ 512 * l.length

/-- The chains of all entries are long enough. -/
def Sized (s : State) : Prop := ∀ d i e, s.Has d i e → SizeFits s e

/-- The sizes are right: the chains are long enough, and there are no bytes without a
cluster. -/
def Fitting (s : State) : Prop :=
  ∀ d i e, s.Has d i e → SizeFits s e ∧ (e.cluster = 0 → e.size = 0)

theorem Fitting.sized (hs : Fitting s) : Sized s := fun d i e he => (hs d i e he).1

theorem fits_of_size_eq_zero (h : e.size = 0) : SizeFits s e ∧ (e.cluster = 0 → e.size = 0) :=
  ⟨⟨fun _ => h, fun l _ => by omega⟩, fun _ => h⟩

/-- One cluster is enough for what `disk_store` accepts. -/
theorem fits_of_le (hdots : ¬e.IsDots) (h : e.size ≤ 512) (h0 : e.cluster = 0 → e.size = 0) :
    SizeFits s e ∧ (e.cluster = 0 → e.size = 0) := by
  refine ⟨⟨fun hd => absurd hd hdots, fun l hl => ?_⟩, h0⟩
  have := length_pos_iff.mpr hl.ne_nil
  omega

/-! ### Directories one gets to -/

theorem Safe.liveDir_root (h : Safe s D) : LiveDir s 2 := by
  rw [← h.layout.rootCluster]
  exact .root

theorem Safe.holds_of_has (h : Safe s D) (he : s.Has d i e) (hdots : ¬e.IsDots) : s.graph.Holds D d i e.unsized := by
  obtain ⟨hd, hi, hslot⟩ := he
  refine ⟨(h.liveDir_iff.mp hd).1, hi, ?_, hdots⟩
  rw [graph_dir, listing, hslot]
  rfl

/-- A directory among the entries can be reached, and is not the root. -/
theorem Safe.liveDir_of_has (h : Safe s D) (he : s.Has d i e) (hdots : ¬e.IsDots)
    (hdir : e.isDir = true) : LiveDir s e.cluster ∧ e.cluster ≠ 2 := by
  have hholds := h.holds_of_has he hdots
  have hchild : s.graph.HasDir D d e.cluster := ⟨i, e.unsized, hholds, hdir, rfl⟩
  obtain ⟨-, hreach⟩ := h.liveDir_iff.mp he.1
  refine ⟨h.liveDir_iff.mpr ⟨h.sound.mem_of_hasDir hchild, hreach.tail hchild⟩, ?_⟩
  exact (h.sound.heads d i _ hholds (h.sound.cluster_ne_zero hholds hdir)).2.1

/-- **Induction along directories**: from the root on, through the entries. -/
theorem Safe.liveDir_induction (h : Safe s D) {P : ℕ → Prop} (hroot : P 2)
    (hchild : ∀ d i e, P d → s.Has d i e → ¬e.IsDots → e.isDir = true → P e.cluster)
    (hd : LiveDir s d) : P d := by
  obtain ⟨-, hreach⟩ := h.liveDir_iff.mp hd
  induction hreach with
  | refl => exact hroot
  | @tail a b hab hstep ih =>
    obtain ⟨i, e, hholds, hdir, rfl⟩ := hstep
    have hlive : LiveDir s a := h.liveDir_iff.mpr ⟨hholds.1, hab⟩
    obtain ⟨e', hslot, rfl⟩ := Option.map_eq_some_iff.mp hholds.2.2.1
    exact hchild a i e' (ih hlive) ⟨hlive, hholds.2.1, hslot⟩ hholds.2.2.2 hdir

/-! ### Entries that were there before -/

/-- The entries of `s'` are new ones or those of `s`, slot by slot, where the root has
those of `d₀`. A new directory has the two dots only. -/
structure Inherits (s s' : State) (d₀ : ℕ) (New : Entry → Prop) : Prop where
  live : LiveDir s d₀
  root : ∀ i < 16, ∀ e, entry (s'.sector 2) i = some e → New e ∨ entry (s.sector d₀) i = some e
  other : ∀ d, LiveDir s d → d ≠ 2 → ∀ i < 16, ∀ e, entry (s'.sector d) i = some e →
    New e ∨ entry (s.sector d) i = some e
  newDirs : ∀ e, New e → e.isDir = true → ∀ i < 16, ∀ e', entry (s'.sector e.cluster) i = some e' →
    e'.IsDots ∧ e'.size = 0

/-- **An entry is new, or was there in the same slot**, or is one of the dots of a new
directory. -/
theorem Inherits.has (hin : Inherits s s' d₀ New) (h : Safe s D) (h' : Safe s' D')
    (he : s'.Has d i e) :
    New e ∨ s.Has (if d = 2 then d₀ else d) i e ∨ e.IsDots ∧ e.size = 0 := by
  -- a directory is the root, was there before, or is new
  have hdirs : d = 2 ∨ (d ≠ 2 ∧ LiveDir s d) ∨
      ∀ i < 16, ∀ e', entry (s'.sector d) i = some e' → e'.IsDots ∧ e'.size = 0 := by
    refine h'.liveDir_induction (P := fun d => d = 2 ∨ (d ≠ 2 ∧ LiveDir s d) ∨ ∀ i < 16, ∀ e',
      entry (s'.sector d) i = some e' → e'.IsDots ∧ e'.size = 0) (.inl rfl)
      (fun d i e ih he hdots hdir => ?_) he.1
    obtain ⟨-, hi, hslot⟩ := he
    rcases ih with rfl | ⟨h2, hd⟩ | hnew
    · rcases hin.root i hi e hslot with hnew | hold
      · exact .inr (.inr (hin.newDirs e hnew hdir))
      · exact .inr (.inl (h.liveDir_of_has ⟨hin.live, hi, hold⟩ hdots hdir).symm)
    · rcases hin.other d hd h2 i hi e hslot with hnew | hold
      · exact .inr (.inr (hin.newDirs e hnew hdir))
      · exact .inr (.inl (h.liveDir_of_has ⟨hd, hi, hold⟩ hdots hdir).symm)
    · exact absurd (hnew i hi e hslot).1 hdots
  obtain ⟨-, hi, hslot⟩ := he
  rcases hdirs with rfl | ⟨h2, hd⟩ | hnew
  · exact (hin.root i hi e hslot).imp_right fun hold => .inl ⟨hin.live, hi, hold⟩
  · rw [if_neg h2]
    exact (hin.other d hd h2 i hi e hslot).imp_right fun hold => .inl ⟨hd, hi, hold⟩
  · exact .inr (.inr (hnew i hi e hslot))

/-- **The sizes fit afterwards** if those of the new entries do and the old entries have
the chains they had. -/
theorem Fitting.step (hs : Fitting s) (h : Safe s D) (h' : Safe s' D') (hin : Inherits s s' d₀ New)
    (hnew : ∀ e, New e → SizeFits s' e ∧ (e.cluster = 0 → e.size = 0))
    (hchain : ∀ d i e l, s'.Has d i e → s.Has (if d = 2 then d₀ else d) i e → ¬e.IsDots →
      Chain (fatStep s) e.cluster l → Chain (fatStep s') e.cluster l) : Fitting s' := by
  intro d i e he
  rcases hin.has h h' he with hn | hold | ⟨-, hsize⟩
  · exact hnew e hn
  · obtain ⟨⟨hdotsSize, hfits⟩, hempty⟩ := hs _ i e hold
    by_cases hdots : e.IsDots
    · exact fits_of_size_eq_zero (hdotsSize hdots)
    refine ⟨⟨fun hd => absurd hd hdots, fun l hl => ?_⟩, hempty⟩
    obtain ⟨l₀, ⟨h0, -⟩ | hl₀⟩ := h.exists_heads (h.holds_of_has hold hdots)
    · -- there is no chain from cluster 0
      have hrange := (h'.layout.toGeometry.of_mem_chain hl hl.head_mem).1.1
      rw [show e.cluster = 0 from h0] at hrange
      omega
    · rw [hl.unique (hchain d i e l₀ he hold hdots hl₀)]
      exact hfits l₀ hl₀
  · exact fits_of_size_eq_zero hsize

/-! ### Writing a slot -/

/-- Clusters in use keep their chains. -/
theorem Geometry.chain_kept (hs : Geometry s) (hs' : Geometry s')
    (hkept : ∀ a, s.fat a ≠ 0 → s'.fat a = s.fat a) (hl : Chain (fatStep s) c l) :
    Chain (fatStep s') c l :=
  hl.congr fun x hx => hs.fatStep_congr hs' (hkept x (hs.of_mem_chain hl hx).2)

variable {x : Option Entry}

/-- What a changed slot has is new, and what the others have was there. -/
theorem new_or_old {r r' : Sector} (hslot : entry r' = update (entry r) i x)
    (hx : ∀ e, x = some e → New e) {j : ℕ} (he : entry r' j = some e) :
    New e ∨ entry r j = some e := by
  rw [hslot, update_apply] at he
  split at he
  · exact .inl (hx e he)
  · exact .inr he

/-- A slot of a directory has been written. -/
theorem Safe.inherits_slot (h : Safe s D) (hslot : entry (s'.sector d) = update (entry (s.sector d)) i x)
    (hother : ∀ d' ∈ D, d' ≠ d → s'.sector d' = s.sector d') (hx : ∀ e, x = some e → New e)
    (hdirs : ∀ e, New e → e.isDir = true → ∀ i < 16, ∀ e', entry (s'.sector e.cluster) i = some e' →
      e'.IsDots ∧ e'.size = 0) : Inherits s s' 2 New := by
  have hsame : ∀ d', LiveDir s d' → ∀ j < 16, ∀ e, entry (s'.sector d') j = some e →
      New e ∨ entry (s.sector d') j = some e := by
    intro d' hd' j _ e he
    by_cases heq : d' = d
    · subst heq
      exact new_or_old hslot hx he
    · rw [hother d' (h.liveDir_iff.mp hd').1 heq] at he
      exact .inr he
  exact ⟨h.liveDir_root, hsame 2 h.liveDir_root, fun d' hd' _ => hsame d' hd', hdirs⟩

/-- The root has been written, with the directory `d` and a slot of it changed. -/
theorem Safe.inherits_copy (h : Safe s D) (hd : LiveDir s d)
    (hslot : entry (s'.sector 2) = update (entry (s.sector d)) i x)
    (hother : ∀ d' ∈ D, d' ≠ 2 → s'.sector d' = s.sector d') (hx : ∀ e, x = some e → New e)
    (hfile : ∀ e, New e → e.isDir = false) : Inherits s s' d New := by
  refine ⟨hd, fun j _ e he => new_or_old hslot hx he, fun d' hd' h2 j _ e he => ?_, fun e he hdir => ?_⟩
  · rw [hother d' (h.liveDir_iff.mp hd').1 h2] at he
    exact .inr he
  · rw [hfile e he] at hdir
    cases hdir

/-! ### Creating -/

theorem size_of_newDirectory {dotdot j : ℕ} (hc : c < 2 ^ 32) (hd : dotdot < 2 ^ 32)
    (h : entry (newDirectory c dotdot) j = some e) : e.IsDots ∧ e.size = 0 := by
  refine ⟨(dots_of_newDirectory hc hd h).imp And.right And.right, ?_⟩
  rw [entry_newDirectory hc hd, update_apply, update_apply] at h
  split at h
  · rw [← Option.some.inj h]
  · split at h
    · rw [← Option.some.inj h]
    · simp at h

variable {n : Path}

theorem Fitting.createFile (hs : Fitting s) (h : Safe s D) (hn : 0 ∉ n) : Fitting (Fat.diskCreate s n 0).1 := by
  have hleaf : 0 ∉ leafOf n := fun h0 => hn (leafOf_subset n h0)
  obtain ⟨D', h', -⟩ := h.diskCreate hn 0
  have hout := h.creation n
  generalize Fat.diskCreate s n 0 = res at h' hout
  cases hout with
  | refused _ => exact hs
  | full _ _ _ _ _ => exact hs
  | present _ _ => exact hs
  | @new d i _ _ hd _ _ =>
    obtain ⟨hrange, -⟩ := h.sound.dirs d hd
    have hup := write_spec h.layout hrange.1 hrange.2 (newEntry (s.sector d) i (leafOf n) 0x20 0)
    generalize s.write (clusterLba s d) (newEntry (s.sector d) i (leafOf n) 0x20 0) = s' at h' hup
    have hin : Inherits s s' 2 fun e => e.isDir = false ∧ e.size = 0 := by
      refine h.inherits_slot (d := d) (i := i) (x := created (leafOf n) 0x20 0) ?_ (fun d' _ hne => ?_)
        (fun e he => ?_) fun e he hdir => ?_
      · rw [hup.sector, update_self]
        exact entry_newEntry _ i 0x20 hleaf (by decide)
      · rw [hup.sector, update_of_ne hne]
      · rw [created_eq_some he]
        exact ⟨isDir_file _ _ _, rfl⟩
      · rw [he.1] at hdir
        cases hdir
    refine hs.step h h' hin (fun e he => fits_of_size_eq_zero he.2) fun _ _ _ _ _ _ _ hl => ?_
    exact h.layout.toGeometry.chain_kept hup.layout.toGeometry (fun a _ => by rw [hup.fat]) hl

theorem Fitting.createDirectory (hs : Fitting s) (h : Safe s D) (hn : 0 ∉ n) {type : UInt8}
    (ht : type ≠ 0) : Fitting (Fat.diskCreate s n type).1 := by
  have hleaf : 0 ∉ leafOf n := fun h0 => hn (leafOf_subset n h0)
  obtain ⟨D', h', -⟩ := h.diskCreate hn type
  have hout := h.directoryCreation n ht
  generalize Fat.diskCreate s n type = res at h' hout
  cases hout with
  | unchanged _ => exact hs
  | @new d i c dotdot s₁ s' hp ha hdotdot hup =>
    obtain ⟨hd, -⟩ := h.parentDir hp
    have hc32 := ha.inRange.lt_word
    have hdc : c ≠ d := by
      rintro rfl
      exact ha.fresh.notDir hd
    have hin : Inherits s s' 2 fun e => e.cluster = c ∧ e.size = 0 := by
      refine h.inherits_slot (d := d) (i := i) (x := created (leafOf n) 0x10 c) ?_
        (fun d' hd' hne => ?_) (fun e he => ?_) fun e he _ j _ e' he' => ?_
      · rw [hup.sector, update_self]
        exact entry_newEntry _ i 0x10 hleaf hc32
      · have hne' : d' ≠ c := by
          rintro rfl
          exact ha.fresh.notDir hd'
        rw [hup.sector, update_of_ne hne, update_of_ne hne', ha.sector_eq hd']
      · rw [created_eq_some he]
        exact ⟨rfl, rfl⟩
      · rw [he.1, hup.sector, update_of_ne hdc, update_self] at he'
        exact size_of_newDirectory hc32 hdotdot he'
    refine hs.step h h' hin (fun e he => fits_of_size_eq_zero he.2) fun _ _ _ _ _ _ _ hl => ?_
    refine h.layout.toGeometry.chain_kept hup.layout.toGeometry (fun a hused => ?_) hl
    rw [hup.fat]
    exact (ha.undisturbed ∅ a (Set.notMem_empty a) hused).1

/-- **`disk_create`** keeps the sizes right. -/
theorem Fitting.diskCreate (hs : Fitting s) (h : Safe s D) (hn : 0 ∉ n) (type : UInt8) :
    Fitting (Fat.diskCreate s n type).1 := by
  by_cases ht : type = 0
  · rw [ht]
    exact hs.createFile h hn
  · exact hs.createDirectory h hn ht

/-! ### Storing a small file -/

/-- **`disk_store`** keeps the sizes right. -/
theorem Fitting.diskStore (hs : Fitting s) (h : Safe s D) (hn : 0 ∉ n) (data : ℕ → UInt8) (size : ℕ) :
    Fitting (Fat.diskStore s n data size).1 := by
  have hcreated := hs.createFile h hn
  obtain ⟨D', h', -⟩ := h.diskStore hn data size
  have hout := h.smallStore hn data size
  generalize Fat.diskStore s n data size = res at h' hout
  cases hout with
  | refused _ => exact hs
  | stopped hc =>
    rw [hc] at hcreated
    exact hcreated
  | @written s₁ s' d i c e hsize hc h₁ hf hfile hw =>
    rw [hc] at hcreated
    have hin : Inherits s₁ s' 2 fun e => ¬e.IsDots ∧ e.isDir = false ∧ e.size ≤ 512 ∧ (e.cluster = 0 → e.size = 0) := by
      refine h₁.inherits_slot hw.slot (fun d' hd' hne => ?_) (fun e' he' => ?_) fun e' he' hdir => ?_
      · refine hw.other d' hne ?_
        rintro rfl
        exact hw.notDir hd'
      · obtain ⟨hdots, hdir, hcluster, hle⟩ := hf.resized hfile he'
        refine ⟨hdots, hdir, hle.trans hsize, fun hzero => ?_⟩
        by_contra h0
        have hrange := (hw.data (by omega)).1.1
        omega
      · rw [he'.2.1] at hdir
        cases hdir
    refine hcreated.step h₁ h' hin (fun e he => fits_of_le he.1 he.2.2.1 he.2.2.2) fun _ _ _ _ _ _ _ hl => ?_
    exact h₁.layout.toGeometry.chain_kept hw.layout.toGeometry hw.fat hl

/-! ### Removing -/

/-- The clusters of a chain are in it, in terms of the volume. -/
theorem Safe.inChain_of_mem (h : Safe s D) (hl : Chain (fatStep s) c l) {x : ℕ} (hx : x ∈ l) : s.graph.InChain c x := by
  induction hl with
  | last _ =>
    rw [mem_singleton.mp hx]
    exact .refl
  | link hstep _ ih =>
    rcases mem_cons.mp hx with rfl | hx
    · exact .refl
    · exact .head (h.links_of_fatStep hstep) (ih hx)

/-- **`disk_remove`** keeps the sizes right. -/
theorem Fitting.diskRemove (hs : Fitting s) (h : Safe s D) (n : Path) : Fitting (Fat.diskRemove s n).1 := by
  obtain ⟨D', h', -⟩ := h.diskRemove n
  have hout := h.removal n
  generalize Fat.diskRemove s n = res at h' hout
  cases hout with
  | refused => exact hs
  | @removed d i e s' hf hup =>
    have hslot : entry (s'.sector d) = update (entry (s.sector d)) i none := by
      rw [hup.sector, update_self]
      exact entry_setDeleted _ i
    have hin : Inherits s s' 2 fun _ => False := by
      refine h.inherits_slot hslot (fun d' _ hne => ?_) (fun e he => absurd he (by simp))
        fun e he => absurd he id
      rw [hup.sector, update_of_ne hne]
    refine hs.step h h' hin (fun e he => absurd he id) fun d' i' e' l he' hold hdots hl => ?_
    refine hl.congr fun x hx => h.layout.toGeometry.fatStep_congr hup.layout.toGeometry ?_
    rw [hup.fat]
    split
    · rfl
    rename_i h0
    refine update_of_ne ?_ _ _
    rintro rfl
    -- the cluster given back would be in two chains
    have hold' : s.Has d' i' e' := by
      split at hold
      · rename_i h2
        rwa [h2]
      · exact hold
    obtain ⟨rfl, rfl⟩ := h.sound.chains_disjoint hf.holds (h.holds_of_has hold' hdots) h0 .refl
      (h.inChain_of_mem hl hx)
    have hnone := he'.2.2
    rw [hslot, update_self] at hnone
    simp at hnone

/-! ### Storing a large file -/

/-- The directories are as they were. -/
theorem Safe.inherits_same (h : Safe s D) (hsame : ∀ d ∈ D, s'.sector d = s.sector d) :
    Inherits s s' 2 fun _ => False := by
  have hold : ∀ d, LiveDir s d → ∀ i < 16, ∀ e, entry (s'.sector d) i = some e →
      False ∨ entry (s.sector d) i = some e := by
    intro d hd i _ e he
    rw [hsame d (h.liveDir_iff.mp hd).1] at he
    exact .inr he
  exact ⟨h.liveDir_root, hold 2 h.liveDir_root, fun d hd _ => hold d hd, fun e he => absurd he id⟩

/-- Deleting the old entry, which makes its directory the root. -/
theorem Fitting.deleteOld (hs : Fitting s) (h : Safe s D) (n : Path) : Fitting (Fat.deleteOld s n) := by
  obtain ⟨D', h', -⟩ := h.deleteOld n
  rw [Fat.deleteOld] at h' ⊢
  rcases hfind : Fat.findEntry s n with _ | ⟨r, i⟩
  · exact hs
  obtain ⟨d, e, rfl, hf⟩ := h.found hfind
  rw [hfind] at h'
  simp only [h.layout.rootCluster] at h' ⊢
  have hup := write_spec h.layout le_rfl (show 2 < 127008 by decide) (setDeleted (s.sector d) i)
  generalize s.write (clusterLba s 2) (setDeleted (s.sector d) i) = s' at h' hup
  have hslot : entry (s'.sector 2) = update (entry (s.sector d)) i none := by
    rw [hup.sector, update_self]
    exact entry_setDeleted _ i
  have hin : Inherits s s' d fun _ => False := by
    refine h.inherits_copy (h.liveDir_iff.mpr ⟨hf.holds.1, hf.reach⟩) hslot (fun d' _ hne => ?_)
      (fun e he => absurd he (by simp)) fun e he => absurd he id
    rw [hup.sector, update_of_ne hne]
  refine hs.step h h' hin (fun e he => absurd he id) fun _ _ _ _ _ _ _ hl => ?_
  exact h.layout.toGeometry.chain_kept hup.layout.toGeometry (fun a _ => by rw [hup.fat]) hl

/-- Clusters taken for a file that is not finished change no entry. -/
theorem Fitting.filled {s₂ s₃ s₄ : State} {tail : ℕ} {bs : List Sector} {ok : Bool} (hs : Fitting s₂)
    (h₂ : Safe s₂ D) (ha : Obtained s₂ D s₃ tail) (hg : Grown s₃ D tail s₄)
    (hfill : Filled s₃ s₄ tail bs ok) : Fitting s₄ := by
  have hin := h₂.inherits_same fun d hd => (hg.dirs d hd).trans (ha.sector_eq hd)
  refine hs.step h₂ hg.safe hin (fun e he => absurd he id) fun _ _ _ _ _ _ _ hl => ?_
  exact h₂.layout.toGeometry.chain_kept hg.safe.layout.toGeometry
    (fun a hused => (ha.undisturbed_filled hfill a (Set.notMem_empty a) hused).1) hl

/-- **`disk_store_large`** keeps the sizes right. -/
theorem Fitting.diskStoreLarge (hs : Fitting s) (h : Safe s D) (hn : 0 ∉ n)
    (hspares : fillsDirectory s n = false) (data : ℕ → UInt8) (size : ℕ) :
    Fitting (Fat.diskStoreLarge s n data size).1 := by
  obtain ⟨D₁, h₁, -⟩ := h.deleteOld n
  have hcreated := (hs.deleteOld h n).createFile h₁ hn
  obtain ⟨D', h', -⟩ := h.diskStoreLarge hn hspares data size
  have hout := h.largeStore hn data size
  generalize Fat.diskStoreLarge s n data size = res at h' hout
  cases hout with
  | refused _ => exact hs
  | notCreated hc =>
    rw [hc] at hcreated
    exact hcreated
  | notFound hc _ =>
    rw [hc] at hcreated
    exact hcreated
  | noCluster hc _ _ _ _ =>
    rw [hc] at hcreated
    exact hcreated
  | broken hc h₂ _ ha hg hfill _ =>
    rw [hc] at hcreated
    exact hcreated.filled h₂ ha hg hfill
  | @stored D₂ s₂ s₃ s₄ d i tail e hc h₂ hf ha hg hfill =>
    rw [hc] at hcreated
    rw [fillsDirectory, hc] at hspares
    simp only [hf.findEntry h₂] at hspares
    have hfile : e.isDir = false := (listing_eq_some hf.holds.2.2.1).2.1.symm.trans hspares
    obtain ⟨htail32, htail0⟩ : tail < 2 ^ 32 ∧ tail ≠ 0 := by
      have := ha.inRange
      rw [InRange] at this
      omega
    have hsame : ∀ d ∈ D₂, s₄.sector d = s₂.sector d := fun d hd =>
      (hg.dirs d hd).trans (ha.sector_eq hd)
    have hup := write_spec hg.safe.layout le_rfl (show 2 < 127008 by decide)
      (setSize (setCluster (s₂.sector d) i tail) i size)
    generalize s₄.write (clusterLba s₄ 2) (setSize (setCluster (s₂.sector d) i tail) i size) = s'
      at h' hup
    have hslot : entry (s'.sector 2) = update (entry (s₂.sector d)) i
        ((entry (s₂.sector d) i).map (Entry.resized tail size)) := by
      rw [hup.sector, update_self]
      exact entry_resized _ i size htail32
    have hin : Inherits s₂ s' d fun e => ¬e.IsDots ∧ e.isDir = false ∧ e.cluster = tail ∧ e.size ≤ size := by
      refine h₂.inherits_copy (h₂.liveDir_iff.mpr ⟨hf.holds.1, hf.reach⟩) hslot (fun d' hd' hne => ?_)
        (fun e' he' => hf.resized hfile he') fun e' he' => he'.2.1
      rw [hup.sector, update_of_ne hne, hsame d' hd']
    have hkept : ∀ a, s₄.fat a ≠ 0 → s'.fat a = s₄.fat a := fun a _ => by rw [hup.fat]
    refine hcreated.step h₂ h' hin (fun e' he' => ⟨⟨fun hd => absurd hd he'.1, fun l hl => ?_⟩,
      fun h0 => absurd (he'.2.2.1.symm.trans h0) htail0⟩) fun _ _ _ _ _ _ _ hl => ?_
    · -- the chain has a cluster for each sector of the file
      obtain ⟨l₀, hl₀, hmap, -⟩ := hfill.done rfl
      have hlen := congrArg List.length hmap
      rw [length_map, fileSectors, length_map, length_range] at hlen
      rw [he'.2.2.1] at hl
      rw [hl.unique (hg.safe.layout.toGeometry.chain_kept hup.layout.toGeometry hkept hl₀)]
      omega
    · refine hg.safe.layout.toGeometry.chain_kept hup.layout.toGeometry hkept ?_
      exact h₂.layout.toGeometry.chain_kept hg.safe.layout.toGeometry
        (fun a hused => (ha.undisturbed_filled hfill a (Set.notMem_empty a) hused).1) hl

/-! ### Runs -/

/-- A new volume has the label only. -/
theorem fitting_diskFormat (s : State) : Fitting (diskFormat s) := by
  rintro d i e ⟨hd, -, hslot⟩
  obtain rfl : d = 2 := ((safe_diskFormat s).liveDir_iff.mp hd).1
  rw [diskFormat_root, entry_newRoot, update_apply] at hslot
  split at hslot
  · cases hslot
    exact fits_of_size_eq_zero rfl
  · simp at hslot

/-- **Every call keeps the sizes right.** -/
theorem Fitting.call (hs : Fitting s) (h : Safe s D) (hcounted : s.Counted) {op : Op} (hop : op.ZeroFree)
    (hspares : op.SparesDirectories s) : Fitting (Fat.call s op).1 := by
  cases op with
  | create n type => exact hs.diskCreate h hop type
  | store n data size => exact hs.diskStore h hop data size
  | remove n => exact hs.diskRemove h n
  | storeLarge n data size => exact hs.diskStoreLarge h hop hspares data size
  | remount =>
    obtain ⟨D', h', -⟩ := h.call hcounted hop hspares
    rw [Fat.call, diskInit_of_layout h.layout hcounted.freeClusters_lt h.next_ge h.next_le rfl, diskMount,
      if_pos rfl] at h' ⊢
    refine hs.step h h' (h.inherits_same fun _ _ => rfl) (fun e he => absurd he id)
      fun _ _ _ _ _ _ _ hl => ?_
    exact h.layout.toGeometry.chain_kept h'.layout.toGeometry (fun _ _ => rfl) hl

/-- **In every run the sizes are right.** -/
theorem sized_run (s₀ : State) {ops : List Op} (hzero : ∀ op ∈ ops, op.ZeroFree)
    (hspares : Runs.Throughout (fun before op => op.SparesDirectories (run (diskFormat s₀) before)) ops) :
    ∃ D, Safe (run (diskFormat s₀) ops) D ∧ Sized (run (diskFormat s₀) ops) := by
  have hall : ∃ D, Safe (run (diskFormat s₀) ops) D ∧ (run (diskFormat s₀) ops).Counted ∧
      Fitting (run (diskFormat s₀) ops) := by
    refine Runs.foldl_invariant (I := fun s => ∃ D, Safe s D ∧ s.Counted ∧ Fitting s) ?_ ?_
    · exact ⟨{2}, safe_diskFormat s₀, (diskFormat_inv s₀).counted, fitting_diskFormat s₀⟩
    · rintro before op after rfl ⟨D, hsafe, hcounted, hs⟩
      have hz := hzero op (by simp)
      have hsp := hspares before op after rfl
      obtain ⟨D', hsafe', hcounted', -⟩ := hsafe.call hcounted hz hsp
      exact ⟨D', hsafe', hcounted', hs.call hsafe hcounted hz hsp⟩
  obtain ⟨D, hsafe, -, hs⟩ := hall
  exact ⟨D, hsafe, hs.sized⟩

end OS64.Fat
