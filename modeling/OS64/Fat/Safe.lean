import OS64.Fat.Guarded
import OS64.Fat.Run

/-!
# States in which the driver writes its own volume only

The driver takes the numbers of the sectors it writes from the disk: from the table
and from the entries of directories. `OS64.Fat.Safe` is what has to be known of the
disk for these numbers to be good ones, whatever the sizes, the hint and the count
are. Each step of the driver keeps it, and is orderly (`OS64.Fat.Orderly`): it
writes sectors of the volume only, and if hint and count were right they are right
afterwards.

The steps are writing a cluster (`OS64.Fat.Safe.write`), setting an entry of the table
(`OS64.Fat.Safe.fatSet`) and taking a cluster (`OS64.Fat.Safe.allocate`).
-/

namespace OS64.Fat

open Function Relation Option

variable {n : Path} {d : ℕ}

variable {s s' : State} {D : Set ℕ} {g : Prop} {c i : ℕ} {r : Sector} {e : Entry}

/-! ### Directories without sizes -/

/-- The entry with its size left out. -/
def Entry.unsized (e : Entry) : Entry := { e with size := 0 }

/-- The entries of a directory sector without their sizes. -/
def listing (r : Sector) (i : ℕ) : Option Entry := (entry r i).map Entry.unsized

theorem listing_eq_some (h : listing r i = some e) : entryName r i = e.name ∧
    entryIsDir r i = e.isDir ∧ entryCluster r i = e.cluster ∧ e.size = 0 := by
  obtain ⟨e', he', rfl⟩ := map_eq_some_iff.mp h
  obtain ⟨hname, hdir, hcluster, -⟩ := entry_eq_some he'
  exact ⟨hname, hdir, hcluster, rfl⟩

theorem listing_of_findSlot (h : findSlot r n = some i) : i < 16 ∧ ∃ e, listing r i = some e ∧ e.name = name83 n := by
  obtain ⟨hi, e, he, hname⟩ := findSlot_eq_some h
  refine ⟨hi, e.unsized, ?_, hname⟩
  rw [listing, he]
  rfl

variable {j dotdot next free : ℕ} {leaf : Path} {fat : ℕ → ℕ} {sector : ℕ → Sector} {D' : Set ℕ}

/-- A name that is not found is not there. -/
theorem listing_of_findSlot_none (h : findSlot r n = none) (hj : j < 16)
    (he : listing r j = some e) : e.name ≠ name83 n := by
  rw [findSlot_eq] at h
  obtain ⟨e', he', rfl⟩ := map_eq_some_iff.mp he
  exact Slots.find_eq_none.mp h j hj e' he'

/-- A sector that differs in one slot. -/
theorem listing_update {r' : Sector} {x : Option Entry}
    (h : entry r' = update (entry r) i x) :
    listing r' = update (listing r) i (x.map Entry.unsized) := by
  funext j
  rw [listing, h, update_apply, update_apply]
  split
  · rfl
  · rfl

theorem listing_setDeleted (r : Sector) (i : ℕ) : listing (setDeleted r i) = update (listing r) i none :=
  listing_update (entry_setDeleted r i)

/-- A size is not seen. -/
theorem listing_setSize (r : Sector) (i size : ℕ) : listing (setSize r i size) = listing r := by
  rw [listing_update (entry_setSize_mod r i size), Option.map_map]
  exact update_eq_self i (listing r)

theorem listing_setCluster (r : Sector) (i : ℕ) (hc : c < 2 ^ 32) : listing (setCluster r i c) =
    update (listing r) i ((listing r i).map fun e => { e with cluster := c }) := by
  rw [listing_update (entry_setCluster r i hc), listing, Option.map_map, Option.map_map]
  rfl

theorem listing_newEntry (r : Sector) (i : ℕ) (attr : UInt8) (hleaf : 0 ∉ leaf) (hc : c < 2 ^ 32) :
    listing (newEntry r i leaf attr c) = update (listing r) i (created leaf attr c) := by
  rw [listing_update (entry_newEntry r i attr hleaf hc), created]
  split
  · rfl
  · rfl

theorem listing_zero : listing zero = fun _ => none := rfl

/-- Searching does not see sizes. -/
theorem findSlot_eq_listing (r : Sector) (n : Path) :
    findSlot r n = Slots.find Entry.name 16 (listing r) (name83 n) := by
  rw [findSlot_eq, Slots.find, Slots.find]
  congr 1
  funext i
  rw [listing, Option.map_map]
  rfl

theorem freeSlot_eq_listing (r : Sector) : freeSlot r = (List.range 16).find? fun i => (listing r i).isNone := by
  rw [freeSlot]
  congr 1
  funext i
  rw [listing, isNone_map, ← entry_isSome, not_isSome]

/-- A new directory has the two dots only. -/
theorem dots_of_listing (hc : c < 2 ^ 32) (hd : dotdot < 2 ^ 32) (h : listing (newDirectory c dotdot) j = some e) :
    (j = 0 ∧ e.name = dotName) ∨ (j = 1 ∧ e.name = dotdotName) := by
  obtain ⟨e', he', rfl⟩ := map_eq_some_iff.mp h
  exact dots_of_newDirectory hc hd (e := e') he'

theorem unique_newDirectory (hc : c < 2 ^ 32) (hd : dotdot < 2 ^ 32) :
    Slots.Unique Entry.name 16 (listing (newDirectory c dotdot)) := by
  intro j _ k _ e f he hf hname
  rcases dots_of_listing hc hd he with ⟨rfl, he'⟩ | ⟨rfl, he'⟩
  · rcases dots_of_listing hc hd hf with ⟨rfl, -⟩ | ⟨-, hf'⟩
    · rfl
    · exact absurd (he'.symm.trans (hname.trans hf')) (by decide)
  · rcases dots_of_listing hc hd hf with ⟨-, hf'⟩ | ⟨rfl, -⟩
    · exact absurd (he'.symm.trans (hname.trans hf')) (by decide)
    · rfl

/-! ### Safe states -/

/-- The volume of a state, without the sizes. -/
def State.graph (s : State) : Volume := ⟨s.fat, fun d => listing (s.sector d)⟩

theorem graph_fat (s : State) : s.graph.fat = s.fat := rfl

theorem graph_dir (s : State) (d : ℕ) : s.graph.dir d = listing (s.sector d) := rfl

/-- The volume is laid out as it should be and guarded, and the hint is in it. -/
structure Safe (s : State) (D : Set ℕ) (g : Prop := True) : Prop where
  layout : Layout s
  guarded : Guarded s.graph D g
  next_ge : 3 ≤ s.nextCluster
  next_le : s.nextCluster ≤ 127008

theorem Safe.sound (h : Safe s D g) : Sound s.graph D := h.guarded.sound

theorem Safe.dirRead (h : Safe s D g) (hd : d ∈ D) : dirRead s d = s.sector d := by
  obtain ⟨hrange, -⟩ := h.sound.dirs d hd
  exact h.layout.toGeometry.dirRead hrange.1 hrange.2

theorem Safe.fatGet (h : Safe s D g) (hc : InRange c) : fatGet s c = s.fat c := by
  rw [h.layout.toGeometry.fatGet hc.2]
  exact Nat.mod_eq_of_lt (h.sound.small c hc)

/-- What is found in a directory. -/
theorem holds_of_findSlot (hd : d ∈ D)
    (hfind : findSlot (s.sector d) n = some i) : ∃ e, s.graph.Holds D d i e ∧ e.name = name83 n := by
  obtain ⟨hi, e, he, hname⟩ := listing_of_findSlot hfind
  exact ⟨e, ⟨hd, hi, he, Entry.not_isDots hname⟩, hname⟩

theorem Safe.hasDir_of_subdirectory (h : Safe s D g) {d' : ℕ} (hd : d ∈ D) {component : Path}
    (hsub : subdirectory s d component = some d') : s.graph.HasDir D d d' := by
  rw [subdirectory, h.dirRead hd] at hsub
  split at hsub
  · simp at hsub
  · rename_i slot hslot
    obtain ⟨e, he, -⟩ := holds_of_findSlot hd hslot
    obtain ⟨-, hisDir, hcluster, -⟩ := listing_eq_some he.2.2.1
    split at hsub
    · rename_i hdir
      refine ⟨slot, e, he, hisDir.symm.trans hdir, ?_⟩
      rw [← hcluster]
      exact some.inj hsub
    · simp at hsub

/-- A path leads to directories. -/
theorem Safe.walk (h : Safe s D g) : ∀ (cs : List Path) {d d' : ℕ}, d ∈ D → walk s d cs = some d' →
    d' ∈ D ∧ ReflTransGen (s.graph.HasDir D) d d'
  | [], d, d', hd, hwalk => by
    obtain rfl := some.inj hwalk
    exact ⟨hd, .refl⟩
  | component :: cs, d, d', hd, hwalk => by
    rw [Fat.walk] at hwalk
    rcases hsub : subdirectory s d component with _ | b
    · rw [hsub] at hwalk
      simp at hwalk
    · rw [hsub] at hwalk
      have hchild := h.hasDir_of_subdirectory hd hsub
      obtain ⟨hd', hreach⟩ := Safe.walk h cs (h.sound.mem_of_hasDir hchild) hwalk
      exact ⟨hd', .head hchild hreach⟩

/-- **A path leads from the root to a directory.** -/
theorem Safe.parentDir (h : Safe s D g) (hp : parentDir s n = some (d, leaf)) :
    d ∈ D ∧ leaf = leafOf n ∧ ReflTransGen (s.graph.HasDir D) 2 d := by
  rw [Fat.parentDir] at hp
  split at hp
  · simp at hp
  · obtain ⟨d', hwalk, heq⟩ := map_eq_some_iff.mp hp
    cases heq
    rw [h.layout.rootCluster] at hwalk
    obtain ⟨hd, hreach⟩ := h.walk _ h.sound.root hwalk
    exact ⟨hd, rfl, hreach⟩

/-! ### The steps -/

/-- The hint and the count of the state are right. -/
def State.Counted (s : State) : Prop := Fat.Counted s.fat s.nextCluster s.freeClusters

/-- From `s` to `s'` only the volume has been written, and hint and count are right if
they were. -/
structure Orderly (s s' : State) : Prop where
  writes : Store.Writes InHome s.disk s'.disk
  counted : s.Counted → s'.Counted
  mounted : s'.mounted = s.mounted

theorem Orderly.refl (s : State) : Orderly s s := ⟨.refl, id, rfl⟩

theorem Orderly.trans {s₁ s₂ s₃ : State} (h : Orderly s₁ s₂) (h' : Orderly s₂ s₃) : Orderly s₁ s₃ :=
  ⟨h.writes.trans h'.writes, fun hc => h'.counted (h.counted hc), h'.mounted.trans h.mounted⟩

/-- What a step leads to, in terms of the volume. -/
theorem Updates.graph (h : Updates s s' fat sector next free) : s'.graph = ⟨fat, fun d => listing (sector d)⟩ := by
  rw [State.graph, h.fat, h.sector]

theorem listing_sector_update (sector : ℕ → Sector) (c : ℕ) (b : Sector) :
    (fun d => listing (update sector c b d)) = update (fun d => listing (sector d)) c (listing b) := by
  funext d
  rw [update_apply, update_apply]
  split
  · rfl
  · rfl

/-- A step that leaves hint and count alone is safe if the volume is guarded
afterwards. -/
theorem Safe.of_updates (h : Safe s D g) (hup : Updates s s' fat sector s.nextCluster s.freeClusters)
    (hg : Guarded ⟨fat, fun d => listing (sector d)⟩ D' g) : Safe s' D' g := by
  refine ⟨hup.layout, hup.graph ▸ hg, ?_, ?_⟩
  · rw [hup.nextCluster]
    exact h.next_ge
  · rw [hup.nextCluster]
    exact h.next_le

theorem Updates.orderly
    (h : Updates s s' fat sector next free) (hc : s.Counted → Fat.Counted fat next free) : Orderly s s' := by
  refine ⟨h.writes, fun hcounted => ?_, h.mounted⟩
  rw [State.Counted, h.fat, h.nextCluster, h.freeClusters]
  exact hc hcounted

/-- **Writing a cluster.** -/
theorem Safe.write (h : Safe s D g) (hc : InRange c) {b : Sector} (hg : Guarded (s.graph.setDir c (listing b)) D' g) :
    Safe (s.write (clusterLba s c) b) D' g ∧ Orderly s (s.write (clusterLba s c) b) ∧
      (s.write (clusterLba s c) b).graph = s.graph.setDir c (listing b) ∧
      (s.write (clusterLba s c) b).sector = update s.sector c b := by
  have hup := write_spec h.layout hc.1 hc.2 b
  have hgraph : (s.write (clusterLba s c) b).graph = s.graph.setDir c (listing b) := by
    rw [hup.graph, listing_sector_update]
    rfl
  exact ⟨h.of_updates hup (hup.graph ▸ hgraph ▸ hg), hup.orderly id, hgraph, hup.sector⟩

/-- **Setting an entry of the table** that is not zero to another value. -/
theorem Safe.fatSet (h : Safe s D g) {v : ℕ} (hc : c < 127008) (hused : s.fat c ≠ 0) (hv : v ≠ 0)
    (hv32 : v < 2 ^ 32) (hg : Guarded (s.graph.setFat c v) D g) :
    Safe (fatSet s c v) D g ∧ Orderly s (fatSet s c v) ∧
      (fatSet s c v).graph = s.graph.setFat c v ∧ (fatSet s c v).sector = s.sector := by
  have hup := fatSet_spec h.layout hc hv32
  have hgraph : (Fat.fatSet s c v).graph = s.graph.setFat c v := by
    rw [hup.graph]
    rfl
  exact ⟨h.of_updates hup hg, hup.orderly fun hcounted => hcounted.setUsed hused hv, hgraph, hup.sector⟩

/-- The cluster `c` has been taken: it was free, it is empty, and nothing leads to it
yet. -/
structure Obtained (s : State) (D : Set ℕ) (s' : State) (c : ℕ) (g : Prop := True) : Prop where
  safe : Safe s' D g
  inRange : InRange c
  free : s.fat c = 0
  graph : s'.graph = s.graph.take c
  sector : s'.sector = update s.sector c zero
  fresh : Fresh s'.graph D c
  spare : g → c ≠ s'.graph.fat 0

/-- **`allocate`** takes a free cluster or changes nothing. -/
theorem Safe.allocate (h : Safe s D g) (halloc : allocate s = (s', c)) :
    (c = 0 ∧ s' = s) ∨ (c ≠ 0 ∧ Obtained s D s' c g ∧ Orderly s s') := by
  have hge := h.next_ge
  rcases hfind : findFree s with _ | a
  · obtain ⟨rfl, rfl⟩ := Prod.mk.inj ((allocate_none hfind).symm.trans halloc)
    exact .inl ⟨rfl, rfl⟩
  · obtain ⟨hle, hlt, hget, hbefore⟩ := findFree_eq_some hfind
    rw [h.layout.maxCluster] at hlt
    have hrange : InRange a := ⟨by omega, hlt⟩
    have hfree : s.fat a = 0 := (h.fatGet hrange).symm.trans hget
    obtain ⟨hca, hup⟩ := allocate_spec h.layout (by omega) hfind
    rw [halloc] at hca hup
    obtain rfl : c = a := hca
    have hgraph : s'.graph = s.graph.take c := by
      rw [hup.graph, listing_sector_update, listing_zero]
      rfl
    obtain ⟨hg, hfresh, hspare⟩ := h.guarded.take hrange hfree
    rw [← hgraph] at hg hfresh hspare
    refine .inr ⟨by omega, ⟨⟨hup.layout, hg, ?_, ?_⟩, hrange, hfree, hgraph, hup.sector, hfresh, hspare⟩,
      hup.orderly fun hcounted => ?_⟩
    · rw [hup.nextCluster]
      omega
    · rw [hup.nextCluster]
      exact hlt
    · refine hcounted.take hrange hfree (by decide) fun b hb hbc => ?_
      rw [← h.fatGet ⟨by omega, by omega⟩]
      exact hbefore b hb hbc

/-- A directory is not in the cluster just taken. -/
theorem Obtained.sector_eq (h : Obtained s D s' c g) (hd : d ∈ D) : s'.sector d = s.sector d := by
  rw [h.sector, update_of_ne]
  rintro rfl
  exact h.fresh.notDir hd

/-! ### The first state -/

/-- An entry without its size is an entry. -/
theorem holds_of_graph (h : s.graph.Holds D d i e) : ∃ e', s.volume.Holds D d i e' ∧ e = e'.unsized := by
  obtain ⟨hd, hi, hslot, hdots⟩ := h
  obtain ⟨e', he', rfl⟩ := map_eq_some_iff.mp hslot
  exact ⟨e', ⟨hd, hi, he', hdots⟩, rfl⟩

theorem graph_of_holds (h : s.volume.Holds D d i e) : s.graph.Holds D d i e.unsized := by
  obtain ⟨hd, hi, hslot, hdots⟩ := h
  refine ⟨hd, hi, ?_, hdots⟩
  rw [graph_dir, listing, show entry (s.sector d) i = some e from hslot]
  rfl

/-- **A sound volume** is sound without its sizes. -/
theorem Sound.unsized (hs : Sound s.volume D) : Sound s.graph D := by
  refine ⟨hs.root, hs.dirs, hs.small, fun d hd => ?_, fun d i e he hne => ?_, fun d i e he h0 => ?_,
    fun d i e d' i' e' he he' heq hne => ?_, fun a b hab => ?_⟩
  · intro j hj k hk e f he hf hname
    obtain ⟨e', he', rfl⟩ := map_eq_some_iff.mp he
    obtain ⟨f', hf', rfl⟩ := map_eq_some_iff.mp hf
    exact hs.unique d hd j hj k hk e' f' he' hf' hname
  · obtain ⟨e', he', rfl⟩ := holds_of_graph he
    exact hs.heads d i e' he' hne
  · obtain ⟨e', he', rfl⟩ := holds_of_graph he
    exact ⟨(hs.empty d i e' he' h0).1, rfl⟩
  · obtain ⟨f, hf, rfl⟩ := holds_of_graph he
    obtain ⟨f', hf', rfl⟩ := holds_of_graph he'
    exact hs.separate d i f d' i' f' hf hf' heq hne
  · obtain ⟨hrange, hused, hdir, hback, hhead⟩ := hs.links a b hab
    refine ⟨hrange, hused, hdir, hback, fun d i e he => ?_⟩
    obtain ⟨e', he', rfl⟩ := holds_of_graph he
    exact hhead d i e' he'

/-- **A new volume** is safe; entry 0 of its table ends a chain. -/
theorem safe_diskFormat (s : State) : Safe (diskFormat s) {2} := by
  have hinv := diskFormat_inv s
  have hzero : (diskFormat s).graph.fat 0 = 0x0ffffff8 := by
    rw [graph_fat, State.fat, if_pos (by decide), diskFormat_table s (show 0 / 128 < 993 by decide)]
    decide +kernel
  refine ⟨hinv.layout, ⟨hinv.sound.unsized, fun _ => ?_, fun _ h0 => ?_⟩, hinv.next_ge, hinv.next_le⟩
  · rw [hzero]
    decide
  · rw [hzero] at h0
    exact absurd h0 (by decide)

end OS64.Fat
