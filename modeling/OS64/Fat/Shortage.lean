import OS64.Fat.Fill

/-!
# Calls that fail for want of space

`disk_store` makes the entry of a new file before it asks for a cluster, and
`disk_store_large` deletes the entry of an old one before it does anything else. When the
slot or the cluster is not there, nothing is undone. This module says when the volume is
as it was after all (`OS64.Fat.short_store_iff`): after `disk_store`, if the entry was
there or there was no slot for it; after `disk_store_large`, if there was neither entry
nor slot, or if the entry that was deleted is the one that was then made, that of an
empty file of the root, and there was not a single cluster.

A path with directories in it is the curious case. `disk_store_large` writes the
directory over the root; if it gets as far as looking for a slot, then the path still
leads somewhere from the new root, and the entry it starts with is not one the root had
before (`OS64.Fat.Found.not_leaves_nested`), since no directory is below two others.
-/

namespace OS64.Fat

open List Function Relation Option

variable {s s' : State} {D : Set ℕ} {n : Path} {d i : ℕ} {e : Entry}

/-! ### What should be as before -/

/-- The file loads with this size and this sector, and these are all its sectors. -/
def LoadsAs (s : State) (n : Path) (size : ℕ) (b : Sector) (bs : List Sector) : Prop :=
  diskLoad s n = some (size, b) ∧ ∃ r i l, findEntry s n = some (r, i) ∧
    Heads s (entryCluster r i) l ∧ l.map (dirRead s) = bs

/-- The file of that name loads as before, no directory has an entry that it did not
have, and as many table entries are zero as before. -/
structure LeavesAsBefore (s s' : State) (n : Path) : Prop where
  loads : ∀ size b bs, LoadsAs s n size b bs → LoadsAs s' n size b bs
  entries : ∀ d, LiveDir s d → ∀ i < 16, ∀ e, entry (dirRead s' d) i = some e →
    ∃ j < 16, entry (dirRead s d) j = some e
  free : freeEntries s' = freeEntries s

theorem LeavesAsBefore.refl (s : State) (n : Path) : LeavesAsBefore s s n :=
  ⟨fun _ _ _ h => h, fun _ _ i hi _ he => ⟨i, hi, he⟩, rfl⟩

/-! ### Failing for want of space -/

/-- The path leads to a directory without the entry and without a slot for it. -/
def NoSlot (s : State) (n : Path) : Prop :=
  s.mounted = true ∧ ∃ d, parentDir s n = some (d, leafOf n) ∧
    findSlot (dirRead s d) (leafOf n) = none ∧ freeSlot (dirRead s d) = none

/-- `disk_store` comes to the point where it needs a slot or a cluster, and there is
none. -/
inductive StoreShort (s : State) (n : Path) (size : ℕ) : Prop
  | slot (hsize : size ≤ 512) (h : NoSlot s n)
  | cluster {s₁ : State} {r : Sector} {i : ℕ} (hsize : size ≤ 512) (h0 : size ≠ 0)
      (hc : diskCreate s n 0 = (s₁, true)) (hfind : findEntry s₁ n = some (r, i))
      (hfile : entryIsDir r i = false) (hnone : entryCluster r i = 0) (halloc : (allocate s₁).2 = 0)

/-- The sizes `disk_store_large` accepts. -/
def IsLargeSize (size : ℕ) : Prop := size ≠ 0 ∧ size ≤ homeSectors * 512

/-- `disk_store_large` comes to the point where it needs a slot, its first cluster or
another one, and there is none. -/
inductive LargeShort (s : State) (n : Path) (data : ℕ → UInt8) (size : ℕ) : Prop
  | slot (hsize : IsLargeSize size) (h : NoSlot (deleteOld s n) n)
  | first {s₂ : State} {r : Sector} {i : ℕ} (hsize : IsLargeSize size) (hc : diskCreate (deleteOld s n) n 0 = (s₂, true))
      (hfind : findEntry s₂ n = some (r, i)) (halloc : (allocate s₂).2 = 0)
  | later {s₂ s₃ s₄ : State} {r : Sector} {i tail : ℕ} (hsize : IsLargeSize size)
      (hc : diskCreate (deleteOld s n) n 0 = (s₂, true)) (hfind : findEntry s₂ n = some (r, i))
      (halloc : allocate s₂ = (s₃, tail)) (htail : tail ≠ 0)
      (hchain : storeChain s₃ tail (fileSectors data size) = (s₄, false))

/-- Without a slot nothing is created. -/
theorem NoSlot.diskCreate (h : NoSlot s n) : diskCreate s n 0 = (s, false) := by
  obtain ⟨hm, d, hp, hnone, hfull⟩ := h
  rw [Fat.diskCreate, if_neg (not_not.mpr hm), hp]
  simp only [hnone, hfull]

theorem NoSlot.findEntry (h : NoSlot s n) : findEntry s n = none := by
  obtain ⟨-, d, hp, hnone, -⟩ := h
  rw [Fat.findEntry, hp]
  simp only [hnone]

/-! ### Entries that were not there -/

/-- **A new entry** has a name that its directory did not have. -/
theorem Safe.not_leaves_new (h : Safe s D) (hn : 0 ∉ n) (hp : Fat.parentDir s n = some (d, leafOf n))
    (hnone : findSlot (s.sector d) (leafOf n) = none) (hi : i < 16)
    (he5 : (name83 (leafOf n)).getD 0 0 ≠ 0xe5) (hs' : Layout s')
    (hsector : s'.sector d = newEntry (s.sector d) i (leafOf n) 0x20 0) : ¬LeavesAsBefore s s' n := by
  obtain ⟨hd, -, hreach⟩ := h.parentDir hp
  obtain ⟨hrange, -⟩ := h.sound.dirs d hd
  have hleaf : 0 ∉ leafOf n := fun h0 => hn (leafOf_subset n h0)
  intro hleaves
  obtain ⟨j, hj, he⟩ := hleaves.entries d (h.liveDir_iff.mpr ⟨hd, hreach⟩) i hi
    ⟨name83 (leafOf n), 0x20, 0, 0⟩ (by
      rw [hs'.toGeometry.dirRead hrange.1 hrange.2, hsector, entry_newEntry _ i _ hleaf (by decide),
        update_self, created, if_neg he5])
  rw [h.dirRead hd] at he
  rw [findSlot_eq] at hnone
  exact Slots.find_eq_none.mp hnone j hj _ he rfl

/-- **A directory written over the root** brings in an entry that the root did not have,
if the path leads on from there. -/
theorem Found.not_leaves_nested (h : Safe s D) (hf : Found s D n d i e) (hd2 : d ≠ 2)
    {x : ℕ × Path} (hp : parentDir (deleteOld s n) n = some x) (hs' : Layout s')
    (hroot : s'.sector 2 = (deleteOld s n).sector 2) : ¬LeavesAsBefore s s' n := by
  have hup := write_spec h.layout le_rfl (by decide) (setDeleted (s.sector d) i)
  have hold : deleteOld s n = s.write (clusterLba s 2) (setDeleted (s.sector d) i) := by
    rw [deleteOld, hf.findEntry h]
    simp only [h.layout.rootCluster]
  rw [← hold] at hup
  -- the path starts with a directory, since it does not end in the root
  obtain ⟨component, components, hdirs⟩ : ∃ c cs, directoriesOf n = c :: cs := by
    rcases hdirs : directoriesOf n with _ | ⟨c, cs⟩
    · exact absurd (h.parentDir_rootLevel hdirs hf.parent).1 hd2
    · exact ⟨c, cs, rfl⟩
  rw [Fat.parentDir] at hp
  split at hp
  · simp at hp
  obtain ⟨d', hwalk, -⟩ := map_eq_some_iff.mp hp
  rw [hdirs, hup.layout.rootCluster, Fat.walk] at hwalk
  rcases hsub : subdirectory (deleteOld s n) 2 component with _ | x
  · rw [hsub] at hwalk
    simp at hwalk
  rw [subdirectory, hup.layout.toGeometry.dirRead le_rfl (by decide), hup.sector, update_self]
    at hsub
  rcases hslot : findSlot (setDeleted (s.sector d) i) (component.take 12) with _ | k
  · rw [hslot] at hsub
    simp at hsub
  rw [hslot] at hsub
  simp only at hsub
  split at hsub
  case isFalse => simp at hsub
  rename_i hdir
  obtain ⟨hk, e', he', hname⟩ := findSlot_eq_some hslot
  have hdots : ¬e'.unsized.IsDots := Entry.not_isDots hname
  have hentry : entry (s.sector d) k = some e' := by
    rw [entry_setDeleted, update_apply] at he'
    split at he'
    · simp at he'
    · exact he'
  intro hleaves
  obtain ⟨j, hj, he⟩ := hleaves.entries 2 (h.liveDir_iff.mpr ⟨h.sound.root, .refl⟩) k hk e' (by
    rw [hs'.toGeometry.dirRead le_rfl (by decide), hroot, hup.sector, update_self]
    exact he')
  rw [h.dirRead h.sound.root] at he
  -- so the same directory is in the root and in `d`
  have hisDir : e'.isDir = true := (entry_eq_some he').2.1.symm.trans hdir
  have hin : ∀ {a k}, a ∈ D → k < 16 → entry (s.sector a) k = some e' → s.graph.HasDir D a e'.cluster := by
    intro a k ha hk hak
    exact ⟨k, e'.unsized, ⟨ha, hk, by rw [graph_dir, listing, hak]; rfl, hdots⟩, hisDir, rfl⟩
  exact hd2 (h.sound.hasDir_leftUnique (hin hf.holds.1 hk hentry) (hin h.sound.root hj he))

/-! ### An entry deleted and made again -/

/-- The entry `disk_create` makes for a file. -/
def emptyFile (n : Path) : Entry := ⟨name83 (leafOf n), 0x20, 0, 0⟩

/-- What an empty file loads as: size 0, and the sector that cluster 0 would be in. -/
theorem Found.diskLoad_empty (h : Safe s D) (hf : Found s D n d i e) (hm : s.mounted = true)
    (hempty : entry (s.sector d) i = some (emptyFile n)) :
    diskLoad s n = some (0, s.disk 4064) ∧ entryCluster (s.sector d) i = 0 := by
  obtain ⟨-, hdir, hcluster, hsize⟩ := entry_eq_some hempty
  rw [emptyFile, isDir_file] at hdir
  rw [diskLoad, if_neg (not_not.mpr hm), hf.findEntry h]
  simp only [hdir, hcluster, hsize]
  refine ⟨?_, rfl⟩
  rw [show (emptyFile n).cluster = 0 from rfl, h.layout.toGeometry.clusterLba (show 0 < 2 ^ 31 by decide)]
  rfl

variable {r : Sector} {j size : ℕ} {data : ℕ → UInt8}

/-- The root after an entry has been deleted and a new one made. -/
theorem entry_replaced (hn : 0 ∉ n) (he5 : (name83 (leafOf n)).getD 0 0 ≠ 0xe5) :
    entry (newEntry (setDeleted r i) j (leafOf n) 0x20 0) =
      update (update (entry r) i none) j (some (emptyFile n)) := by
  rw [entry_newEntry _ j _ (fun h0 => hn (leafOf_subset n h0)) (by decide), entry_setDeleted, created, if_neg he5]
  rfl

section

variable (h : Safe s D)
include h

/-- **The volume is as before exactly if the entry was that of an empty file.** -/
theorem Found.leaves_replaced_iff {D' : Set ℕ} (hf : Found s D n 2 i e)
    (hn : 0 ∉ n) (hroot : RootLevel n) (hj : j < 16) (h' : Safe s' D')
    (hup : Updates s s' s.fat (update s.sector 2
      (newEntry (setDeleted (s.sector 2) i) j (leafOf n) 0x20 0)) s.nextCluster s.freeClusters)
    (hzero : s'.disk 4064 = s.disk 4064) {k : ℕ} (hfind : Fat.findEntry s' n = some (r, k)) :
    LeavesAsBefore s s' n ↔ entry (s.sector 2) i = some (emptyFile n) := by
  have hsector : s'.sector 2 = newEntry (setDeleted (s.sector 2) i) j (leafOf n) 0x20 0 := by
    rw [hup.sector, update_self]
  have hentry : entry (s'.sector 2) = update (update (entry (s.sector 2)) i none) j (some (emptyFile n)) := by
    rw [hsector]
    exact entry_replaced hn (first_ne_of_findSlot hf.slot)
  have hmade : entry (s'.sector 2) j = some (emptyFile n) := by rw [hentry, update_self]
  have hlisted : ∀ {t : State} {k : ℕ}, entry (t.sector 2) k = some (emptyFile n) →
      t.graph.dir 2 k = some (emptyFile n) := by
    intro t k hk
    rw [graph_dir, listing, hk]
    rfl
  constructor
  · intro hleaves
    obtain ⟨k, hk, he⟩ := hleaves.entries 2 (h.liveDir_iff.mpr ⟨h.sound.root, .refl⟩) j hj (emptyFile n) (by
      rw [h'.dirRead h'.sound.root, hmade])
    rw [h.dirRead h.sound.root] at he
    -- the root had the name once
    obtain rfl : k = i := h.sound.unique 2 h.sound.root k hk i hf.holds.2.1 _ e (hlisted he)
      hf.holds.2.2.1 hf.name.symm
    exact he
  · intro hempty
    obtain ⟨d', e', rfl, hf'⟩ := h'.found hfind
    obtain ⟨rfl, -⟩ := h'.parentDir_rootLevel hroot hf'.parent
    obtain rfl : k = j := h'.sound.unique 2 h'.sound.root k hf'.holds.2.1 j hj e' _ hf'.holds.2.2.1
      (hlisted hmade) hf'.name
    refine ⟨fun size b bs hloads => ?_, fun d hd k' hk' e'' he'' => ?_, ?_⟩
    · obtain ⟨hload, r, i', l, hfind₀, hl, hbs⟩ := hloads
      have hm : s.mounted = true := by
        by_contra hm
        rw [diskLoad, if_pos hm] at hload
        simp at hload
      obtain ⟨hload₀, hcluster₀⟩ := hf.diskLoad_empty h hm hempty
      obtain ⟨hload', hcluster'⟩ := hf'.diskLoad_empty h' (hup.mounted.trans hm) hmade
      rw [hf.findEntry h] at hfind₀
      obtain ⟨rfl, rfl⟩ := Prod.mk.inj (some.inj hfind₀)
      rw [hcluster₀] at hl
      obtain rfl : l = [] := hl.unique (.inl ⟨rfl, rfl⟩)
      refine ⟨?_, s'.sector 2, k, [], hfind, .inl ⟨hcluster', rfl⟩, hbs⟩
      rw [hload', hzero, ← hload₀, hload]
    · obtain ⟨hdD, -⟩ := h.liveDir_iff.mp hd
      obtain ⟨hrange, -⟩ := h.sound.dirs d hdD
      rw [h.dirRead hdD]
      rw [hup.layout.toGeometry.dirRead hrange.1 hrange.2] at he''
      by_cases hd2 : d = 2
      · rw [hd2] at he'' ⊢
        rw [hentry, update_apply] at he''
        split at he''
        · cases he''
          exact ⟨i, hf.holds.2.1, hempty⟩
        · rw [update_apply] at he''
          split at he''
          · simp at he''
          · exact ⟨k', hk', he''⟩
      · rw [hup.sector, update_of_ne hd2] at he''
        exact ⟨k', hk', he''⟩
    · rw [hup.layout.toGeometry.freeEntries, h.layout.toGeometry.freeEntries, hup.fat]

/-! ### The calls -/

theorem Safe.rootLevel_of_parentDir {leaf : Path} (hp : Fat.parentDir s n = some (2, leaf)) : RootLevel n := by
  rw [Fat.parentDir] at hp
  split at hp
  · simp at hp
  obtain ⟨d, hwalk, heq⟩ := map_eq_some_iff.mp hp
  cases heq
  rw [RootLevel]
  rcases hdirs : directoriesOf n with _ | ⟨c, cs⟩
  · rfl
  · -- a directory on the way would be above the root
    rw [hdirs, h.layout.rootCluster, Fat.walk] at hwalk
    rcases hsub : subdirectory s 2 c with _ | b
    · rw [hsub] at hwalk
      simp at hwalk
    · rw [hsub] at hwalk
      have hchild := h.hasDir_of_subdirectory h.sound.root hsub
      obtain ⟨-, hreach⟩ := h.walk cs (h.sound.mem_of_hasDir hchild) hwalk
      exact absurd (TransGen.head' hchild hreach) (h.sound.not_transGen_root 2)

/-- A failed `allocate` changes nothing. -/
theorem Safe.allocate_eq (h0 : (Fat.allocate s).2 = 0) : Fat.allocate s = (s, 0) := by
  rcases halloc : Fat.allocate s with ⟨s', c⟩
  rw [halloc] at h0
  obtain rfl : c = 0 := h0
  rcases h.allocate halloc with ⟨-, rfl⟩ | ⟨hne, -⟩
  · rfl
  · exact absurd rfl hne

/-- Without a free cluster `allocate` fails. -/
theorem Safe.allocate_of_full (hfull : freeCount s.fat = 0) : (Fat.allocate s).2 = 0 := by
  rcases halloc : Fat.allocate s with ⟨s', c⟩
  rcases h.allocate halloc with ⟨rfl, -⟩ | ⟨-, ha, -⟩
  · rfl
  · have hone := ha.freeCount_eq
    omega

/-- **`disk_store`** for want of a slot or a cluster. -/
theorem Safe.short_diskStore (hn : 0 ∉ n) (hshort : StoreShort s n size)
    (data : ℕ → UInt8) : (Fat.diskStore s n data size).2 = false ∧
      (LeavesAsBefore s (Fat.diskStore s n data size).1 n ↔ Fat.findEntry s n ≠ none ∨ NoSlot s n) := by
  cases hshort with
  | slot hsize hslot =>
    rw [Fat.diskStore, if_neg (by omega), hslot.diskCreate]
    exact ⟨rfl, fun _ => .inr hslot, fun _ => .refl s n⟩
  | @cluster s₁ r i hsize h0 hc hfind hfile hnone halloc =>
    obtain ⟨D₁, h₁, -⟩ := h.diskCreate hn 0
    rw [hc] at h₁
    obtain ⟨d, e, rfl, hf⟩ := h₁.found hfind
    have hres : Fat.diskStore s n data size = (s₁, false) := by
      rw [Fat.diskStore, if_neg (by omega), hc]
      simp only [hf.parent, h₁.dirRead hf.holds.1, hf.slot, hfile, h₁.allocate_eq halloc]
      simp [h0, hnone]
    rw [hres]
    refine ⟨rfl, ?_⟩
    have hcreation := h.creation n
    rw [hc] at hcreation
    cases hcreation with
    | present _ hf₀ =>
      refine ⟨fun _ => .inl ?_, fun _ => .refl s n⟩
      rw [hf₀.findEntry h]
      simp
    | @new d' j _ hp hd hnone' hfree =>
      have hup := write_spec h.layout (h.sound.dirs d' hd).1.1 (h.sound.dirs d' hd).1.2
        (newEntry (s.sector d') j (leafOf n) 0x20 0)
      refine iff_of_false ?_ ?_
      · exact h.not_leaves_new hn hp hnone' (freeSlot_eq_some hfree).1 (first_ne_of_findSlot hf.slot)
          hup.layout (by rw [hup.sector, update_self])
      · rintro (hsome | hslot)
        · exact hsome (h.findEntry_eq_none hp hnone')
        · rw [hslot.diskCreate] at hc
          simp at hc

end

/-- The entry was that of an empty file of the root, and there is no cluster. -/
def EmptyAndFull (s : State) (n : Path) : Prop :=
  RootLevel n ∧ freeEntries s = 0 ∧
    ∃ r i, findEntry s n = some (r, i) ∧ entry r i = some (emptyFile n)

/-- Where `disk_store_large` stops: before the entry is made, with the entry and no
cluster, or with some clusters taken. -/
inductive Stopped (s : State) (n : Path) (s' : State) : Prop
  | slot (hs' : s' = deleteOld s n) (h : NoSlot (deleteOld s n) n)
  | first (hc : diskCreate (deleteOld s n) n 0 = (s', true)) {r : Sector} {i : ℕ}
      (hfind : findEntry s' n = some (r, i)) (hfull : freeCount s.fat = 0)
  | later {s₂ : State} (hc : diskCreate (deleteOld s n) n 0 = (s₂, true)) (hs' : Layout s')
      (hless : freeCount s'.fat < freeCount s.fat)

theorem Safe.stopped (h : Safe s D) (hcounted : s.Counted) (hn : 0 ∉ n) (hshort : LargeShort s n data size) :
    (Fat.diskStoreLarge s n data size).2 = false ∧ Stopped s n (Fat.diskStoreLarge s n data size).1 := by
  obtain ⟨D₁, h₁, horderly₁⟩ := h.deleteOld n
  obtain ⟨D₂, h₂, horderly₂⟩ := h₁.diskCreate hn 0
  obtain ⟨_, hup₁⟩ := h.deleteOld_updates n
  obtain ⟨_, hup₂, -⟩ := (h₁.creation n).updates h₁
  have hcounted₂ := (horderly₁.trans horderly₂).counted hcounted
  have hfat := hup₂.fat.trans hup₁.fat
  have hgo : IsLargeSize size → (Fat.deleteOld s n).mounted = true →
      ¬(¬s.mounted ∨ size = 0 ∨ size > homeSectors * 512) := by
    rintro ⟨h0, hmax⟩ hm (hunmounted | hzero | hlarge)
    · exact hunmounted (hup₁.mounted.symm.trans hm)
    · exact h0 hzero
    · omega
  cases hshort with
  | slot hsize hslot =>
    rw [Fat.diskStoreLarge, if_neg (hgo hsize hslot.1), hslot.diskCreate]
    exact ⟨rfl, .slot rfl hslot⟩
  | @first s₂ r i hsize hc hfind halloc =>
    rw [hc] at h₂ hcounted₂ hfat
    rw [Fat.diskStoreLarge, if_neg (hgo hsize (mounted_of_diskCreate hc)), hc]
    simp only [hfind, h₂.allocate_eq halloc, reduceIte]
    refine ⟨trivial, .first hc hfind ?_⟩
    rw [← hfat]
    exact h₂.freeCount_of_allocate hcounted₂ halloc
  | @later s₂ s₃ s₄ r i tail hsize hc hfind halloc htail hchain =>
    rw [hc] at h₂ hfat
    rw [Fat.diskStoreLarge, if_neg (hgo hsize (mounted_of_diskCreate hc)), hc]
    simp only [hfind, halloc, if_neg htail, hchain]
    refine ⟨trivial, ?_⟩
    rcases h₂.allocate halloc with ⟨h0, -⟩ | ⟨-, ha, -⟩
    · exact absurd h0 htail
    obtain ⟨hg, -, hfill⟩ := Safe.storeChain _ ha.safe ha.fresh (ha.spare trivial) ha.inRange ha.fresh.notDir
      ha.endOfChain_le hchain
    have htaken := (hfill (fileSectors_ne_nil data hsize.1)).taken
    have hone := ha.freeCount_eq
    refine .later hc hg.safe.layout ?_
    rw [← hfat]
    exact lt_of_lt_of_eq (Nat.lt_succ_of_le htaken) hone

theorem freeSlot_eq_none (h : freeSlot r = none) (hi : i < 16) : entry r i ≠ none := by
  have hlive := List.find?_eq_none.mp h i (mem_range.mpr hi)
  rw [Bool.not_eq_true, Bool.not_eq_false'] at hlive
  rw [← entry_isSome] at hlive
  exact isSome_iff_ne_none.mp hlive

/-- Where a file of the root was. -/
theorem Stopped.leaves_root_iff (h : Safe s D) (hn : 0 ∉ n) (hf : Found s D n 2 i e)
    (hstop : Stopped s n s') (hfull : freeCount s'.fat = freeCount s.fat) :
    LeavesAsBefore s s' n ↔ NoSlot s n ∨ EmptyAndFull s n := by
  have hroot := h.rootLevel_of_parentDir hf.parent
  have hleaf : leafOf n ≠ [] := by
    intro hnil
    have hp := hf.parent
    rw [Fat.parentDir, if_pos hnil] at hp
    simp at hp
  have hold : deleteOld s n = s.write (clusterLba s 2) (setDeleted (s.sector 2) i) := by
    rw [deleteOld, hf.findEntry h]
    simp only [h.layout.rootCluster]
  have hup := write_spec h.layout le_rfl (by decide) (setDeleted (s.sector 2) i)
  rw [← hold] at hup
  have hsector : (deleteOld s n).sector 2 = setDeleted (s.sector 2) i := by
    rw [hup.sector, update_self]
  obtain ⟨D₁, h₁, -⟩ := h.deleteOld n
  obtain ⟨D₂, h₂, -⟩ := h₁.diskCreate hn 0
  cases hstop with
  | slot _ hslot =>
    -- the deleted entry leaves a slot
    obtain ⟨-, d', hp, -, hnone⟩ := hslot
    obtain ⟨rfl, -⟩ := h₁.parentDir_rootLevel hroot hp
    rw [h₁.dirRead h₁.sound.root, hsector] at hnone
    refine absurd ?_ (freeSlot_eq_none hnone hf.holds.2.1)
    rw [entry_setDeleted, update_self]
  | @first hc r k hfind hzero =>
    have hcreation := h₁.creation n
    rw [hc] at hcreation h₂
    cases hcreation with
    | present _ hf₁ =>
      obtain ⟨rfl, -⟩ := h₁.parentDir_rootLevel hroot hf₁.parent
      exact absurd hf₁.name (h.deleteOld_rootLevel hroot hleaf hf₁.holds.2.1 hf₁.holds.2.2.1)
    | @new d' j _ hp _ _ hfree =>
      obtain ⟨rfl, -⟩ := h₁.parentDir_rootLevel hroot hp
      obtain ⟨hj, -⟩ := freeSlot_eq_some hfree
      have hup₂ := write_spec h₁.layout le_rfl (by decide)
        (newEntry ((deleteOld s n).sector 2) j (leafOf n) 0x20 0)
      have hdisk : ((deleteOld s n).write (clusterLba (deleteOld s n) 2)
          (newEntry ((deleteOld s n).sector 2) j (leafOf n) 0x20 0)).disk 4064 = s.disk 4064 := by
        rw [State.write, h₁.layout.toGeometry.clusterLba (by decide), hold, State.write,
          h.layout.toGeometry.clusterLba (by decide)]
        rfl
      generalize (deleteOld s n).write (clusterLba (deleteOld s n) 2)
        (newEntry ((deleteOld s n).sector 2) j (leafOf n) 0x20 0) = t at hfind h₂ hup₂ hdisk ⊢
      have hall := hup.trans hup₂
      rw [hsector, hup.fat, hup.sector, update_idem, hup.nextCluster, hup.freeClusters] at hall
      rw [hf.leaves_replaced_iff h hn hroot hj h₂ hall hdisk hfind]
      constructor
      · intro hempty
        refine .inr ⟨hroot, ?_, _, _, hf.findEntry h, hempty⟩
        rw [h.layout.toGeometry.freeEntries, hzero]
      · rintro (hslot | ⟨-, -, r', i', hfind', hempty⟩)
        · exact absurd hslot.findEntry (by rw [hf.findEntry h]; simp)
        · rw [hf.findEntry h] at hfind'
          cases hfind'
          exact hempty
  | later _ _ hless => omega

/-- Where the file was in another directory, the volume is not as before. -/
theorem Stopped.not_leaves_nested (h : Safe s D) (hf : Found s D n d i e) (hd2 : d ≠ 2)
    (hstop : Stopped s n s') (hfull : freeCount s'.fat = freeCount s.fat) : ¬LeavesAsBefore s s' n := by
  obtain ⟨D₁, h₁, -⟩ := h.deleteOld n
  cases hstop with
  | slot hs' hslot =>
    obtain ⟨-, d', hp, -⟩ := hslot
    exact hf.not_leaves_nested h hd2 hp (hs' ▸ h₁.layout) (by rw [hs'])
  | first hc _ _ =>
    have hcreation := h₁.creation n
    rw [hc] at hcreation
    cases hcreation with
    | present _ hf₁ => exact hf.not_leaves_nested h hd2 hf₁.parent h₁.layout rfl
    | @new d' j _ hp hd' _ _ =>
      have hup := write_spec h₁.layout (h₁.sound.dirs d' hd').1.1 (h₁.sound.dirs d' hd').1.2
        (newEntry ((deleteOld s n).sector d') j (leafOf n) 0x20 0)
      -- the path has a directory in it, so the new entry is not in the root
      have hne : (2 : ℕ) ≠ d' := by
        rintro rfl
        exact hd2 (h.parentDir_rootLevel (h₁.rootLevel_of_parentDir hp) hf.parent).1
      exact hf.not_leaves_nested h hd2 hp hup.layout (by rw [hup.sector, update_of_ne hne])
  | later _ _ hless => omega

/-- **`disk_store_large`** for want of a slot or a cluster. -/
theorem Safe.short_diskStoreLarge (h : Safe s D) (hcounted : s.Counted) (hn : 0 ∉ n) (hshort : LargeShort s n data size) :
    (Fat.diskStoreLarge s n data size).2 = false ∧
      (LeavesAsBefore s (Fat.diskStoreLarge s n data size).1 n ↔ NoSlot s n ∨ EmptyAndFull s n) := by
  obtain ⟨hfalse, hstop⟩ := h.stopped hcounted hn hshort
  refine ⟨hfalse, ?_⟩
  obtain ⟨D₁, h₁, -⟩ := h.deleteOld n
  obtain ⟨_, hup₁⟩ := h.deleteOld_updates n
  obtain ⟨_, hup₂, -⟩ := (h₁.creation n).updates h₁
  have hfat := hup₂.fat.trans hup₁.fat
  generalize (Fat.diskStoreLarge s n data size).1 = s' at hstop ⊢
  have hcreated : ∀ {s₂ : State}, Fat.diskCreate (Fat.deleteOld s n) n 0 = (s₂, true) → ¬NoSlot s n := by
    intro s₂ hc hslot
    rw [Fat.deleteOld, hslot.findEntry] at hc
    simp only [hslot.diskCreate] at hc
    simp at hc
  by_cases hsame : freeCount s'.fat = freeCount s.fat
  · rcases hfind : Fat.findEntry s n with _ | ⟨r, i⟩
    · have hold : Fat.deleteOld s n = s := by
        rw [Fat.deleteOld, hfind]
      have hempty : ¬EmptyAndFull s n := by
        rintro ⟨-, -, r, i, hsome, -⟩
        rw [hfind] at hsome
        simp at hsome
      cases hstop with
      | slot hs' hslot =>
        rw [hold] at hs' hslot
        rw [hs']
        exact ⟨fun _ => .inl hslot, fun _ => .refl s n⟩
      | first hc hfind' _ =>
        refine iff_of_false ?_ (not_or.mpr ⟨hcreated hc, hempty⟩)
        have hcreation := h.creation n
        rw [hold] at hc
        rw [hc] at hcreation
        cases hcreation with
        | present _ hf =>
          rw [hf.findEntry h] at hfind
          simp at hfind
        | @new d j _ hp hd hnone hfree =>
          have hup := write_spec h.layout (h.sound.dirs d hd).1.1 (h.sound.dirs d hd).1.2
            (newEntry (s.sector d) j (leafOf n) 0x20 0)
          obtain ⟨D₂, h₂, -⟩ := h.diskCreate hn 0
          rw [hc] at h₂
          obtain ⟨_, _, -, hf'⟩ := h₂.found hfind'
          exact h.not_leaves_new hn hp hnone (freeSlot_eq_some hfree).1 (first_ne_of_findSlot hf'.slot)
            hup.layout (by rw [hup.sector, update_self])
      | later _ _ hless => omega
    · obtain ⟨d, e, rfl, hf⟩ := h.found hfind
      by_cases hd2 : d = 2
      · subst hd2
        exact hstop.leaves_root_iff h hn hf hsame
      · refine iff_of_false (hstop.not_leaves_nested h hf hd2 hsame) ?_
        rintro (hslot | ⟨hroot, -⟩)
        · rw [hslot.findEntry] at hfind
          simp at hfind
        · exact hd2 (h.parentDir_rootLevel hroot hf.parent).1
  · -- clusters have been taken
    cases hstop with
    | slot hs' _ =>
      rw [hs', hup₁.fat] at hsame
      exact absurd rfl hsame
    | first hc _ _ =>
      rw [hc] at hfat
      rw [show s'.fat = s.fat from hfat] at hsame
      exact absurd rfl hsame
    | later hc hs' hless =>
      refine iff_of_false (fun hleaves => ?_) (not_or.mpr ⟨hcreated hc, ?_⟩)
      · have hfree := hleaves.free
        rw [hs'.toGeometry.freeEntries, h.layout.toGeometry.freeEntries] at hfree
        exact hsame hfree
      · rintro ⟨-, hzero, -⟩
        rw [h.layout.toGeometry.freeEntries] at hzero
        omega

/-! ### Along a run -/

/-- **When a call fails for want of a slot or of clusters, the volume is as before**
exactly if: for `disk_store`, the entry was there or there was no slot for it; for
`disk_store_large`, there was no slot, or the entry was that of an empty file of the root
and there was no cluster. This in every state of a run in which no `disk_store_large`
comes upon a directory. -/
theorem short_store_iff (s₀ : State) {calls : List KernelCall} (hzero : ∀ call ∈ calls, call.ZeroFree)
    (hspares : Runs.Throughout (fun before call => call.SparesDirectories (kernelRun s₀ before)) calls)
    {n : Path} (hn : 0 ∉ n) (data : ℕ → UInt8) (size : ℕ) :
    (StoreShort (kernelRun s₀ calls) n size →
      (diskStore (kernelRun s₀ calls) n data size).2 = false ∧
      (LeavesAsBefore (kernelRun s₀ calls) (diskStore (kernelRun s₀ calls) n data size).1 n ↔
        findEntry (kernelRun s₀ calls) n ≠ none ∨ NoSlot (kernelRun s₀ calls) n)) ∧
    (LargeShort (kernelRun s₀ calls) n data size →
      (diskStoreLarge (kernelRun s₀ calls) n data size).2 = false ∧
      (LeavesAsBefore (kernelRun s₀ calls) (diskStoreLarge (kernelRun s₀ calls) n data size).1 n ↔
        NoSlot (kernelRun s₀ calls) n ∨ EmptyAndFull (kernelRun s₀ calls) n)) := by
  obtain ⟨D, hsafe, hcounted⟩ := safe_kernelRun s₀ hzero hspares
  exact ⟨fun hshort => hsafe.short_diskStore hn hshort data,
    fun hshort => hsafe.short_diskStoreLarge hcounted hn hshort⟩

/-- Fifteen files, which with the label fill the root. -/
def fifteenFiles : List KernelCall :=
  (List.range 15).map fun k => .call (.create [UInt8.ofNat (66 + k)] 0)

/-- Another file does not fit into the root, and nothing changes. -/
theorem leaves_full_root :
    LeavesAsBefore (kernelRun (State.initial fun _ => zero) fifteenFiles)
      (diskStore (kernelRun (State.initial fun _ => zero) fifteenFiles) pathA (fun _ => 65) 1).1 pathA := by
  have hzero : ∀ call ∈ fifteenFiles, call.ZeroFree := by
    intro call hcall
    obtain ⟨k, hk, rfl⟩ := mem_map.mp hcall
    have hne : ∀ k < 15, (0 : UInt8) ∉ [UInt8.ofNat (66 + k)] := by decide
    exact hne k (mem_range.mp hk)
  have hspares : Runs.Throughout (fun before call =>
      call.SparesDirectories (kernelRun (State.initial fun _ => zero) before)) fifteenFiles := by
    intro before call after hsplit
    have hcall : call ∈ fifteenFiles := by rw [hsplit]; simp
    obtain ⟨k, -, rfl⟩ := mem_map.mp hcall
    exact trivial
  obtain ⟨D, hsafe, -⟩ := safe_kernelRun (State.initial fun _ => zero) hzero hspares
  have hslot : NoSlot (kernelRun (State.initial fun _ => zero) fifteenFiles) pathA := by
    refine ⟨?_, 2, hsafe.layout.toGeometry.parentDir_rootLevel (by decide) (by decide), ?_⟩
    · rw [kernelRun, diskFormat_eq]
      decide +kernel
    · rw [kernelRun, diskFormat_eq]
      decide +kernel
  exact (((short_store_iff (State.initial fun _ => zero) hzero hspares (by decide) (fun _ => 65) 1).1
    (.slot (by decide) hslot)).2).mpr (.inr hslot)

/-! ### A full volume -/

/-- The state after `disk_fill` has been asked for all clusters of a new volume. -/
def filledUp : State := kernelRun (State.initial fun _ => zero) [.fill 0xffffffff]

/-- `FILL.BIN` has taken all clusters; there is no file `A` in the root, and a slot for
it. -/
theorem filledUp_spec : ∃ D, Safe filledUp D ∧ filledUp.Counted ∧ freeCount filledUp.fat = 0 ∧
    filledUp.mounted = true ∧ findSlot (filledUp.sector 2) (leafOf pathA) = none ∧
    freeSlot (filledUp.sector 2) ≠ none := by
  have hsafe := safe_diskFormat (State.initial fun _ => zero)
  have hcounted := (diskFormat_inv (State.initial fun _ => zero)).counted
  have hroot := diskFormat_root (State.initial fun _ => zero)
  have hmounted : (diskFormat (State.initial fun _ => zero)).mounted = true := by rw [diskFormat_eq]
  have hrun : filledUp = KernelCall.exec (diskFormat (State.initial fun _ => zero)) (.fill 0xffffffff) := by
    rw [filledUp, kernelRun, foldl_cons, foldl_nil]
  rw [hrun]
  generalize diskFormat (State.initial fun _ => zero) = s at *
  obtain ⟨s', added, D', hres, hsafe', horderly, hfilling⟩ := hsafe.diskFill 0xffffffff
  rw [KernelCall.exec, hres]
  refine ⟨D', hsafe', horderly.counted hcounted, ?_⟩
  have hleaf : leafOf fillName ≠ [] := by decide
  have hp := hsafe.layout.toGeometry.parentDir_rootLevel rootLevel_fillName hleaf
  have hslot : findSlot newRoot (leafOf fillName) = none := by decide +kernel
  have hfree : freeSlot newRoot = some 1 := by decide +kernel
  have hnone : Fat.findEntry s fillName = none := hsafe.findEntry_eq_none hp (hroot ▸ hslot)
  have hup := write_spec hsafe.layout le_rfl (by decide) (newEntry newRoot 1 (leafOf fillName) 0x20 0)
  have hentry : fillEntry s = (s.write (clusterLba s 2) (newEntry newRoot 1 (leafOf fillName) 0x20 0),
      findEntry (s.write (clusterLba s 2) (newEntry newRoot 1 (leafOf fillName) 0x20 0)) fillName) := by
    have hcreate := hsafe.diskCreate_eq_new hmounted hp (hroot ▸ hslot) (hroot ▸ hfree)
    rw [hroot] at hcreate
    rw [fillEntry, hnone, hcreate]
  cases hfilling with
  | refused hrefused =>
    rcases hrefused with hm | h0
    · exact absurd hmounted hm
    · simp at h0
  | notFound hentry' =>
    rw [hentry] at hentry'
    exact absurd (Prod.mk.inj hentry').2
      (hsafe.layout.findEntry_new rootLevel_fillName hleaf (by decide) (by decide) (by decide) _)
  | filled hentry' hsame hfull hcount =>
    rw [hentry] at hentry'
    obtain ⟨rfl, -⟩ := Prod.mk.inj hentry'
    rw [hup.fat] at hcount
    rw [hup.sector, update_self] at hsame
    have hcard : freeCount s.fat ≤ 127006 := Counting.count_le_card.trans_eq (Nat.card_Ico 2 127008)
    refine ⟨hfull hcounted (by omega), horderly.mounted.trans hmounted, ?_, ?_⟩
    · rw [findSlot_eq_listing, hsame, ← findSlot_eq_listing]
      decide +kernel
    · rw [freeSlot_eq_listing, hsame, ← freeSlot_eq_listing]
      decide +kernel

/-- **On a full volume `disk_store` leaves an empty file behind.** After `disk_fill` has
taken all clusters, storing one byte under a new name fails for want of a cluster, and
the entry it has made stays. -/
theorem entry_left_behind : StoreShort filledUp pathA 1 ∧
    (diskStore filledUp pathA (fun _ => 65) 1).2 = false ∧
    ¬LeavesAsBefore filledUp (diskStore filledUp pathA (fun _ => 65) 1).1 pathA := by
  obtain ⟨D, hsafe, hcounted, hfull, hmounted, hnone, hfree⟩ := filledUp_spec
  generalize filledUp = s at *
  have hroot : RootLevel pathA := by decide
  have hleaf : leafOf pathA ≠ [] := by decide
  have hn : 0 ∉ pathA := by decide
  have he5 : (name83 (leafOf pathA)).getD 0 0 ≠ 0xe5 := by decide
  have hp := hsafe.layout.toGeometry.parentDir_rootLevel hroot hleaf
  obtain ⟨i, hi⟩ := ne_none_iff_exists'.mp hfree
  obtain ⟨hi16, -⟩ := freeSlot_eq_some hi
  have hcreate := hsafe.diskCreate_eq_new hmounted hp hnone hi
  obtain ⟨D₁, h₁, horderly⟩ := hsafe.diskCreate hn 0
  have hfound := hsafe.layout.findEntry_new hroot hleaf hn he5 hi16 (s.sector 2)
  have hup := write_spec hsafe.layout le_rfl (by decide) (newEntry (s.sector 2) i (leafOf pathA) 0x20 0)
  rw [hcreate] at h₁ horderly
  have hshort : StoreShort s pathA 1 := by
    obtain ⟨⟨r, k⟩, hfind⟩ := ne_none_iff_exists'.mp hfound
    obtain ⟨d', e', rfl, hf⟩ := h₁.found hfind
    obtain ⟨rfl, -⟩ := h₁.parentDir_rootLevel hroot hf.parent
    have hmade : entry ((s.write (clusterLba s 2) (newEntry (s.sector 2) i (leafOf pathA) 0x20 0)).sector 2)
        i = some (emptyFile pathA) := by
      rw [hup.sector, update_self, entry_newEntry _ i _ (by decide) (by decide), update_self, created, if_neg he5]
      rfl
    have hlisted : listing ((s.write (clusterLba s 2)
        (newEntry (s.sector 2) i (leafOf pathA) 0x20 0)).sector 2) i = some (emptyFile pathA) := by
      rw [listing, hmade]
      rfl
    obtain rfl : k = i := h₁.sound.unique 2 h₁.sound.root k hf.holds.2.1 i hi16 e' _ hf.holds.2.2.1
      hlisted hf.name
    obtain ⟨-, hdir, hcluster, -⟩ := entry_eq_some hmade
    exact .cluster (by decide) (by decide) hcreate hfind (hdir.trans (isDir_file _ _ _)) hcluster
      (h₁.allocate_of_full (by rw [hup.fat, hfull]))
  obtain ⟨hfalse, hiff⟩ := hsafe.short_diskStore hn hshort fun _ => 65
  refine ⟨hshort, hfalse, fun hleaves => ?_⟩
  rcases hiff.mp hleaves with hsome | hslot
  · exact hsome (hsafe.findEntry_eq_none hp hnone)
  · rw [hslot.diskCreate] at hcreate
    simp at hcreate

end OS64.Fat
