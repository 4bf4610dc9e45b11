import OS64.Fat.Orderly

/-!
# What the calls can come to

For a safe state, the ways a call can end and what it has done by then: creating a file
(`OS64.Fat.Creation`) or a directory (`OS64.Fat.DirectoryCreation`), removing
(`OS64.Fat.Removal`), storing a small file (`OS64.Fat.SmallStore`) and storing a large one
(`OS64.Fat.LargeStore`). Each is the control flow of the function, once, with what is known
on each way; what is said of these calls elsewhere goes by these cases. On each way the
state stays safe, and what happens is orderly (`OS64.Fat.Safe.call`), for
`disk_store_large` as long as it does not come upon a directory
(`OS64.Fat.fillsDirectory`).

`disk_store_large` looks its path up twice. The first time it deletes what it finds,
but in the copy of the directory that it then writes over the root. So the second
time the path starts from another root and can end elsewhere, at a directory too;
then the first cluster of the data becomes the cluster of that directory, and what is
in the data is read as entries. A name without directories before it is not affected
(`OS64.Fat.Safe.fillsDirectory_rootLevel`).
-/

namespace OS64.Fat

open Function Relation Option

variable {e : Entry} {r : Sector} {c d i size : ℕ}

variable {s s' : State} {D : Set ℕ} {g : Prop} {n : Path}

/-! ### Directories one gets to -/

/-- Reading a listed slot of a directory. -/
theorem Safe.holds_of_listed (h : Safe s D g) (hd : d ∈ D) (hi : Listed (Fat.dirRead s d) i) :
    ∃ e, s.graph.Holds D d i e ∧ entryIsDir (Fat.dirRead s d) i = e.isDir ∧
      entryCluster (Fat.dirRead s d) i = e.cluster := by
  rw [h.dirRead hd] at hi ⊢
  obtain ⟨hlt, hlive, hdot, hdotdot⟩ := hi
  obtain ⟨e, he⟩ := isSome_iff_exists.mp (entry_isSome.trans hlive)
  obtain ⟨hname, hdir, hcluster, -⟩ := entry_eq_some he
  refine ⟨e.unsized, ⟨hd, hlt, by rw [graph_dir, listing, he]; rfl, ?_⟩, hdir, hcluster⟩
  rintro (hn | hn)
  · exact hdot (hname.trans hn)
  · exact hdotdot (hname.trans hn)

/-- The directories one gets to are those of the volume that the root leads to. -/
theorem Safe.liveDir_iff (h : Safe s D g) : LiveDir s d ↔ d ∈ D ∧ ReflTransGen (s.graph.HasDir D) 2 d := by
  constructor
  · intro hd
    induction hd with
    | root =>
      rw [h.layout.rootCluster]
      exact ⟨h.sound.root, .refl⟩
    | @child d i _ hi hdir ih =>
      obtain ⟨hd, hreach⟩ := ih
      obtain ⟨e, hholds, hisDir, hcluster⟩ := h.holds_of_listed hd hi
      have hchild : s.graph.HasDir D d (entryCluster (Fat.dirRead s d) i) :=
        ⟨i, e, hholds, hisDir.symm.trans hdir, hcluster.symm⟩
      exact ⟨h.sound.mem_of_hasDir hchild, hreach.tail hchild⟩
  · rintro ⟨-, hreach⟩
    induction hreach with
    | refl =>
      rw [← h.layout.rootCluster]
      exact .root
    | @tail a b _ hab ih =>
      obtain ⟨i, e, ⟨ha, hi, hslot, hdots⟩, hdir, rfl⟩ := hab
      obtain ⟨hname, hisDir, hcluster, -⟩ := listing_eq_some hslot
      rw [← hcluster, ← h.dirRead ha]
      refine .child ih ⟨hi, ?_, ?_, ?_⟩ ?_
      · rw [h.dirRead ha, ← entry_isSome]
        obtain ⟨e', he', -⟩ := map_eq_some_iff.mp hslot
        rw [he']
        rfl
      · rw [h.dirRead ha, hname]
        exact fun hn => hdots (.inl hn)
      · rw [h.dirRead ha, hname]
        exact fun hn => hdots (.inr hn)
      · rw [h.dirRead ha]
        exact hisDir.trans hdir

/-! ### Finding -/

/-- The path leads to the entry `e`, in slot `i` of directory `d`. -/
structure Found (s : State) (D : Set ℕ) (n : Path) (d i : ℕ) (e : Entry) : Prop where
  parent : parentDir s n = some (d, leafOf n)
  slot : findSlot (s.sector d) (leafOf n) = some i
  holds : s.graph.Holds D d i e
  name : e.name = name83 (leafOf n)
  reach : ReflTransGen (s.graph.HasDir D) 2 d

theorem Safe.found (h : Safe s D g) (hfind : Fat.findEntry s n = some (r, i)) :
    ∃ d e, r = s.sector d ∧ Found s D n d i e := by
  rw [Fat.findEntry] at hfind
  split at hfind
  · simp at hfind
  rename_i d leaf hp
  obtain ⟨hd, rfl, hreach⟩ := h.parentDir hp
  rw [h.dirRead hd] at hfind
  split at hfind
  · simp at hfind
  rename_i slot hslot
  cases hfind
  obtain ⟨e, he, hname⟩ := holds_of_findSlot hd hslot
  exact ⟨d, e, rfl, hp, hslot, he, hname, hreach⟩

theorem Found.findEntry (h : Safe s D g) (hf : Found s D n d i e) : findEntry s n = some (s.sector d, i) := by
  rw [Fat.findEntry, hf.parent]
  simp only [h.dirRead hf.holds.1, hf.slot]

theorem Safe.findEntry_eq_none (h : Safe s D g) (hp : Fat.parentDir s n = some (d, leafOf n))
    (hnone : findSlot (s.sector d) (leafOf n) = none) : Fat.findEntry s n = none := by
  rw [Fat.findEntry, hp]
  simp only [h.dirRead (h.parentDir hp).1, hnone]

variable {leaf : Path} {res : State × Bool} {type : UInt8} {data : ℕ → UInt8}

/-- A name that starts with the mark of a deleted entry is never found. -/
theorem first_ne_of_findSlot (h : findSlot r leaf = some i) : (name83 leaf).getD 0 0 ≠ 0xe5 := by
  obtain ⟨-, e, he, hname⟩ := findSlot_eq_some h
  have hlive : entryLive r i = true := by
    rw [← entry_isSome, he]
    rfl
  have hfirst : (entryName r i).getD 0 0 = entryFirst r i := by
    simp [entryName, ByteMem.bytes, entryFirst]
  rw [← hname, ← (entry_eq_some he).1, hfirst]
  exact (of_decide_eq_true hlive).2

/-! ### Creating a file -/

/-- How `disk_create` for a file ends. -/
inductive Creation (s : State) (D : Set ℕ) (n : Path) : State × Bool → Prop
  /-- The volume is not mounted, or the path does not lead to a directory. -/
  | refused (h : ¬s.mounted ∨ parentDir s n = none) : Creation s D n (s, false)
  /-- The directory has no slot left. -/
  | full {d : ℕ} (hm : s.mounted) (hp : parentDir s n = some (d, leafOf n)) (hd : d ∈ D)
      (hnone : findSlot (s.sector d) (leafOf n) = none) (hfull : freeSlot (s.sector d) = none) :
      Creation s D n (s, false)
  /-- The entry is there. -/
  | present {d i : ℕ} {e : Entry} (hm : s.mounted) (hf : Found s D n d i e) : Creation s D n (s, true)
  /-- There is a new entry. -/
  | new {d i : ℕ} (hm : s.mounted) (hp : parentDir s n = some (d, leafOf n)) (hd : d ∈ D)
      (hnone : findSlot (s.sector d) (leafOf n) = none) (hfree : freeSlot (s.sector d) = some i) :
      Creation s D n (s.write (clusterLba s d) (newEntry (s.sector d) i (leafOf n) 0x20 0), true)

theorem Safe.creation (h : Safe s D g) (n : Path) : Creation s D n (Fat.diskCreate s n 0) := by
  rw [Fat.diskCreate]
  by_cases hm : s.mounted = true
  case neg =>
    rw [if_pos hm]
    exact .refused (.inl hm)
  rw [if_neg (not_not.mpr hm)]
  rcases hp : Fat.parentDir s n with _ | ⟨d, leaf⟩
  · exact .refused (.inr hp)
  obtain ⟨hd, rfl, hreach⟩ := h.parentDir hp
  simp only [h.dirRead hd]
  rcases hfind : Fat.findSlot (s.sector d) (leafOf n) with _ | i
  · rcases hfree : freeSlot (s.sector d) with _ | i
    · exact .full hm hp hd hfind hfree
    · simp only [reduceIte]
      exact .new hm hp hd hfind hfree
  · obtain ⟨e, he, hname⟩ := holds_of_findSlot hd hfind
    exact .present hm ⟨hp, hfind, he, hname, hreach⟩

/-- Where there is a slot, the entry is made. -/
theorem Safe.diskCreate_eq_new (h : Safe s D g) (hm : s.mounted = true)
    (hp : Fat.parentDir s n = some (d, leafOf n)) (hnone : findSlot (s.sector d) (leafOf n) = none)
    (hfree : freeSlot (s.sector d) = some i) : Fat.diskCreate s n 0 =
      (s.write (clusterLba s d) (newEntry (s.sector d) i (leafOf n) 0x20 0), true) := by
  rw [Fat.diskCreate, if_neg (not_not.mpr hm), hp]
  simp only [h.dirRead (h.parentDir hp).1, hnone, hfree, reduceIte]

/-- Creating a file leaves the table, hint and count alone, and writes a directory at
most. -/
theorem Creation.updates (hc : Creation s D n res) (h : Safe s D g) :
    ∃ sector, Updates s res.1 s.fat sector s.nextCluster s.freeClusters ∧ ∀ c ∉ D, sector c = s.sector c := by
  have hsame : ∃ sector, Updates s s s.fat sector s.nextCluster s.freeClusters ∧ ∀ c ∉ D, sector c = s.sector c :=
    ⟨s.sector, .refl h.layout, fun _ _ => rfl⟩
  cases hc with
  | refused _ => exact hsame
  | full _ _ _ _ _ => exact hsame
  | present _ _ => exact hsame
  | @new d i _ _ hd _ _ =>
    obtain ⟨hrange, -⟩ := h.sound.dirs d hd
    refine ⟨_, write_spec h.layout hrange.1 hrange.2 _, fun c hc => ?_⟩
    refine update_of_ne ?_ _ _
    rintro rfl
    exact hc hd

theorem Creation.kept (hc : Creation s D n res) (h : Safe s D g) (hn : 0 ∉ n) : Safe res.1 D g ∧ Orderly s res.1 := by
  cases hc with
  | refused _ => exact ⟨h, .refl s⟩
  | full _ _ _ _ _ => exact ⟨h, .refl s⟩
  | present _ _ => exact ⟨h, .refl s⟩
  | new _ _ hd hnone _ => exact h.newFile hd (fun h0 => hn (leafOf_subset n h0)) hnone _

/-! ### Creating a directory -/

/-- `disk_create` has made a directory in slot `i` of `d`, with cluster `c`. -/
structure NewDirectory (s : State) (D : Set ℕ) (n : Path) (s' : State) (d i c : ℕ)
    (g : Prop := True) : Prop where
  parent : parentDir s n = some (d, leafOf n)
  absent : findSlot (s.sector d) (leafOf n) = none
  slot : freeSlot (s.sector d) = some i
  allocated : (allocate s).2 = c
  updates : ∃ s₁ dotdot, Obtained s D s₁ c g ∧ dotdot < 2 ^ 32 ∧ Updates s₁ s' s₁.fat
    (update (update s₁.sector c (newDirectory c dotdot)) d
      (newEntry (s.sector d) i (leafOf n) 0x10 c)) s₁.nextCluster s₁.freeClusters
  kept : 0 ∉ n → ∃ D', Safe s' D' g ∧ Orderly s s'

/-- **`disk_create` for a directory** makes one, or changes nothing; then the entry is
there if it says so. -/
theorem Safe.diskCreate_directory (h : Safe s D g) (n : Path) (ht : type ≠ 0) :
    (∃ ok, Fat.diskCreate s n type = (s, ok) ∧ (ok = true → Fat.findEntry s n ≠ none)) ∨
    ∃ s' d i c, Fat.diskCreate s n type = (s', true) ∧ NewDirectory s D n s' d i c g := by
  have hfalse : ∃ ok, (s, false) = (s, ok) ∧ (ok = true → Fat.findEntry s n ≠ none) :=
    ⟨false, rfl, fun h => absurd h (by decide)⟩
  rw [Fat.diskCreate]
  split
  · exact .inl hfalse
  rcases hp : Fat.parentDir s n with _ | ⟨d, leaf⟩
  · exact .inl hfalse
  obtain ⟨hd, rfl, -⟩ := h.parentDir hp
  obtain ⟨hdrange, -⟩ := h.sound.dirs d hd
  simp only [h.dirRead hd]
  rcases hslot : Fat.findSlot (s.sector d) (leafOf n) with _ | slot
  case some =>
    refine .inl ⟨true, rfl, fun _ hfind => ?_⟩
    rw [Fat.findEntry, hp] at hfind
    simp [h.dirRead hd, hslot] at hfind
  rcases hfree : freeSlot (s.sector d) with _ | i
  · exact .inl hfalse
  rcases halloc : Fat.allocate s with ⟨s₁, c⟩
  simp only
  rcases h.allocate halloc with ⟨rfl, rfl⟩ | ⟨hc, ha, horderly⟩
  · exact .inl hfalse
  rw [if_neg hc]
  have hdotdot : (if d = s₁.rootCluster then 0 else d) < 2 ^ 32 := by
    have := hdrange.2
    split <;> omega
  generalize (if d = s₁.rootCluster then 0 else d) = dotdot at hdotdot ⊢
  have hnew := write_spec ha.safe.layout ha.inRange.1 ha.inRange.2 (newDirectory c dotdot)
  have hup := write_spec hnew.layout hdrange.1 hdrange.2 (newEntry (s.sector d) i (leafOf n) 0x10 c)
  rw [hnew.fat, hnew.sector, hnew.nextCluster, hnew.freeClusters] at hup
  refine .inr ⟨_, d, i, c, rfl, hp, hslot, hfree, by rw [halloc],
    ⟨s₁, dotdot, ha, hdotdot, hnew.trans hup⟩, fun hn => ?_⟩
  obtain ⟨D', hsafe, horderly'⟩ := ha.makeDirectory (i := i) (fun h0 => hn (leafOf_subset n h0)) hd
    (fun j hj e he => listing_of_findSlot_none hslot hj he) hdotdot rfl
  exact ⟨D', hsafe, horderly.trans horderly'⟩

/-- How `disk_create` for a directory ends. -/
inductive DirectoryCreation (g : Prop) (s : State) (D : Set ℕ) (n : Path) : State × Bool → Prop
  /-- It is there, or cannot be made. -/
  | unchanged (ok : Bool) : DirectoryCreation g s D n (s, ok)
  /-- There is a new directory. -/
  | new {d i c dotdot : ℕ} {s₁ s' : State} (hp : parentDir s n = some (d, leafOf n))
      (ha : Obtained s D s₁ c g) (hdotdot : dotdot < 2 ^ 32)
      (hup : Updates s₁ s' s₁.fat (update (update s₁.sector c
        (newDirectory c dotdot)) d (newEntry (s.sector d) i (leafOf n) 0x10 c)) s₁.nextCluster
        s₁.freeClusters) : DirectoryCreation g s D n (s', true)

theorem Safe.directoryCreation (h : Safe s D g) (n : Path) (ht : type ≠ 0) :
    DirectoryCreation g s D n (Fat.diskCreate s n type) := by
  rcases h.diskCreate_directory n ht with ⟨ok, hres, -⟩ | ⟨s', d, i, c, hres, hnew⟩
  · rw [hres]
    exact .unchanged ok
  · obtain ⟨s₁, dotdot, ha, hdotdot, hup⟩ := hnew.updates
    rw [hres]
    exact .new hnew.parent ha hdotdot hup

/-- **`disk_create`** is orderly, for files and directories. -/
theorem Safe.diskCreate (h : Safe s D g) (hn : 0 ∉ n) (type : UInt8) :
    ∃ D', Safe (diskCreate s n type).1 D' g ∧ Orderly s (diskCreate s n type).1 := by
  by_cases ht : type = 0
  · rw [ht]
    exact ⟨D, (h.creation n).kept h hn⟩
  · rcases h.diskCreate_directory n ht with ⟨ok, hres, -⟩ | ⟨s', d, i, c, hres, hnew⟩
    · rw [hres]
      exact ⟨D, h, .refl s⟩
    · rw [hres]
      exact hnew.kept hn

/-! ### Removing -/

/-- How `disk_remove` ends. -/
inductive Removal (s : State) (D : Set ℕ) (n : Path) : State × Bool → Prop
  /-- There is no such entry. -/
  | refused : Removal s D n (s, false)
  /-- The entry is deleted, and its cluster, if it has one, is free. -/
  | removed {d i : ℕ} {e : Entry} {s' : State} (hf : Found s D n d i e)
      (hup : Updates s s' (if e.cluster = 0 then s.fat else update s.fat e.cluster 0)
        (update s.sector d (setDeleted (s.sector d) i))
        (if e.cluster ≠ 0 ∧ e.cluster < s.nextCluster then e.cluster else s.nextCluster)
        (if e.cluster = 0 then s.freeClusters else s.freeClusters + 1)) : Removal s D n (s', true)

theorem Safe.removal (h : Safe s D g) (n : Path) : Removal s D n (Fat.diskRemove s n) := by
  rw [Fat.diskRemove]
  split
  · exact .refused
  rcases hp : Fat.parentDir s n with _ | ⟨d, leaf⟩
  · exact .refused
  obtain ⟨hd, rfl, hreach⟩ := h.parentDir hp
  obtain ⟨hdrange, -⟩ := h.sound.dirs d hd
  simp only [h.dirRead hd]
  rcases hfind : Fat.findSlot (s.sector d) (leafOf n) with _ | i
  · exact .refused
  obtain ⟨e, he, hname⟩ := holds_of_findSlot hd hfind
  obtain ⟨-, -, hcluster, -⟩ := listing_eq_some he.2.2.1
  have hf : Found s D n d i e := ⟨hp, hfind, he, hname, hreach⟩
  simp only [hcluster]
  by_cases h0 : e.cluster = 0
  · rw [if_neg (not_not.mpr h0)]
    refine .removed hf ?_
    rw [if_pos h0, if_neg (fun hand => hand.1 h0), if_pos h0]
    exact write_spec h.layout hdrange.1 hdrange.2 _
  · obtain ⟨hrange, -⟩ := h.sound.heads d i e he h0
    have hset := fatSet_spec h.layout hrange.2 (show 0 < 2 ^ 32 by decide)
    rw [if_pos h0]
    refine .removed hf ?_
    rw [if_neg h0, if_neg h0, hset.nextCluster, hset.freeClusters]
    have hinfo := fsinfoUpdate_spec hset.layout (if e.cluster < s.nextCluster then e.cluster
      else s.nextCluster) (s.freeClusters + 1)
    have hup := write_spec hinfo.layout hdrange.1 hdrange.2 (setDeleted (s.sector d) i)
    rw [hinfo.fat, hset.fat, hinfo.sector, hset.sector, hinfo.nextCluster, hinfo.freeClusters] at hup
    simp only [ne_eq, h0, not_false_eq_true, true_and]
    exact (hset.trans hinfo).trans hup

/-- **`disk_remove`** is orderly. -/
theorem Safe.diskRemove (h : Safe s D g) (n : Path) :
    ∃ D', Safe (diskRemove s n).1 D' g ∧ Orderly s (diskRemove s n).1 := by
  have hout := h.removal n
  generalize Fat.diskRemove s n = res at hout ⊢
  cases hout with
  | refused => exact ⟨D, h, .refl s⟩
  | @removed d i e s' hf hup =>
    have hlisting : (fun a => listing (update s.sector d (setDeleted (s.sector d) i) a)) =
        (s.graph.setSlot d i none).dir := by
      rw [listing_sector_update, listing_setDeleted]
      rfl
    by_cases h0 : e.cluster = 0
    · rw [if_pos h0, if_neg (fun hand => hand.1 h0), if_pos h0] at hup
      refine ⟨D, h.of_updates hup ?_, hup.orderly id⟩
      rw [hlisting]
      exact h.guarded.setSlot d i fun e' he' => absurd he' (by simp)
    · obtain ⟨hrange, hroot, hused, -⟩ := h.sound.heads d i e hf.holds h0
      have hge := h.next_ge
      have hle := h.next_le
      simp only [ne_eq, h0, not_false_eq_true, true_and, if_false] at hup
      refine ⟨D \ {e.cluster}, ⟨hup.layout, ?_, ?_, ?_⟩, hup.orderly fun hcounted =>
        hcounted.release hrange hused⟩
      · rw [hup.graph, hlisting]
        exact h.guarded.remove hf.holds h0
      · rw [hup.nextCluster]
        have := hrange.1
        split <;> omega
      · rw [hup.nextCluster]
        have := hrange.2
        split <;> omega

/-! ### Storing a small file -/

/-- The entry with another cluster and another size. -/
def Entry.resized (c size : ℕ) (e : Entry) : Entry := { e with cluster := c, size := size % 2 ^ 32 }

theorem entry_resized (r : Sector) (i size : ℕ) (hc : c < 2 ^ 32) :
    entry (setSize (setCluster r i c) i size) = update (entry r) i ((entry r i).map (Entry.resized c size)) := by
  rw [entry_setSize_mod, entry_setCluster r i hc, update_idem, update_self, Option.map_map]
  rfl

/-- A file that is found is still one with another size. -/
theorem Found.resized (hf : Found s D n d i e) (hfile : e.isDir = false)
    {e' : Entry} (he' : (entry (s.sector d) i).map (Entry.resized c size) = some e') :
    ¬e'.IsDots ∧ e'.isDir = false ∧ e'.cluster = c ∧ e'.size ≤ size := by
  obtain ⟨e₀, hslot, rfl⟩ := map_eq_some_iff.mp hf.holds.2.2.1
  rw [hslot] at he'
  cases he'
  exact ⟨hf.holds.2.2.2, hfile, rfl, Nat.mod_le _ _⟩

/-- The file `e` in slot `i` of directory `d` has been given its own cluster or a free one, and
the data has been written there if there is any. -/
structure Rewritten (s : State) (D : Set ℕ) (s' : State) (d i c : ℕ) (e : Entry) (data : ℕ → UInt8)
    (size : ℕ) : Prop where
  layout : Layout s'
  slot : entry (s'.sector d) =
    update (entry (s.sector d)) i ((entry (s.sector d) i).map (Entry.resized c size))
  other : ∀ a ≠ d, a ≠ c → s'.sector a = s.sector a
  fat : ∀ a, s.fat a ≠ 0 → s'.fat a = s.fat a
  notDir : c ∉ D
  owned : c = e.cluster ∨ s.fat c = 0
  data : size ≠ 0 → InRange c ∧ s'.sector c = fileSector data size
  mounted : s'.mounted = s.mounted

/-- How `disk_store` ends. -/
inductive SmallStore (g : Prop) (s : State) (D : Set ℕ) (n : Path) (data : ℕ → UInt8) (size : ℕ) :
    State × Bool → Prop
  /-- The size is out of bounds. -/
  | refused (h : size > 512) : SmallStore g s D n data size (s, false)
  /-- The entry cannot be made, is not found or is one of a directory, or there is no
  cluster for the file. -/
  | stopped {s₁ : State} {ok : Bool} (hc : diskCreate s n 0 = (s₁, ok)) :
      SmallStore g s D n data size (s₁, false)
  /-- The file is stored. -/
  | written {s₁ s' : State} {d i c : ℕ} {e : Entry} (hsize : size ≤ 512)
      (hc : diskCreate s n 0 = (s₁, true)) (h₁ : Safe s₁ D g) (hf : Found s₁ D n d i e)
      (hfile : e.isDir = false) (hw : Rewritten s₁ D s' d i c e data size) (hsafe : Safe s' D g)
      (ho : Orderly s₁ s') : SmallStore g s D n data size (s', true)

/-- Writing the data, if there is any, and then the directory. -/
theorem storeIn_updates (h : Layout s) {slot : ℕ} (hd : InRange d) (hc : size ≠ 0 → InRange c) :
    Updates s (storeIn s d r slot c data size) s.fat (update (if size ≠ 0 then
      update s.sector c (fileSector data size) else s.sector) d (setSize r slot size))
      s.nextCluster s.freeClusters := by
  rw [storeIn]
  by_cases h0 : size = 0
  · rw [if_neg (not_not.mpr h0), if_neg (not_not.mpr h0)]
    exact write_spec h hd.1 hd.2 _
  · rw [if_pos h0, if_pos h0]
    have hdata := write_spec h (hc h0).1 (hc h0).2 (fileSector data size)
    have hdir := write_spec hdata.layout hd.1 hd.2 (setSize r slot size)
    rw [hdata.fat, hdata.sector, hdata.nextCluster, hdata.freeClusters] at hdir
    exact hdata.trans hdir

theorem Safe.storesIn (h : Safe s D g) (slot size : ℕ) (data : ℕ → UInt8) (hd : d ∈ D)
    (hc : size ≠ 0 → InRange c) (hcD : c ∉ D) (hg : Guarded (s.graph.setDir d (listing r)) D g) :
    Safe (storeIn s d r slot c data size) D g ∧ Orderly s (storeIn s d r slot c data size) := by
  have hup : Updates s (storeIn s d r slot c data size) _ _ _ _ := storeIn_updates h.layout (h.sound.dirs d hd).1 hc
  refine ⟨h.of_updates hup ?_, hup.orderly id⟩
  rw [listing_sector_update, listing_setSize]
  by_cases h0 : size = 0
  · rw [if_neg (not_not.mpr h0)]
    exact hg
  · have hcd : c ≠ d := by
      rintro rfl
      exact hcD hd
    rw [if_pos h0, listing_sector_update, update_comm hcd]
    exact hg.setDir hcD _

/-- What the end of `disk_store` has done, from the state `s₁` before a cluster was taken. -/
theorem Updates.rewritten {s₁ s₂ : State} {next free : ℕ} (hup : Updates s₂ s' s₂.fat (update (if size ≠ 0 then
      update s₂.sector c (fileSector data size) else s₂.sector) d r) next free)
    (hd : d ∈ D) (hc : c ∉ D)
    (hr : entry r = update (entry (s₁.sector d)) i
      ((entry (s₁.sector d) i).map (Entry.resized c size)))
    (hsector : ∀ a ≠ c, s₂.sector a = s₁.sector a) (hfat : ∀ a, s₁.fat a ≠ 0 → s₂.fat a = s₁.fat a)
    (howned : c = e.cluster ∨ s₁.fat c = 0) (hrange : size ≠ 0 → InRange c)
    (hmounted : s₂.mounted = s₁.mounted) : Rewritten s₁ D s' d i c e data size := by
  have hcd : c ≠ d := by
    rintro rfl
    exact hc hd
  refine ⟨hup.layout, ?_, fun a had hac => ?_, fun a hused => ?_, hc, howned, fun h0 => ⟨hrange h0, ?_⟩,
    hup.mounted.trans hmounted⟩
  · rw [hup.sector, update_self, hr]
  · rw [hup.sector, update_of_ne had, ← hsector a hac]
    split
    · exact update_of_ne hac _ _
    · rfl
  · rw [hup.fat, hfat a hused]
  · rw [hup.sector, update_of_ne hcd, if_pos h0, update_self]

theorem Safe.smallStore (h : Safe s D g) (hn : 0 ∉ n) (data : ℕ → UInt8) (size : ℕ) :
    SmallStore g s D n data size (Fat.diskStore s n data size) := by
  rw [Fat.diskStore]
  split
  · rename_i hsize
    exact .refused hsize
  rename_i hsize
  have hout := h.creation n
  rcases hc : Fat.diskCreate s n 0 with ⟨s₁, created⟩
  rw [hc] at hout
  have h₁ : Safe s₁ D g := (hout.kept h hn).1
  cases created with
  | false => exact .stopped hc
  | true =>
    simp only
    rcases hp : Fat.parentDir s₁ n with _ | ⟨d, leaf⟩
    · exact .stopped hc
    obtain ⟨hd, rfl, hreach⟩ := h₁.parentDir hp
    have hdrange := (h₁.sound.dirs d hd).1
    simp only [h₁.dirRead hd]
    rcases hfind : Fat.findSlot (s₁.sector d) (leafOf n) with _ | i
    · exact .stopped hc
    obtain ⟨e, he, hname⟩ := holds_of_findSlot hd hfind
    have hf : Found s₁ D n d i e := ⟨hp, hfind, he, hname, hreach⟩
    obtain ⟨-, hisDir, hcluster, -⟩ := listing_eq_some he.2.2.1
    simp only [hisDir, hcluster]
    split
    · exact .stopped hc
    rename_i hdir
    rw [Bool.not_eq_true] at hdir
    by_cases hnew : size ≠ 0 ∧ e.cluster = 0
    · -- the file gets its cluster now
      rw [if_pos hnew]
      rcases halloc : Fat.allocate s₁ with ⟨s₂, c⟩
      simp only
      rcases h₁.allocate halloc with ⟨rfl, rfl⟩ | ⟨hc0, ha, horderly⟩
      · exact .stopped hc
      rw [if_neg hc0]
      have hup : Updates s₂ (storeIn s₂ d (setCluster (s₁.sector d) i c) i c data size) _ _ _ _ :=
        storeIn_updates ha.safe.layout hdrange fun _ => ha.inRange
      have hslot : s₂.graph.Holds D d i e := ⟨hd, he.2.1, by rw [graph_dir, ha.sector_eq hd]; exact he.2.2.1, he.2.2.2⟩
      have hlisting : listing (setCluster (s₁.sector d) i c) =
          update (listing (s₂.sector d)) i (some { e with cluster := c }) := by
        rw [listing_setCluster _ i ha.inRange.lt_word, ha.sector_eq hd, show listing (s₁.sector d) i = some e
          from he.2.2.1]
        rfl
      obtain ⟨hsafe, ho⟩ := ha.safe.storesIn i size data hd
        (fun _ => ha.inRange) ha.fresh.notDir (ha.safe.guarded_slot hlisting fun e' he' => by
          rw [← some.inj he']
          exact ⟨fits_fresh ha.safe.sound hslot hdir ha.fresh e.size, ha.spare⟩)
      refine .written (by omega) hc h₁ hf hdir (hup.rewritten hd ha.fresh.notDir
        (entry_resized _ i size ha.inRange.lt_word) (fun a hac => ?_)
        (fun a hused => (ha.undisturbed ∅ a (Set.notMem_empty a) hused).1) (.inr ha.free)
        (fun _ => ha.inRange) horderly.mounted) hsafe (horderly.trans ho)
      rw [ha.sector, update_of_ne hac]
    · rw [if_neg hnew]
      have hne : size ≠ 0 → e.cluster ≠ 0 := fun h0 hz => hnew ⟨h0, hz⟩
      have hrange : size ≠ 0 → InRange e.cluster := fun h0 => (h₁.sound.heads d i e he (hne h0)).1
      have hslot : entry (setSize (s₁.sector d) i size) = update (entry (s₁.sector d)) i
          ((entry (s₁.sector d) i).map (Entry.resized e.cluster size)) := by
        obtain ⟨e₀, he₀, rfl⟩ := map_eq_some_iff.mp he.2.2.1
        rw [entry_setSize_mod, he₀]
        rfl
      have hnotDir : e.cluster ∉ D := by
        by_cases h0 : e.cluster = 0
        · rw [h0]
          exact fun hmem => absurd (h₁.sound.dirs 0 hmem).1.1 (by decide)
        · exact h₁.sound.file_notMem he hdir h0
      obtain ⟨hsafe, ho⟩ := h₁.storesIn i size data hd hrange hnotDir (h₁.guarded_sizes rfl)
      exact .written (by omega) hc h₁ hf hdir ((storeIn_updates h₁.layout hdrange hrange).rewritten hd
        hnotDir hslot (fun _ _ => rfl) (fun _ _ => rfl) (.inl rfl) hrange rfl) hsafe ho

/-- **`disk_store`** is orderly. -/
theorem Safe.diskStore (h : Safe s D g) (hn : 0 ∉ n) (data : ℕ → UInt8) (size : ℕ) :
    ∃ D', Safe (diskStore s n data size).1 D' g ∧ Orderly s (diskStore s n data size).1 := by
  obtain ⟨D₁, h₁, horderly⟩ := h.diskCreate hn 0
  have hout := h.smallStore hn data size
  generalize Fat.diskStore s n data size = res at hout ⊢
  cases hout with
  | refused _ => exact ⟨D, h, .refl s⟩
  | stopped hc =>
    rw [hc] at h₁ horderly
    exact ⟨D₁, h₁, horderly⟩
  | written _ hc _ _ _ _ hsafe ho =>
    rw [hc] at horderly
    exact ⟨D, hsafe, horderly.trans ho⟩

/-! ### Storing a large file -/

/-- The first step of `disk_store_large` makes the root a copy of the directory. -/
theorem Safe.deleteOld (h : Safe s D) (n : Path) : ∃ D', Safe (deleteOld s n) D' ∧ Orderly s (deleteOld s n) := by
  rw [Fat.deleteOld]
  rcases hfind : Fat.findEntry s n with _ | ⟨r, i⟩
  · exact ⟨D, h, .refl s⟩
  · obtain ⟨d, e, rfl, hf⟩ := h.found hfind
    simp only [h.layout.rootCluster]
    exact h.writeRoot hf.holds.1 hf.reach (listing_setDeleted (s.sector d) i) fun e' he' => absurd he' (by simp)

/-- How `disk_store_large` ends. -/
inductive LargeStore (s : State) (n : Path) (data : ℕ → UInt8) (size : ℕ) : State × Bool → Prop
  /-- The volume is not mounted, or the size is out of bounds. -/
  | refused (h : ¬s.mounted ∨ size = 0 ∨ size > homeSectors * 512) : LargeStore s n data size (s, false)
  /-- The entry cannot be made. -/
  | notCreated {s₂ : State} (hc : diskCreate (deleteOld s n) n 0 = (s₂, false)) :
      LargeStore s n data size (s₂, false)
  /-- The entry just made is not found. -/
  | notFound {s₂ : State} (hc : diskCreate (deleteOld s n) n 0 = (s₂, true))
      (hfind : findEntry s₂ n = none) : LargeStore s n data size (s₂, false)
  /-- There is no cluster at all. -/
  | noCluster {D₂ : Set ℕ} {s₂ : State} {d i : ℕ} {e : Entry}
      (hc : diskCreate (deleteOld s n) n 0 = (s₂, true)) (h₂ : Safe s₂ D₂) (hf : Found s₂ D₂ n d i e)
      (halloc : (allocate s₂).2 = 0) (ho : Orderly s s₂) : LargeStore s n data size (s₂, false)
  /-- There are too few clusters. -/
  | broken {D₂ : Set ℕ} {s₂ s₃ s₄ : State} {d i tail : ℕ} {e : Entry}
      (hc : diskCreate (deleteOld s n) n 0 = (s₂, true)) (h₂ : Safe s₂ D₂) (hf : Found s₂ D₂ n d i e)
      (ha : Obtained s₂ D₂ s₃ tail) (hg : Grown s₃ D₂ tail s₄)
      (hfill : Filled s₃ s₄ tail (fileSectors data size) false) (ho₃ : Orderly s s₃)
      (ho₄ : Orderly s₃ s₄) : LargeStore s n data size (s₄, false)
  /-- The file is stored, and its directory is written over the root. -/
  | stored {D₂ : Set ℕ} {s₂ s₃ s₄ : State} {d i tail : ℕ} {e : Entry}
      (hc : diskCreate (deleteOld s n) n 0 = (s₂, true)) (h₂ : Safe s₂ D₂) (hf : Found s₂ D₂ n d i e)
      (ha : Obtained s₂ D₂ s₃ tail) (hg : Grown s₃ D₂ tail s₄)
      (hfill : Filled s₃ s₄ tail (fileSectors data size) true) (ho : Orderly s s₄) :
      LargeStore s n data size (s₄.write (clusterLba s₄ 2) (setSize (setCluster (s₂.sector d) i tail) i size), true)

theorem fileSectors_ne_nil (data : ℕ → UInt8) (h : size ≠ 0) : fileSectors data size ≠ [] := by
  intro hnil
  have hlen := congrArg List.length hnil
  rw [fileSectors, List.length_map, List.length_range, List.length_nil] at hlen
  omega

theorem Safe.largeStore (h : Safe s D) (hn : 0 ∉ n) (data : ℕ → UInt8) (size : ℕ) :
    LargeStore s n data size (Fat.diskStoreLarge s n data size) := by
  rw [Fat.diskStoreLarge]
  split
  · rename_i hrefused
    exact .refused hrefused
  rename_i hsize
  obtain ⟨D₁, h₁, horderly₁⟩ := h.deleteOld n
  obtain ⟨D₂, h₂, horderly₂⟩ := h₁.diskCreate hn 0
  rcases hc : Fat.diskCreate (Fat.deleteOld s n) n 0 with ⟨s₂, created⟩
  rw [hc] at h₂ horderly₂
  cases created with
  | false => exact .notCreated hc
  | true =>
    simp only
    rcases hfind : Fat.findEntry s₂ n with _ | ⟨r, i⟩
    · exact .notFound hc hfind
    obtain ⟨d, e, rfl, hf⟩ := h₂.found hfind
    rcases halloc : Fat.allocate s₂ with ⟨s₃, tail⟩
    simp only
    have ho := horderly₁.trans horderly₂
    rcases h₂.allocate halloc with ⟨rfl, rfl⟩ | ⟨htail, ha, horderly₃⟩
    · exact .noCluster hc h₂ hf (by rw [halloc]) ho
    rw [if_neg htail]
    rcases hchain : Fat.storeChain s₃ tail (fileSectors data size) with ⟨s₄, ended⟩
    obtain ⟨hg, horderly₄, hfill⟩ := Safe.storeChain _ ha.safe ha.fresh (ha.spare trivial) ha.inRange ha.fresh.notDir
      ha.endOfChain_le hchain
    have hne : fileSectors data size ≠ [] := fileSectors_ne_nil data fun h0 => hsize (.inr (.inl h0))
    cases ended with
    | false => exact .broken hc h₂ hf ha hg (hfill hne) (ho.trans horderly₃) horderly₄
    | true =>
      simp only [hg.safe.layout.rootCluster]
      exact .stored hc h₂ hf ha hg (hfill hne) ((ho.trans horderly₃).trans horderly₄)

/-- The entry that `disk_store_large` fills in, if it comes to that, is one of a
directory. -/
def fillsDirectory (s : State) (n : Path) : Bool :=
  match diskCreate (deleteOld s n) n 0 with
  | (_, false) => false
  | (s, true) => match findEntry s n with
    | none => false
    | some (r, slot) => entryIsDir r slot

/-- **`disk_store_large`** is orderly, for any path, if it does not come upon a
directory. -/
theorem Safe.diskStoreLarge (h : Safe s D) (hn : 0 ∉ n) (hfile : fillsDirectory s n = false)
    (data : ℕ → UInt8) (size : ℕ) :
    ∃ D', Safe (diskStoreLarge s n data size).1 D' ∧ Orderly s (diskStoreLarge s n data size).1 := by
  obtain ⟨D₁, h₁, ho₁⟩ := h.deleteOld n
  obtain ⟨D₂, h₂, ho₂⟩ := h₁.diskCreate hn 0
  have hout := h.largeStore hn data size
  generalize Fat.diskStoreLarge s n data size = res at hout ⊢
  rw [fillsDirectory] at hfile
  cases hout with
  | refused _ => exact ⟨D, h, .refl s⟩
  | notCreated hc =>
    rw [hc] at h₂ ho₂
    exact ⟨D₂, h₂, ho₁.trans ho₂⟩
  | notFound hc _ =>
    rw [hc] at h₂ ho₂
    exact ⟨D₂, h₂, ho₁.trans ho₂⟩
  | noCluster _ h₂ _ _ ho => exact ⟨_, h₂, ho⟩
  | broken _ _ _ _ hg _ ho₃ ho₄ => exact ⟨_, hg.safe, ho₃.trans ho₄⟩
  | @stored D₂ s₂ s₃ s₄ d i tail e hc h₂ hf ha hg _ ho =>
    obtain ⟨hd, hi, hslot, hdots⟩ := hf.holds
    simp only [hc, hf.findEntry h₂] at hfile
    have hdir : e.isDir = false := (listing_eq_some hslot).2.1.symm.trans hfile
    -- the sector read before the loop is still the one on the disk
    have hsame : ∀ d ∈ D₂, s₄.sector d = s₂.sector d := fun d hd =>
      (hg.dirs d hd).trans (ha.sector_eq hd)
    have hreach := reaches_of_dirs hsame hf.reach
    have hb : listing (setSize (setCluster (s₂.sector d) i tail) i size) =
        update (listing (s₄.sector d)) i (some { e with cluster := tail }) := by
      rw [listing_setSize, listing_setCluster _ i ha.inRange.lt_word, hsame d hd,
        show listing (s₂.sector d) i = some e from hslot]
      rfl
    have hholds : (s₄.graph.setDir 2 (s₄.graph.dir d)).Holds (below s₄.graph D₂ d) 2 i e := by
      refine ⟨Set.mem_insert 2 _, hi, ?_, hdots⟩
      rw [Volume.setDir_dir, update_self, graph_dir, hsame d hd]
      exact hslot
    obtain ⟨D', hsafe, ho'⟩ := hg.safe.writeRoot hd hreach hb fun e' he' => by
      rw [← some.inj he']
      exact ⟨fits_fresh (hg.safe.sound.copyRoot hd hreach) hholds hdir
        (hg.fresh.copyRoot hg.safe.sound hd) e.size, fun _ => hg.spare⟩
    exact ⟨D', hsafe, ho.trans ho'⟩

/-- Taking a cluster and filling the chain from there on leaves alone what was in use
before. -/
theorem Obtained.undisturbed_filled {s₂ s₃ s₄ : State} {tail : ℕ} {bs : List Sector} {ok : Bool}
    (ha : Obtained s₂ D s₃ tail) (hfill : Filled s₃ s₄ tail bs ok) : Undisturbed ∅ s₂ s₄ := by
  intro a _ hused
  have hne : a ∉ ({tail} : Set ℕ) := by
    rintro rfl
    exact hused ha.free
  obtain ⟨hfat, hsector⟩ := ha.undisturbed ∅ a (Set.notMem_empty a) hused
  obtain ⟨hfat', hsector'⟩ := hfill.kept a hne (by rwa [hfat])
  exact ⟨hfat'.trans hfat, hsector'.trans hsector⟩

/-- Deleting the old entry changes the root only. -/
theorem Safe.deleteOld_updates (h : Safe s D) (n : Path) :
    ∃ r, Updates s (Fat.deleteOld s n) s.fat (update s.sector 2 r) s.nextCluster
      s.freeClusters := by
  rw [Fat.deleteOld]
  rcases Fat.findEntry s n with _ | ⟨r, i⟩
  · refine ⟨s.sector 2, ?_⟩
    rw [update_eq_self]
    exact .refl h.layout
  · simp only [h.layout.rootCluster]
    exact ⟨_, write_spec h.layout le_rfl (by decide) _⟩

/-! ### Names without directories before them -/

theorem Safe.parentDir_rootLevel (h : Safe s D) (hn : RootLevel n)
    (hp : Fat.parentDir s n = some (d, leaf)) : d = 2 ∧ leaf = leafOf n := by
  rw [Fat.parentDir, hn, h.layout.rootCluster] at hp
  split at hp
  · simp at hp
  · cases hp
    exact ⟨rfl, rfl⟩

/-- After the first step of `disk_store_large` a name without directories before it is
not in the root any more. -/
theorem Safe.deleteOld_rootLevel (h : Safe s D) (hn : RootLevel n)
    (hleaf : leafOf n ≠ []) {j : ℕ} (hj : j < 16)
    (he : listing ((Fat.deleteOld s n).sector 2) j = some e) : e.name ≠ name83 (leafOf n) := by
  have hp : Fat.parentDir s n = some (2, leafOf n) := by
    rw [Fat.parentDir, if_neg hleaf, hn, h.layout.rootCluster]
    rfl
  have hroot := h.sound.root
  rw [Fat.deleteOld, Fat.findEntry, hp] at he
  simp only [h.dirRead hroot] at he
  rcases hfind : findSlot (s.sector 2) (leafOf n) with _ | i
  · rw [hfind] at he
    exact listing_of_findSlot_none hfind hj he
  · obtain ⟨e', he', hname'⟩ := holds_of_findSlot hroot hfind
    rw [hfind] at he
    simp only [h.layout.rootCluster] at he
    rw [(write_spec h.layout le_rfl (by decide) _).sector, update_self, listing_setDeleted, update_apply] at he
    split at he
    · simp at he
    · rename_i hji
      intro hname
      exact hji (h.sound.unique 2 hroot j hj i he'.2.1 e e' he he'.2.2.1 (hname.trans hname'.symm))

/-- **A name without directories before it** does not lead `disk_store_large` to a
directory: the old entry is gone, so the one it finds is the file it has made. -/
theorem Safe.fillsDirectory_rootLevel (h : Safe s D) (hn : RootLevel n) (hzero : 0 ∉ n) :
    fillsDirectory s n = false := by
  obtain ⟨D₁, h₁, -⟩ := h.deleteOld n
  have hgone := fun hleaf {j e} => h.deleteOld_rootLevel hn hleaf (j := j) (e := e)
  rw [fillsDirectory]
  generalize Fat.deleteOld s n = s₁ at h₁ hgone ⊢
  have hleaf : ∀ {d}, Fat.parentDir s₁ n = some (d, leafOf n) → leafOf n ≠ [] := by
    intro d hp hnil
    rw [Fat.parentDir, if_pos hnil] at hp
    simp at hp
  have hout := h₁.creation n
  have h₂ := (hout.kept h₁ hzero).1
  generalize Fat.diskCreate s₁ n 0 = res at hout h₂ ⊢
  cases hout with
  | refused _ => rfl
  | full _ _ _ _ _ => rfl
  | present _ hf =>
    obtain ⟨rfl, -⟩ := h₁.parentDir_rootLevel hn hf.parent
    exact absurd hf.name (hgone (hleaf hf.parent) hf.holds.2.1 hf.holds.2.2.1)
  | @new d i _ hp hd _ _ =>
    obtain ⟨rfl, -⟩ := h₁.parentDir_rootLevel hn hp
    simp only at h₂ ⊢
    rcases hfind : Fat.findEntry _ n with _ | ⟨r, j⟩
    · rfl
    -- whatever is found under the name now is the entry just written
    obtain ⟨d, e, rfl, hf⟩ := h₂.found hfind
    obtain ⟨rfl, -⟩ := h₂.parentDir_rootLevel hn hf.parent
    obtain ⟨-, hj, he, -⟩ := hf.holds
    simp only [(listing_eq_some he).2.1]
    rw [graph_dir, (write_spec h₁.layout le_rfl (by decide) _).sector, update_self,
      listing_newEntry _ i 0x20 (fun h0 => hzero (leafOf_subset n h0)) (show 0 < 2 ^ 32 by decide),
      update_apply] at he
    split at he
    · rw [created_eq_some he, isDir_file]
    · exact absurd hf.name (hgone (hleaf hp) hj he)

theorem Geometry.parentDir_rootLevel (h : Geometry s) (hn : RootLevel n) (hleaf : leafOf n ≠ []) :
    parentDir s n = some (2, leafOf n) := by
  rw [Fat.parentDir, if_neg hleaf, hn, h.rootCluster]
  rfl

/-- A new entry is found under its name. -/
theorem findSlot_newEntry (r : Sector) (hi : i < 16) (attr : UInt8)
    (hleaf : 0 ∉ leaf) (he5 : (name83 leaf).getD 0 0 ≠ 0xe5) (hc : c < 2 ^ 32) :
    findSlot (newEntry r i leaf attr c) leaf ≠ none := by
  rw [findSlot_eq]
  intro hnone
  refine Slots.find_eq_none.mp hnone i hi ⟨name83 leaf, attr, c, 0⟩ ?_ rfl
  rw [entry_newEntry r i attr hleaf hc, update_self, created, if_neg he5]

/-- A new file of the root is found. -/
theorem Layout.findEntry_new (h : Layout s) (hroot : RootLevel n) (hleaf : leafOf n ≠ []) (hn : 0 ∉ n)
    (he5 : (name83 (leafOf n)).getD 0 0 ≠ 0xe5) (hi : i < 16) (r : Sector) :
    findEntry (s.write (clusterLba s 2) (newEntry r i (leafOf n) 0x20 0)) n ≠ none := by
  have hup := write_spec h le_rfl (by decide) (newEntry r i (leafOf n) 0x20 0)
  intro hfind
  rw [Fat.findEntry, hup.layout.toGeometry.parentDir_rootLevel hroot hleaf] at hfind
  simp only [hup.layout.toGeometry.dirRead le_rfl (show 2 < 127008 by decide), hup.sector, update_self] at hfind
  split at hfind
  · rename_i hlost
    exact findSlot_newEntry _ hi 0x20 (fun hz => hn (leafOf_subset n hz)) he5 (by decide) hlost
  · simp at hfind

/-! ### Calls -/

/-- The path of a call is a string, which ends at its first zero. -/
def Op.ZeroFree : Op → Prop
  | .create n _ => 0 ∉ n
  | .store n _ _ => 0 ∉ n
  | .remove n => 0 ∉ n
  | .storeLarge n _ _ => 0 ∉ n
  | .remount => True

/-- The call is not one of `disk_store_large` that comes upon a directory. -/
def Op.SparesDirectories (s : State) : Op → Prop
  | .storeLarge n _ _ => fillsDirectory s n = false
  | _ => True

theorem State.Counted.freeClusters_lt (h : s.Counted) : s.freeClusters < 2 ^ 32 := by
  have hcard := Counting.count_le_card (S := Finset.Ico 2 127008) (f := s.fat) (P := (· = 0))
  rw [Nat.card_Ico] at hcard
  rw [h.count, freeCount]
  omega

/-- Other values of the variables that nothing depends on. -/
theorem Safe.withFlags (h : Safe s D) (label : List UInt8) (formatted mounted : Bool) :
    Safe { s with label := label, formatted := formatted, mounted := mounted } D := by
  obtain ⟨⟨⟨h₁, h₂, h₃, h₄, h₅, h₆, h₇⟩, h₈, h₉, h₁₀, h₁₁, h₁₂⟩, hguarded, hge, hle⟩ := h
  exact ⟨⟨⟨h₁, h₂, h₃, h₄, h₅, h₆, h₇⟩, h₈, h₉, h₁₀, h₁₁, h₁₂⟩, hguarded, hge, hle⟩

/-- **Every call** leads from a safe state with right counters to another, by
writes to the volume. -/
theorem Safe.call (h : Safe s D) (hcounted : s.Counted) {op : Op} (hop : op.ZeroFree)
    (hspares : op.SparesDirectories s) :
    ∃ D', Safe (Fat.call s op).1 D' ∧ (Fat.call s op).1.Counted ∧
      Store.Writes InHome s.disk (Fat.call s op).1.disk := by
  have horderly : ∀ {s' : State}, (∃ D', Safe s' D' ∧ Orderly s s') →
      ∃ D', Safe s' D' ∧ s'.Counted ∧ Store.Writes InHome s.disk s'.disk := by
    rintro s' ⟨D', hsafe, horderly⟩
    exact ⟨D', hsafe, horderly.counted hcounted, horderly.writes⟩
  cases op with
  | create n type => exact horderly (h.diskCreate hop type)
  | store n data size => exact horderly (h.diskStore hop data size)
  | remove n => exact horderly (h.diskRemove n)
  | storeLarge n data size => exact horderly (h.diskStoreLarge hop hspares data size)
  | remount =>
    refine ⟨D, ?_⟩
    rw [Fat.call, diskInit_of_layout h.layout hcounted.freeClusters_lt h.next_ge h.next_le rfl, diskMount, if_pos rfl]
    exact ⟨h.withFlags volumeLabel true true, hcounted, .refl⟩

end OS64.Fat
