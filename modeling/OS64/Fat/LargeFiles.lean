import OS64.Fat.GivenBack

/-!
# What a large file does to the others

A large file is written to clusters that were free, and the table and the data of all
other files are left alone. What `disk_store_large` does not look at is the entry it
deletes first, the one that has the name of the file already. If this is a directory,
everything below it goes with it: no path leads to its files any more, though their
clusters are still there. So a call that succeeds leaves all other files as they were
exactly if no file is below the name (`OS64.Fat.store_large_iff`).
-/

namespace OS64.Fat

open List Function Chains Option

variable {component : Path} {a : ℕ}

variable {s s' : State} {D : Set ℕ} {n : Path} {data : ℕ → UInt8} {size : ℕ}

/-! ### The root after the call -/

/-- From `s` to `s'` the file has been stored: slot `i` of the root is new, and leads to
the chain `l`. -/
structure StoredLarge (s : State) (n : Path) (data : ℕ → UInt8) (size : ℕ) (s' : State) (i c : ℕ)
    (l : List ℕ) : Prop where
  layout : Layout s'
  named : leafOf n ≠ []
  new : entry (s'.sector 2) i = some ⟨name83 (leafOf n), 0x20, c, size⟩
  found : findSlot (s'.sector 2) (leafOf n) = some i
  /-- Other names are found where they were. -/
  lookup : ∀ m, name83 m ≠ name83 (leafOf n) → findSlot (s'.sector 2) m = findSlot (s.sector 2) m
  same : ∀ j e, entry (s.sector 2) j = some e → e.name ≠ name83 (leafOf n) →
    entry (s'.sector 2) j = some e
  kept : Undisturbed {2} s s'
  chain : Chain (fatStep s') c l
  contents : l.map s'.sector = fileSectors data size
  free : ∀ x ∈ l, s.fat x = 0

/-- The root without the old entry. -/
theorem Safe.entry_deleteOld (h : Safe s D) (hroot : RootLevel n) (hleaf : leafOf n ≠ []) :
    entry ((Fat.deleteOld s n).sector 2) = entry (s.sector 2) ∨
    ∃ j e, entry (s.sector 2) j = some e ∧ e.name = name83 (leafOf n) ∧
      entry ((Fat.deleteOld s n).sector 2) = update (entry (s.sector 2)) j none := by
  have hp := h.layout.toGeometry.parentDir_rootLevel hroot hleaf
  rw [Fat.deleteOld, Fat.findEntry, hp]
  simp only [h.dirRead h.sound.root]
  rcases hfind : findSlot (s.sector 2) (leafOf n) with _ | j
  · exact .inl rfl
  · obtain ⟨-, e, he, hname⟩ := findSlot_eq_some hfind
    have hup := write_spec h.layout le_rfl (by decide) (setDeleted (s.sector 2) j)
    simp only [h.layout.rootCluster]
    rw [hup.sector, update_self, entry_setDeleted]
    exact .inr ⟨j, e, he, hname, rfl⟩

/-- The new entry is where a slot of the root is free, and stays the only one of its
name. -/
theorem Safe.entry_created (h : Safe s D) (hroot : RootLevel n) (hn : 0 ∉ n) {s₂ : State}
    (hc : Fat.diskCreate (Fat.deleteOld s n) n 0 = (s₂, true)) {i : ℕ}
    (hslot : findSlot (s₂.sector 2) (leafOf n) = some i) :
    leafOf n ≠ [] ∧ entry ((Fat.deleteOld s n).sector 2) i = none ∧
    entry (s₂.sector 2) = update (entry ((Fat.deleteOld s n).sector 2)) i
      (some ⟨name83 (leafOf n), 0x20, 0, 0⟩) ∧
    s₂.fat = s.fat ∧ ∀ a ≠ 2, s₂.sector a = s.sector a := by
  obtain ⟨D₁, h₁, -⟩ := h.deleteOld n
  obtain ⟨_, hold⟩ := h.deleteOld_updates n
  have hgone : leafOf n ≠ [] → ∀ j < 16, ∀ e, entry ((Fat.deleteOld s n).sector 2) j = some e →
      e.name ≠ name83 (leafOf n) := by
    intro hleaf j hj e he
    exact h.deleteOld_rootLevel hroot hleaf hj (e := e.unsized) (by rw [listing, he]; rfl)
  have hcreation := h₁.creation n
  rw [hc] at hcreation
  generalize Fat.deleteOld s n = s₁ at h₁ hold hgone hcreation ⊢
  have hleaf : ∀ {d}, Fat.parentDir s₁ n = some (d, leafOf n) → leafOf n ≠ [] := by
    intro d hp hnil
    rw [Fat.parentDir, if_pos hnil] at hp
    simp at hp
  cases hcreation with
  | present _ hf =>
    obtain ⟨rfl, -⟩ := h₁.parentDir_rootLevel hroot hf.parent
    obtain ⟨hj, e, he, hname⟩ := findSlot_eq_some hf.slot
    exact absurd hname (hgone (hleaf hf.parent) _ hj e he)
  | @new d j _ hp _ hnone hfree =>
    obtain ⟨rfl, -⟩ := h₁.parentDir_rootLevel hroot hp
    have hup := write_spec h₁.layout le_rfl (by decide) (newEntry (s₁.sector 2) j (leafOf n) 0x20 0)
    have hentry := entry_newEntry (s₁.sector 2) j 0x20 (fun h0 => hn (leafOf_subset n h0))
      (show 0 < 2 ^ 32 by decide)
    rw [hup.sector, update_self] at hslot
    obtain ⟨hi, e, he, hname⟩ := findSlot_eq_some hslot
    rw [hentry, update_apply] at he
    split at he
    · rename_i hij
      have hroot₂ : entry ((s₁.write (clusterLba s₁ 2) (newEntry (s₁.sector 2) j (leafOf n) 0x20 0)).sector
          2) = update (entry (s₁.sector 2)) j (some ⟨name83 (leafOf n), 0x20, 0, 0⟩) := by
        rw [hup.sector, update_self, hentry, he, created_eq_some he]
      rw [hij]
      refine ⟨hleaf hp, (freeSlot_eq_some hfree).2, hroot₂, hup.fat.trans hold.fat, fun a ha => ?_⟩
      rw [hup.sector, update_of_ne ha, hold.sector, update_of_ne ha]
    · exact absurd hname (hgone (hleaf hp) i hi e he)

/-- **A large file that is stored** changes one entry of the root, and no cluster that
was in use. -/
theorem Safe.storedLarge (h : Safe s D) (hroot : RootLevel n) (hn : 0 ∉ n)
    (hres : Fat.diskStoreLarge s n data size = (s', true)) :
    ∃ i c l, StoredLarge s n data size s' i c l := by
  have hsize : size < 2 ^ 32 := by
    by_contra hlarge
    have hmax : size > homeSectors * 512 := by
      rw [homeSectors]
      omega
    rw [Fat.diskStoreLarge, if_pos (Or.inr (Or.inr hmax))] at hres
    exact absurd (Prod.mk.inj hres).2 (by decide)
  have hout := h.largeStore hn data size
  rw [hres] at hout
  cases hout with
  | @stored D₂ s₂ s₃ s₄ d i tail e hc h₂ hf ha hg hfill =>
    obtain ⟨rfl, -⟩ := h₂.parentDir_rootLevel hroot hf.parent
    obtain ⟨hleaf, hfree, hnew, hfat, hsector⟩ := h.entry_created hroot hn hc hf.slot
    obtain ⟨l, hl, hcontents, htaken, -⟩ := hfill.done rfl
    have htail32 := ha.inRange.lt_word
    -- the root that is written back
    obtain ⟨b, hb⟩ : ∃ b, b = setSize (setCluster (s₂.sector 2) i tail) i size := ⟨_, rfl⟩
    have hentry : entry b = update (entry ((Fat.deleteOld s n).sector 2)) i
        (some ⟨name83 (leafOf n), 0x20, tail, size⟩) := by
      rw [hb, entry_setSize _ _ hsize, entry_setCluster _ _ htail32, hnew]
      simp only [update_self, update_idem, Option.map_some]
    rw [← hb]
    have hup := write_spec hg.safe.layout le_rfl (by decide) b
    have hroot' : (s₄.write (clusterLba s₄ 2) b).sector 2 = b := by
      rw [hup.sector, update_self]
    have hnames : findSlot b (leafOf n) = some i := by
      rw [← hf.slot, findSlot_eq_listing, findSlot_eq_listing, hb, listing_setSize, listing_setCluster _ _ htail32]
      exact Slots.find_replace (by rw [Option.map_map]; rfl)
    -- the clusters of the chain were free
    have hne : ∀ x ∈ l, x ≠ 2 := by
      rintro x hx rfl
      rcases htaken 2 hx with htail | hzero
      · exact ha.fresh.ne_root htail.symm
      · exact (ha.safe.sound.dirs 2 ha.safe.sound.root).2 hzero
    refine ⟨i, tail, l, hup.layout, hleaf, ?_, ?_, ?_, ?_, ?_, ?_, ?_, ?_⟩
    · rw [hroot', hentry, update_self]
    · rw [hroot', hnames]
    · intro m hm
      rw [hroot', findSlot_eq, findSlot_eq, hentry, Slots.find_update]
      · rcases h.entry_deleteOld hroot hleaf with hsame | ⟨j, e', he', hname, hsame⟩
        · rw [hsame]
        · rw [hsame, Slots.find_update]
          · intro e he hkey
            rw [← Option.some.inj (he'.symm.trans he)] at hkey
            exact hm (hkey.symm.trans hname)
          · intro e he
            simp at he
      · intro e he
        rw [hfree] at he
        simp at he
      · intro e he hkey
        rw [← Option.some.inj he] at hkey
        exact hm hkey.symm
    · intro j e he hname
      have hold : entry ((Fat.deleteOld s n).sector 2) j = some e := by
        rcases h.entry_deleteOld hroot hleaf with hsame | ⟨j', e', he', hname', hsame⟩
        · rw [hsame, he]
        · rw [hsame, update_of_ne, he]
          rintro rfl
          rw [Option.some.inj (he'.symm.trans he)] at hname'
          exact hname hname'
      rw [hroot', hentry, update_of_ne, hold]
      rintro rfl
      rw [hold] at hfree
      simp at hfree
    · intro a ha2 hused
      have hused₂ : s₂.fat a ≠ 0 := by rwa [hfat]
      obtain ⟨hfat₄, hsector₄⟩ := ha.undisturbed_filled hfill a (Set.notMem_empty a) hused₂
      rw [hup.fat, hup.sector, update_of_ne ha2, hfat₄, hsector₄, hfat, hsector a ha2]
      exact ⟨rfl, rfl⟩
    · exact hl.congr fun x _ => hg.safe.layout.toGeometry.fatStep_congr hup.layout.toGeometry (by rw [hup.fat])
    · rw [← hcontents]
      refine map_congr_left fun x hx => ?_
      rw [hup.sector, update_of_ne (hne x hx)]
    · intro x hx
      rcases htaken x hx with rfl | hzero
      · rw [← hfat, ha.free]
      · by_contra hused
        rw [← hfat] at hused
        rw [(ha.undisturbed ∅ x (Set.notMem_empty x) hused).1] at hzero
        exact hused hzero

/-! ### Paths -/

/-- The path `p` is another name of the file. -/
def SameName (n p : Path) : Prop := directoriesOf p = [] ∧ name83 (leafOf p) = name83 (leafOf n)

/-- The path `p` goes through the name of the file. -/
def Through (n p : Path) : Prop :=
  ∃ component components, directoriesOf p = component :: components ∧
    name83 (component.take 12) = name83 (leafOf n)

/-- The path leads to a file. -/
def IsFile (s : State) (p : Path) : Prop := ∃ r i, findEntry s p = some (r, i) ∧ entryIsDir r i = false

/-- A step leads to a directory other than the root. -/
theorem Safe.subdirectory_mem (h : Safe s D) {a' : ℕ} (ha : a ∈ D)
    (hsub : subdirectory s a component = some a') : a' ∈ D ∧ a' ≠ 2 := by
  have hchild := h.hasDir_of_subdirectory ha hsub
  refine ⟨h.sound.mem_of_hasDir hchild, ?_⟩
  obtain ⟨j, e, he, hdir, rfl⟩ := hchild
  have hne : e.cluster ≠ 0 := by
    intro h0
    rw [(h.sound.empty a j e he h0).1] at hdir
    cases hdir
  exact (h.sound.heads a j e he hne).2.1

theorem Safe.walk_ne_root (h : Safe s D) {cs : List Path} (ha : a ∈ D) : Fat.walk s a (component :: cs) ≠ some 2 := by
  induction cs generalizing component a with
  | nil =>
    intro hwalk
    rw [Fat.walk] at hwalk
    rcases hsub : subdirectory s a component with _ | a'
    · simp [hsub] at hwalk
    · rw [hsub] at hwalk
      exact (h.subdirectory_mem ha hsub).2 (some.inj hwalk)
  | cons component' cs ih =>
    intro hwalk
    rw [Fat.walk] at hwalk
    rcases hsub : subdirectory s a component with _ | a'
    · simp [hsub] at hwalk
    · rw [hsub] at hwalk
      exact ih (h.subdirectory_mem ha hsub).1 hwalk

section Stored

variable {i c : ℕ} {l : List ℕ} (h : Safe s D) (hst : StoredLarge s n data size s' i c l)
include hst

/-- The name of the file does not lead through the root any more. -/
theorem StoredLarge.subdirectory_eq_none
    (hname : name83 (component.take 12) = name83 (leafOf n)) : subdirectory s' 2 component = none := by
  have hslot : findSlot (s'.sector 2) (component.take 12) = some i := by
    rw [findSlot, hname, ← findSlot, hst.found]
  obtain ⟨-, hisDir, -⟩ := entry_eq_some hst.new
  rw [subdirectory, hst.layout.toGeometry.dirRead le_rfl (by decide), hslot]
  simp [hisDir]

include h

/-- A directory other than the root is what it was. -/
theorem StoredLarge.sector_eq (ha : a ∈ D) (ha2 : a ≠ 2) : s'.sector a = s.sector a :=
  (hst.kept a ha2 (h.sound.dirs a ha).2).2

/-- An entry of another name is found where it was, and is what it was. -/
theorem StoredLarge.findSlot_eq {j : ℕ} (ha : a ∈ D) {m : Path}
    (hm : a = 2 → name83 m ≠ name83 (leafOf n)) (hslot : findSlot (s.sector a) m = some j) :
    findSlot (s'.sector a) m = some j ∧ entry (s'.sector a) j = entry (s.sector a) j := by
  by_cases ha2 : a = 2
  · subst ha2
    obtain ⟨-, e, he, hname⟩ := findSlot_eq_some hslot
    refine ⟨by rw [hst.lookup m (hm rfl), hslot], ?_⟩
    rw [he, hst.same j e he]
    rw [hname]
    exact hm rfl
  · rw [hst.sector_eq h ha ha2]
    exact ⟨hslot, rfl⟩

theorem StoredLarge.subdirectory_eq {a' : ℕ} (ha : a ∈ D)
    (hname : a = 2 → name83 (component.take 12) ≠ name83 (leafOf n))
    (hsub : subdirectory s a component = some a') : subdirectory s' a component = some a' := by
  have hd := (h.sound.dirs a ha).1
  rw [subdirectory, h.dirRead ha] at hsub
  rw [subdirectory, hst.layout.toGeometry.dirRead hd.1 hd.2]
  rcases hslot : findSlot (s.sector a) (component.take 12) with _ | j
  · simp [hslot] at hsub
  · obtain ⟨hslot', hentry⟩ := hst.findSlot_eq h ha hname hslot
    obtain ⟨-, e, he, -⟩ := findSlot_eq_some hslot
    obtain ⟨-, hisDir, hcluster, -⟩ := entry_eq_some he
    obtain ⟨-, hisDir', hcluster', -⟩ := entry_eq_some (hentry.trans he)
    rw [hslot] at hsub
    simpa only [hslot', hisDir', hcluster', hisDir, hcluster] using hsub

/-- A walk that does not go through the name of the file leads where it led. -/
theorem StoredLarge.walk_eq : ∀ (cs : List Path) {a b : ℕ}, a ∈ D →
    (a = 2 → ∀ component ∈ cs.head?, name83 (component.take 12) ≠ name83 (leafOf n)) →
    walk s a cs = some b → walk s' a cs = some b
  | [], a, b, _, _, hwalk => hwalk
  | component :: cs, a, b, ha, hname, hwalk => by
    rw [Fat.walk] at hwalk ⊢
    rcases hsub : subdirectory s a component with _ | a'
    · rw [hsub] at hwalk
      simp at hwalk
    rw [hsub] at hwalk
    obtain ⟨ha', ha2⟩ := h.subdirectory_mem ha hsub
    rw [hst.subdirectory_eq h ha (fun ha2 => hname ha2 component rfl) hsub]
    exact StoredLarge.walk_eq cs ha' (fun heq => absurd heq ha2) hwalk

/-- **A path that leads to an entry still does**, and the entry is what it was, unless it
is one of the file or goes through its name. -/
theorem StoredLarge.findEntry_eq {p : Path} (hother : ¬SameName n p) (hthrough : ¬Through n p)
    {r : Sector} {j : ℕ} (hfind : findEntry s p = some (r, j)) :
    ∃ r', findEntry s' p = some (r', j) ∧ entry r' j = entry r j := by
  obtain ⟨d, e, rfl, hf⟩ := h.found hfind
  have hp := hf.parent
  rw [parentDir] at hp
  split at hp
  · simp at hp
  rename_i hleaf
  obtain ⟨d', hwalk, heq⟩ := map_eq_some_iff.mp hp
  obtain ⟨rfl, -⟩ := Prod.mk.inj heq
  rw [h.layout.rootCluster] at hwalk
  have hfirst : ∀ component ∈ (directoriesOf p).head?, name83 (component.take 12) ≠ name83 (leafOf n) := by
    intro component hhead hname
    obtain ⟨components, hdirs⟩ := List.head?_eq_some_iff.mp hhead
    exact hthrough ⟨component, components, hdirs, hname⟩
  have hwalk' := hst.walk_eq h _ h.sound.root (fun _ => hfirst) hwalk
  have hparent : parentDir s' p = some (d', leafOf p) := by
    rw [parentDir, if_neg hleaf, hst.layout.rootCluster, hwalk']
    rfl
  -- only a path of one component leads to the root
  have hname : d' = 2 → name83 (leafOf p) ≠ name83 (leafOf n) := by
    rintro rfl hname
    rcases hdirs : directoriesOf p with _ | ⟨component, cs⟩
    · exact hother ⟨hdirs, hname⟩
    · rw [hdirs] at hwalk
      exact h.walk_ne_root h.sound.root hwalk
  obtain ⟨hslot, hentry⟩ := hst.findSlot_eq h hf.holds.1 hname hf.slot
  have hd := (h.sound.dirs d' hf.holds.1).1
  refine ⟨s'.sector d', ?_, hentry⟩
  rw [findEntry, hparent]
  simp only [hst.layout.toGeometry.dirRead hd.1 hd.2, hslot]

end Stored

/-! ### The call -/

/-- The file is in the root with its size, on a chain of distinct clusters that were
free before and hold the data, filled up with zeros. -/
def Holding (s s' : State) (n : Path) (data : ℕ → UInt8) (size : ℕ) : Prop :=
  ∃ r i l, findEntry s' n = some (r, i) ∧ entrySize r i = size ∧ Chain (fatStep s') (entryCluster r i) l ∧
    l.length = (size + 511) / 512 ∧ l.Nodup ∧ (∀ c ∈ l, fatEntry s 0 c = 0 ∧ fatEntry s 1 c = 0) ∧
    l.map (dirRead s') = fileSectors data size

/-- Every other file has the entry, the chain and the contents it had. -/
def OthersKept (s s' : State) (n : Path) : Prop :=
  ∀ p r i l, findEntry s p = some (r, i) → entryIsDir r i = false → ¬SameName n p →
    Heads s (entryCluster r i) l → ∃ r', findEntry s' p = some (r', i) ∧ entry r' i = entry r i ∧
      Heads s' (entryCluster r' i) l ∧ l.map (dirRead s') = l.map (dirRead s)

theorem Geometry.map_dirRead (h : Geometry s) {l : List ℕ} (hl : ∀ x ∈ l, InRange x) :
    l.map (Fat.dirRead s) = l.map s.sector :=
  map_congr_left fun x hx => h.dirRead (hl x hx).1 (hl x hx).2

/-- A chain that does not start at the root does not come to it. -/
theorem Safe.chain_ne_root (h : Safe s D) {c : ℕ} {l : List ℕ} (hl : Chain (fatStep s) c l) (hc : c ≠ 2) :
    ∀ x ∈ l, x ≠ 2 := by
  induction hl with
  | last _ =>
    intro x hx
    rwa [mem_singleton.mp hx]
  | @link a b l hstep _ ih =>
    have hb : b ≠ 2 := by
      rintro rfl
      exact (h.sound.links a 2 (h.links_of_fatStep hstep)).2.2.1 h.sound.root
    intro x hx
    rcases mem_cons.mp hx with rfl | hx
    · exact hc
    · exact ih hb x hx

section Stored

variable {i c : ℕ} {l : List ℕ} (h : Safe s D) (hst : StoredLarge s n data size s' i c l)
include h hst

theorem StoredLarge.holding (hroot : RootLevel n) : Holding s s' n data size := by
  have hgeo := hst.layout.toGeometry
  obtain ⟨-, -, hcluster, hsize⟩ := entry_eq_some hst.new
  have hrange := fun (x : ℕ) (hx : x ∈ l) => (hgeo.of_mem_chain hst.chain hx).1
  have hlen : l.length = (size + 511) / 512 := by
    rw [← length_map (f := s'.sector), hst.contents, fileSectors, length_map, length_range]
  refine ⟨s'.sector 2, i, l, ?_, hsize, ?_, hlen, hst.chain.nodup, fun x hx => ?_, ?_⟩
  · rw [findEntry, hgeo.parentDir_rootLevel hroot hst.named]
    simp only [hgeo.dirRead le_rfl (show 2 < 127008 by decide), hst.found]
  · rw [hcluster]
    exact hst.chain
  · rw [h.layout.fatEntry_copy (hrange x hx).2, h.layout.toGeometry.fatEntry (hrange x hx).2]
    exact ⟨hst.free x hx, hst.free x hx⟩
  · rw [hgeo.map_dirRead hrange, hst.contents]

/-- **The other files are kept exactly if none is below the name.** -/
theorem StoredLarge.othersKept_iff : OthersKept s s' n ↔ ∀ p, IsFile s p → ¬Through n p := by
  constructor
  · rintro hkept p ⟨r, i, hfind, hfile⟩ ⟨component, components, hdirs, hname⟩
    obtain ⟨d, e, rfl, hf⟩ := h.found hfind
    obtain ⟨l, hl⟩ := h.exists_heads hf.holds
    rw [← (listing_eq_some hf.holds.2.2.1).2.2.1] at hl
    have hother : ¬SameName n p := by
      rintro ⟨hnil, -⟩
      rw [hdirs] at hnil
      simp at hnil
    obtain ⟨r', hfind', -⟩ := hkept p _ i l hfind hfile hother hl
    -- the walk stops at the new file
    rw [findEntry, parentDir, hdirs, hst.layout.rootCluster, walk, hst.subdirectory_eq_none hname] at hfind'
    split at hfind'
    · simp at hfind'
    · rename_i hparent
      split at hparent
      · simp at hparent
      · simp at hparent
  · intro hbelow p r i l hfind hfile hother hl
    obtain ⟨r', hfind', hentry⟩ := hst.findEntry_eq h hother (hbelow p ⟨r, i, hfind, hfile⟩) hfind
    obtain ⟨d, e, rfl, hf⟩ := h.found hfind
    obtain ⟨e', he', -⟩ := map_eq_some_iff.mp hf.holds.2.2.1
    have hcluster : entryCluster r' i = entryCluster (s.sector d) i := by
      rw [(entry_eq_some he').2.2.1, (entry_eq_some (hentry.trans he')).2.2.1]
    refine ⟨r', hfind', hentry, ?_⟩
    rw [hcluster]
    rcases hl with ⟨h0, rfl⟩ | hl
    · exact ⟨.inl ⟨h0, rfl⟩, rfl⟩
    · -- the root is no cluster of a file
      have hne : e.cluster ≠ 0 := by
        rw [← hf.cluster_eq]
        have := (h.layout.toGeometry.of_mem_chain hl hl.head_mem).1.1
        omega
      have hroot : ∀ x ∈ l, x ≠ 2 := by
        refine h.chain_ne_root hl ?_
        rw [hf.cluster_eq]
        exact (h.sound.heads d i e hf.holds hne).2.1
      obtain ⟨hl', hsame⟩ := hst.kept.chain h.layout.toGeometry hst.layout.toGeometry hl hroot
      refine ⟨.inr hl', ?_⟩
      rw [h.layout.toGeometry.map_dirRead fun x hx => (h.layout.toGeometry.of_mem_chain hl hx).1,
        hst.layout.toGeometry.map_dirRead fun x hx => (h.layout.toGeometry.of_mem_chain hl hx).1, hsame]

end Stored

/-- **A large file that is stored leaves the others alone exactly if none of them is below
its name**, in every state of a run in which no `disk_store_large` comes upon a
directory; it is always stored itself. -/
theorem store_large_iff (s₀ : State) {calls : List KernelCall} (hzero : ∀ call ∈ calls, call.ZeroFree)
    (hspares : Runs.Throughout (fun before call => call.SparesDirectories (kernelRun s₀ before)) calls)
    {n : Path} (hn : 0 ∉ n) (hroot : RootLevel n) {data : ℕ → UInt8} {size : ℕ} {s' : State}
    (hres : diskStoreLarge (kernelRun s₀ calls) n data size = (s', true)) :
    (Holding (kernelRun s₀ calls) s' n data size ∧ OthersKept (kernelRun s₀ calls) s' n) ↔
      ∀ p, IsFile (kernelRun s₀ calls) p → ¬Through n p := by
  obtain ⟨D, h, -⟩ := safe_kernelRun s₀ hzero hspares
  obtain ⟨i, c, l, hst⟩ := h.storedLarge hroot hn hres
  rw [hst.othersKept_iff h]
  exact ⟨fun hand => hand.2, fun hbelow => ⟨hst.holding h hroot, hbelow⟩⟩

/-- A file of 513 bytes is stored on a new volume. -/
theorem new_file_stored :
    let s := diskFormat (State.initial fun _ => zero)
    Holding s (diskStoreLarge s pathA (fun _ => 65) 513).1 pathA (fun _ => 65) 513 ∧
      OthersKept s (diskStoreLarge s pathA (fun _ => 65) 513).1 pathA := by
  have hres : (diskStoreLarge (diskFormat (State.initial fun _ => zero)) pathA (fun _ => 65) 513).2 = true := by
    rw [diskFormat_eq]
    decide +kernel
  refine (@store_large_iff (State.initial fun _ => zero) [] (by simp) (Runs.throughout_nil _) pathA (by decide)
    (by decide) _ _ _ (eq_mk_true hres)).mpr ?_
  -- the only directory of a new volume is the root
  rintro p ⟨r, i, hfind, -⟩ ⟨component, components, hdirs, -⟩
  have h := safe_diskFormat (State.initial fun _ => zero)
  obtain ⟨d, e, -, hf⟩ := h.found hfind
  have hp := hf.parent
  rw [parentDir, hdirs, h.layout.rootCluster, walk] at hp
  rcases hsub : subdirectory (diskFormat (State.initial fun _ => zero)) 2 component with _ | a
  · simp [hsub] at hp
  · obtain ⟨ha, ha2⟩ := h.subdirectory_mem h.sound.root hsub
    exact ha2 ha

/-- A new volume with a directory `A` and an empty file `x` in it. -/
def fileBelow : State :=
  (diskCreate (diskCreate (diskFormat (State.initial fun _ => zero)) pathA 1).1 (pathA ++ [47, 120]) 0).1

/-- Storing a file `A` there succeeds, and `A/x` is gone. -/
theorem file_below_lost : fileBelow = kernelRun (State.initial fun _ => zero)
      [.call (.create pathA 1), .call (.create (pathA ++ [47, 120]) 0)] ∧
    (diskStoreLarge fileBelow pathA (fun _ => 65) 1).2 = true ∧
    (findEntry fileBelow (pathA ++ [47, 120])).map (fun x => entryIsDir x.1 x.2) = some false ∧
    (findEntry (diskStoreLarge fileBelow pathA (fun _ => 65) 1).1 (pathA ++ [47, 120])).map Prod.snd = none := by
  refine ⟨rfl, ?_⟩
  rw [fileBelow, diskFormat_eq]
  decide +kernel

end OS64.Fat
