import OS64.Fat.Model
import OS64.Lib.Store

/-!
# The regions of the volume

A formatted volume always has the same geometry (`OS64.Fat.Geometry`), and its
sectors fall into regions that do not overlap: the boot area, the two copies of
the table, the clusters. `OS64.Fat.Layout` says that the boot area, the FSInfo
sectors and the second copy of the table are what the variables and the first
copy say they are.

What is left to know of a state is then the table, `OS64.Fat.State.fat`, and the
contents of the clusters, `OS64.Fat.State.sector`. Each primitive of the driver is
an update of one of the two (`OS64.Fat.fatSet_spec`, `OS64.Fat.write_spec`) and
keeps the layout; from here on nothing looks at sector numbers.
-/

namespace OS64.Fat

open Function ByteMem List

/-! ### Geometry -/

/-- The geometry `disk_format` chooses and `disk_init` reads back. -/
structure Geometry (s : State) : Prop where
  volumeStart : s.volumeStart = 2048
  reserved : s.reserved = 32
  fatSectors : s.fatSectors = 993
  dataStart : s.dataStart = 2018
  rootCluster : s.rootCluster = 2
  fatCount : s.fatCount = 2
  sectorsPerCluster : s.sectorsPerCluster = 1

variable {s : State} {c : ℕ}

theorem Geometry.clusterLba (h : Geometry s) (hc : c < 2 ^ 31) : clusterLba s c = 4064 + c := by
  rw [Fat.clusterLba, h.volumeStart, h.dataStart, h.sectorsPerCluster]
  omega

theorem Geometry.fatLba (h : Geometry s) (f c : ℕ) : fatLba s f c = 2080 + f * 993 + c / 128 := by
  rw [Fat.fatLba, h.volumeStart, h.reserved, h.fatSectors]
  omega

theorem Geometry.maxCluster (h : Geometry s) : maxCluster s = 127008 := by
  rw [Fat.maxCluster, h.dataStart, h.sectorsPerCluster]
  decide

/-! ### The table and the clusters -/

/-- The first copy of the table. -/
def State.fat (s : State) (c : ℕ) : ℕ :=
  if c < 127008 then r32 (s.disk (2080 + c / 128)) (c % 128 * 4) else 0

/-- The contents of the clusters. -/
def State.sector (s : State) (c : ℕ) : Sector := if 2 ≤ c then s.disk (4064 + c) else zero

theorem Geometry.fatEntry (h : Geometry s) (hc : c < 127008) : fatEntry s 0 c = s.fat c := by
  rw [Fat.fatEntry, h.fatLba, State.fat, if_pos hc, show c * 4 % 512 = c % 128 * 4 by omega,
    show 2080 + 0 * 993 + c / 128 = 2080 + c / 128 by omega]

theorem Geometry.fatGet (h : Geometry s) (hc : c < 127008) : fatGet s c = s.fat c % 2 ^ 28 := by
  rw [Fat.fatGet, h.fatEntry hc]

theorem Geometry.dirRead (h : Geometry s) (hc : 2 ≤ c) (hc' : c < 127008) : dirRead s c = s.sector c := by
  rw [Fat.dirRead, h.clusterLba (by omega), State.sector, if_pos hc]

/-- The boot area, the FSInfo sectors and the copy of the table agree with the
variables and the table. -/
structure Layout (s : State) : Prop extends Geometry s where
  partition : s.disk 0 = partitionTable
  boot : s.disk 2048 = bootSector
  info : s.disk 2049 = infoSector s.freeClusters s.nextCluster
  infoCopy : s.disk 2055 = infoSector s.freeClusters s.nextCluster
  copies : ∀ i < 993, s.disk (3073 + i) = s.disk (2080 + i)

/-! ### Updates -/

/-- The sectors of the volume. -/
def InHome (lba : ℕ) : Prop := homeStart ≤ lba ∧ lba < varStart

instance (lba : ℕ) : Decidable (InHome lba) := inferInstanceAs (Decidable (_ ∧ _))

theorem Geometry.inHome_clusterLba (h : Geometry s) (hc : 2 ≤ c) (hc' : c < 127008) : InHome (Fat.clusterLba s c) := by
  rw [h.clusterLba (by omega), InHome, homeStart, varStart]
  omega

/-- What changes from `s` to `s'` at most, by writes to the volume: the table to `fat`, the
clusters to `sector`, the hint and the count. -/
structure Updates (s s' : State) (fat : ℕ → ℕ) (sector : ℕ → Sector) (next free : ℕ) : Prop where
  layout : Layout s'
  fat : s'.fat = fat
  sector : s'.sector = sector
  nextCluster : s'.nextCluster = next
  freeClusters : s'.freeClusters = free
  mounted : s'.mounted = s.mounted
  formatted : s'.formatted = s.formatted
  writes : Store.Writes InHome s.disk s'.disk

theorem Updates.refl (h : Layout s) : Updates s s s.fat s.sector s.nextCluster s.freeClusters :=
  ⟨h, rfl, rfl, rfl, rfl, rfl, rfl, .refl⟩

/-- Writing the volume, with the boot sector left alone and the copies kept alike. -/
theorem Layout.updates {s' : State} {next free : ℕ} (h : Layout s)
    (hs' : s' = { s with disk := s'.disk, nextCluster := next, freeClusters := free })
    (hwrites : Store.Writes InHome s.disk s'.disk) (hboot : s'.disk 2048 = s.disk 2048)
    (hinfo : s'.disk 2049 = infoSector free next) (hinfoCopy : s'.disk 2055 = infoSector free next)
    (hcopies : ∀ i < 993, s'.disk (3073 + i) = s'.disk (2080 + i)) :
    Updates s s' s'.fat s'.sector next free := by
  have hpartition := (hwrites.frame (show ¬InHome 0 by decide)).trans h.partition
  rw [hs']
  exact ⟨⟨⟨h.volumeStart, h.reserved, h.fatSectors, h.dataStart, h.rootCluster, h.fatCount,
    h.sectorsPerCluster⟩, hpartition, hboot.trans h.boot, hinfo, hinfoCopy, hcopies⟩, rfl, rfl, rfl, rfl,
    rfl, rfl, hwrites⟩

/-- Writing a cluster. -/
theorem write_spec (h : Layout s) (hc : 2 ≤ c) (hc' : c < 127008) (b : Sector) :
    Updates s (s.write (clusterLba s c) b) s.fat (update s.sector c b) s.nextCluster
      s.freeClusters := by
  have hlba := h.clusterLba (show c < 2 ^ 31 by omega)
  have hother : ∀ {lba}, lba < 4066 → (s.write (clusterLba s c) b).disk lba = s.disk lba := by
    intro lba hl
    exact update_of_ne (by omega) _ _
  have hfat : (s.write (clusterLba s c) b).fat = s.fat := by
    funext c'
    rw [State.fat, State.fat]
    split
    · rw [hother (by omega)]
    · rfl
  have hsector : (s.write (clusterLba s c) b).sector = update s.sector c b := by
    funext c'
    rw [update_apply, State.sector, State.sector, hlba]
    split
    · by_cases hcc : c' = c
      · rw [if_pos hcc, hcc]
        exact update_self ..
      · rw [if_neg hcc]
        exact update_of_ne (by omega) _ _
    · rw [if_neg (by omega)]
  rw [← hfat, ← hsector]
  refine h.updates rfl (.single (h.inHome_clusterLba hc hc') b) (hother (by decide))
    ((hother (by decide)).trans h.info) ((hother (by decide)).trans h.infoCopy) fun i hi => ?_
  rw [hother (by omega), hother (by omega)]
  exact h.copies i hi

theorem fatSet_eq (h : Geometry s) (c v : ℕ) : fatSet s c v =
    (s.write (2080 + c / 128) (w32 (s.disk (2080 + c / 128)) (c % 128 * 4) v)).write (3073 + c / 128)
      (w32 (s.disk (3073 + c / 128)) (c % 128 * 4) v) := by
  have hpos : c * 4 % 512 = c % 128 * 4 := by omega
  have h0 := h.fatLba 0 c
  have h1 : ∀ b, fatLba (s.write (2080 + c / 128) b) 1 c = 3073 + c / 128 := by
    intro b
    have hg : Geometry (s.write (2080 + c / 128) b) := ⟨h.volumeStart, h.reserved, h.fatSectors,
      h.dataStart, h.rootCluster, h.fatCount, h.sectorsPerCluster⟩
    rw [hg.fatLba]
  rw [fatSet, h.fatCount, show range 2 = [0, 1] from rfl, foldl_cons, foldl_cons, foldl_nil, hpos, h0, h1]
  congr 2
  exact update_of_ne (by omega) _ _

/-- Setting an entry of the table, in both copies. -/
theorem fatSet_spec (h : Layout s) (hc : c < 127008) {v : ℕ} (hv : v < 2 ^ 32) :
    Updates s (fatSet s c v) (update s.fat c v) s.sector s.nextCluster s.freeClusters := by
  rw [fatSet_eq h.toGeometry]
  have hwrites : Store.Writes InHome s.disk _ :=
    .write (.single (show InHome (2080 + c / 128) by rw [InHome, homeStart, varStart]; omega)
      (w32 (s.disk (2080 + c / 128)) (c % 128 * 4) v))
      (show InHome (3073 + c / 128) by rw [InHome, homeStart, varStart]; omega)
      (w32 (s.disk (3073 + c / 128)) (c % 128 * 4) v)
  generalize hs' : (s.write (2080 + c / 128) _).write (3073 + c / 128) _ = s'
  have hcopy : s'.disk (3073 + c / 128) = w32 (s.disk (3073 + c / 128)) (c % 128 * 4) v := by
    rw [← hs']
    exact update_self ..
  have hfirst : s'.disk (2080 + c / 128) = w32 (s.disk (2080 + c / 128)) (c % 128 * 4) v := by
    rw [← hs']
    exact (update_of_ne (by omega) _ _).trans (update_self ..)
  have hother : ∀ {lba}, lba ≠ 2080 + c / 128 → lba ≠ 3073 + c / 128 → s'.disk lba = s.disk lba := by
    intro lba h0 h1
    rw [← hs']
    exact (update_of_ne h1 _ _).trans (update_of_ne h0 _ _)
  have hfat : s'.fat = update s.fat c v := by
    funext c'
    rw [update_apply, State.fat, State.fat]
    by_cases hlt : c' < 127008
    · rw [if_pos hlt, if_pos hlt]
      by_cases hsec : c' / 128 = c / 128
      · rw [hsec, hfirst]
        by_cases hcc : c' = c
        · rw [if_pos hcc, hcc]
          exact readLE_writeLE_of_lt _ hv
        · rw [if_neg hcc]
          exact readLE_writeLE_of_disjoint _ (by omega)
      · rw [hother (by omega) (by omega), if_neg (by rintro rfl; exact hsec rfl)]
    · rw [if_neg hlt, if_neg hlt, if_neg (by omega)]
  have hsector : s'.sector = s.sector := by
    funext c'
    rw [State.sector, State.sector]
    split
    · exact hother (by omega) (by omega)
    · rfl
  rw [← hfat, ← hsector]
  refine h.updates (by rw [← hs']; rfl) (hs' ▸ hwrites) (hother (by omega) (by omega))
    ((hother (by omega) (by omega)).trans h.info) ((hother (by omega) (by omega)).trans h.infoCopy)
    fun i hi => ?_
  -- the sector of the entry is written alike in both copies
  by_cases hic : i = c / 128
  · rw [hic, hcopy, hfirst, h.copies _ (by omega)]
  · rw [hother (by omega) (by omega), hother (by omega) (by omega)]
    exact h.copies i hi

/-- Updates one after another. -/
theorem Updates.trans {s₁ s₂ s₃ : State} {fat fat' : ℕ → ℕ} {sector sector' : ℕ → Sector}
    {next next' free free' : ℕ} (h : Updates s₁ s₂ fat sector next free)
    (h' : Updates s₂ s₃ fat' sector' next' free') : Updates s₁ s₃ fat' sector' next' free' :=
  ⟨h'.layout, h'.fat, h'.sector, h'.nextCluster, h'.freeClusters, h'.mounted.trans h.mounted,
    h'.formatted.trans h.formatted, h.writes.trans h'.writes⟩

/-- Setting the hint and the count, in memory and on the disk. -/
theorem fsinfoUpdate_spec (h : Layout s) (next free : ℕ) :
    Updates s (fsinfoUpdate { s with nextCluster := next, freeClusters := free }) s.fat s.sector next
      free := by
  have hvs := h.volumeStart
  have hhome : ∀ k < 8, InHome (s.volumeStart + k) := by
    intro k hk
    rw [hvs, InHome, homeStart, varStart]
    omega
  have hwrites : Store.Writes InHome s.disk
      (fsinfoUpdate { s with nextCluster := next, freeClusters := free }).disk :=
    .write (.single (hhome 1 (by decide)) _) (hhome 7 (by decide)) _
  generalize hs' : fsinfoUpdate { s with nextCluster := next, freeClusters := free } = s' at hwrites
  have hother : ∀ {lba}, lba ≠ 2049 → lba ≠ 2055 → s'.disk lba = s.disk lba := by
    intro lba h0 h1
    rw [← hs']
    exact (update_of_ne (by simp only [hvs]; omega) _ _).trans
      (update_of_ne (by simp only [hvs]; omega) _ _)
  have hcopy : s'.disk 2055 = infoSector free next := by
    rw [← hs', show 2055 = s.volumeStart + 7 by omega]
    exact update_self ..
  have hinfo : s'.disk 2049 = infoSector free next := by
    rw [← hs', show 2049 = s.volumeStart + 1 by omega]
    exact (update_of_ne (by simp) _ _).trans (update_self ..)
  have hfat : s'.fat = s.fat := by
    funext c'
    rw [State.fat, State.fat]
    split
    · rw [hother (by omega) (by omega)]
    · rfl
  have hsector : s'.sector = s.sector := by
    funext c'
    rw [State.sector, State.sector]
    split
    · exact hother (by omega) (by omega)
    · rfl
  rw [← hfat, ← hsector]
  refine h.updates (by rw [← hs']; rfl) hwrites (hother (by decide) (by decide)) hinfo hcopy fun i hi => ?_
  rw [hother (by omega) (by omega), hother (by omega) (by omega)]
  exact h.copies i hi

/-! ### Allocation -/

theorem findFree_eq_some (h : findFree s = some c) :
    s.nextCluster ≤ c ∧ c < maxCluster s ∧ fatGet s c = 0 ∧ ∀ a, s.nextCluster ≤ a → a < c → fatGet s a ≠ 0 := by
  obtain ⟨hfree, hmem, hbefore⟩ := find?_range'_eq_some.mp h
  have hmem := mem_range'_1.mp hmem
  refine ⟨hmem.1, by omega, of_decide_eq_true hfree, fun a ha hac => ?_⟩
  simpa using hbefore a ha hac

theorem findFree_eq_none (h : findFree s = none) (hc : s.nextCluster ≤ c) (hc' : c < maxCluster s) :
    fatGet s c ≠ 0 := by
  have hused := find?_eq_none.mp h c (mem_range'_1.mpr ⟨hc, by omega⟩)
  simpa using hused

/-- What `allocate` does when it finds a cluster. -/
theorem allocate_spec (h : Layout s) (hnext : 2 ≤ s.nextCluster) (hfind : findFree s = some c) :
    (allocate s).2 = c ∧ Updates s (allocate s).1 (update s.fat c 0x0fffffff)
      (update s.sector c zero) (c + 1) (s.freeClusters - 1) := by
  obtain ⟨hle, hlt, -, -⟩ := findFree_eq_some hfind
  rw [h.maxCluster] at hlt
  simp only [allocate, hfind]
  refine ⟨trivial, ?_⟩
  have hset := fatSet_spec h hlt (show 0x0fffffff < 2 ^ 32 by decide)
  generalize fatSet s c 0x0fffffff = s₁ at hset
  have hcount : (if s₁.freeClusters ≠ 0 then s₁.freeClusters - 1 else s₁.freeClusters) = s.freeClusters - 1 := by
    rw [hset.freeClusters]
    split <;> omega
  rw [hcount]
  have hinfo := fsinfoUpdate_spec hset.layout (c + 1) (s.freeClusters - 1)
  have hwrite := write_spec hinfo.layout (c := c) (by omega) hlt zero
  rw [hinfo.fat, hset.fat, hinfo.sector, hset.sector, hinfo.nextCluster, hinfo.freeClusters] at hwrite
  exact (hset.trans hinfo).trans hwrite

/-- When it finds none it changes nothing. -/
theorem allocate_none (hfind : findFree s = none) : allocate s = (s, 0) := by
  simp only [allocate, hfind]

end OS64.Fat
