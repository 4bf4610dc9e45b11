import OS64.Fat.Invariant
import OS64.Lib.Loops

/-!
# Formatting and mounting

A new volume satisfies the invariant, with the root as its only directory
(`OS64.Fat.diskFormat_inv`), whatever was on the disk before. And nothing that
matters lives in the variables of the driver alone: on a volume with the
invariant `disk_init` reads back the geometry, the hint and the count as they are
(`OS64.Fat.diskInit_of_layout`).
-/

namespace OS64.Fat

open Function ByteMem Finset

/-! ### Formatting -/

/-- The sectors of an empty table. -/
def emptyTable (i : ℕ) : Sector := if i = 0 then tableHead else zero

/-- The state with the sectors from `base` on overwritten by an empty table. -/
def State.withTable (s : State) (base n : ℕ) : State :=
  { s with disk := fun lba =>
      if base ≤ lba ∧ lba < base + n then emptyTable (lba - base) else s.disk lba }

section

variable (s : State)

theorem formatTable_eq (f : ℕ) : formatTable s f = s.withTable (homeStart + 32 + f * s.fatSectors) s.fatSectors := by
  rw [State.withTable, ← Loops.foldl_update, formatTable]
  refine List.foldl_hom (fun d : Disk => { s with disk := d }) fun d i => ?_
  rfl

/-- The disk of a new volume. -/
theorem diskFormat_eq : diskFormat s =
    { (((formatBoot s).withTable 2080 993).withTable 3073 993).write 4066 newRoot with
      formatted := true, mounted := true, label := volumeLabel } := by
  have htables : (List.range 2).foldl formatTable (formatBoot s) =
      ((formatBoot s).withTable 2080 993).withTable 3073 993 := by
    rw [show List.range 2 = [0, 1] from rfl, List.foldl_cons, List.foldl_cons, List.foldl_nil,
      formatTable_eq, formatTable_eq]
    rfl
  have hgeometry : Geometry (((formatBoot s).withTable 2080 993).withTable 3073 993) :=
    ⟨rfl, rfl, rfl, rfl, rfl, rfl, rfl⟩
  rw [diskFormat, htables, hgeometry.clusterLba (by decide)]

theorem diskFormat_boot {lba : ℕ} (h : lba < 2080) : (diskFormat s).disk lba = (formatBoot s).disk lba := by
  rw [diskFormat_eq]
  simp only [State.write, State.withTable]
  rw [update_of_ne (by omega), if_neg (by omega), if_neg (by omega)]

theorem diskFormat_table {i : ℕ} (h : i < 993) : (diskFormat s).disk (2080 + i) = emptyTable i := by
  rw [diskFormat_eq]
  simp only [State.write, State.withTable]
  rw [update_of_ne (by omega), if_neg (by omega), if_pos (by omega), Nat.add_sub_cancel_left]

theorem diskFormat_copy {i : ℕ} (h : i < 993) : (diskFormat s).disk (3073 + i) = emptyTable i := by
  rw [diskFormat_eq]
  simp only [State.write, State.withTable]
  rw [update_of_ne (by omega), if_pos (by omega), Nat.add_sub_cancel_left]

/-- A new volume has the layout. -/
theorem diskFormat_layout : Layout (diskFormat s) where
  volumeStart := by rw [diskFormat_eq]; rfl
  reserved := by rw [diskFormat_eq]; rfl
  fatSectors := by rw [diskFormat_eq]; rfl
  dataStart := by rw [diskFormat_eq]; rfl
  rootCluster := by rw [diskFormat_eq]; rfl
  fatCount := by rw [diskFormat_eq]; rfl
  sectorsPerCluster := by rw [diskFormat_eq]; rfl
  partition := diskFormat_boot s (by decide)
  boot := diskFormat_boot s (by decide)
  info := by
    rw [diskFormat_boot s (by decide), diskFormat_eq]
    rfl
  infoCopy := by
    rw [diskFormat_boot s (by decide), diskFormat_eq]
    rfl
  copies i hi := by rw [diskFormat_copy s hi, diskFormat_table s hi]

/-- Only the root has an entry in the table. -/
theorem diskFormat_fat {c : ℕ} (hc : InRange c) : (diskFormat s).fat c = if c = 2 then 0x0fffffff else 0 := by
  obtain ⟨hge, hlt⟩ := hc
  rw [State.fat, if_pos hlt, diskFormat_table s (show c / 128 < 993 by omega), emptyTable]
  have hhead : ∀ c < 128, 2 ≤ c → r32 tableHead (c * 4) = if c = 2 then 0x0fffffff else 0 := by
    decide +kernel
  split
  · rw [show c % 128 = c by omega]
    exact hhead c (by omega) hge
  · rw [if_neg (by omega)]
    exact readLE_eq_zero fun _ _ _ => rfl

theorem diskFormat_root : (diskFormat s).sector 2 = newRoot := by
  rw [State.sector, if_pos le_rfl, diskFormat_eq]
  simp only [State.write]
  rw [update_self]

/-- In a new volume the label is the only entry. -/
theorem diskFormat_holds {d i : ℕ} {e : Entry}
    (h : (diskFormat s).volume.Holds {2} d i e) : d = 2 ∧ i = 0 ∧ e = ⟨volumeLabel, 8, 0, 0⟩ := by
  obtain ⟨rfl, -, he, -⟩ := h
  rw [volume_dir, diskFormat_root, entry_newRoot, update_apply] at he
  split at he
  · exact ⟨rfl, ‹_›, (Option.some.inj he).symm⟩
  · simp at he

/-- In a new volume nothing is linked. -/
theorem diskFormat_links {a b : ℕ} : ¬(diskFormat s).volume.Links a b := by
  rintro ⟨ha, hfat, hne, hend⟩
  rw [volume_fat, diskFormat_fat s ha] at hfat
  split at hfat
  · rw [← hfat, endOfChain] at hend
    omega
  · exact hne hfat.symm

theorem freeCount_diskFormat : freeCount (diskFormat s).fat = 127005 := by
  have hfilter : (Ico 2 127008).filter (fun c => (diskFormat s).fat c = 0) = Ico 3 127008 := by
    ext c
    rw [mem_filter, mem_Ico, mem_Ico]
    constructor
    · rintro ⟨hc, hfree⟩
      rw [diskFormat_fat s hc] at hfree
      split at hfree
      · simp at hfree
      · omega
    · rintro ⟨hge, hlt⟩
      refine ⟨⟨by omega, hlt⟩, ?_⟩
      rw [diskFormat_fat s ⟨by omega, hlt⟩, if_neg (by omega)]
  rw [freeCount, Counting.count, hfilter, Nat.card_Ico]

/-- **A new volume** satisfies the invariant; its only directory is the root. -/
theorem diskFormat_inv : Inv (diskFormat s) {2} := by
  have hused : (diskFormat s).fat 2 ≠ 0 := by
    rw [diskFormat_fat s ⟨le_rfl, by decide⟩, if_pos rfl]
    decide
  refine ⟨diskFormat_layout s, ⟨rfl, ?_, ?_, ?_, ?_, ?_, ?_, ?_⟩, ?_, ?_, ?_, ?_⟩
  · rintro d rfl
    exact ⟨⟨le_rfl, by decide⟩, hused⟩
  · intro c hc
    rw [volume_fat, diskFormat_fat s hc]
    split <;> decide
  · rintro d rfl j hj k hk e f he hf -
    rw [volume_dir, diskFormat_root, entry_newRoot, update_apply] at he hf
    split at he
    · split at hf
      · rename_i hj0 hk0
        rw [hj0, hk0]
      · simp at hf
    · simp at he
  · intro d i e he hne
    obtain ⟨-, -, rfl⟩ := diskFormat_holds s he
    exact absurd rfl hne
  · intro d i e he _
    obtain ⟨-, -, rfl⟩ := diskFormat_holds s he
    exact ⟨by decide, rfl⟩
  · intro d i e d' i' e' he _ _ hne
    obtain ⟨-, -, rfl⟩ := diskFormat_holds s he
    exact absurd rfl hne
  · intro a b hab
    exact absurd hab (diskFormat_links s)
  · rw [diskFormat_eq]
    exact le_rfl
  · rw [diskFormat_eq]
    exact (by decide : 3 ≤ 127008)
  · intro c hc hlt
    rw [diskFormat_eq] at hlt
    have hlt' : c < 3 := hlt
    obtain rfl : c = 2 := by omega
    exact hused
  · rw [freeCount_diskFormat, diskFormat_eq]
    rfl

end

/-! ### Mounting -/

theorem r32_infoSector (free next : ℕ) : r32 (infoSector free next) 488 = free % 2 ^ 32 ∧
    r32 (infoSector free next) 492 = next % 2 ^ 32 := by
  rw [infoSector, r32, r32]
  simp only [w32]
  constructor
  · rw [readLE_writeLE_of_disjoint _ (by omega), readLE_writeLE_of_disjoint _ (by omega)]
    exact readLE_writeLE_same _ 4 488 free
  · rw [readLE_writeLE_of_disjoint _ (by omega)]
    exact readLE_writeLE_same _ 4 492 next

theorem Inv.freeClusters_lt {s : State} {D : Set ℕ} (h : Inv s D) : s.freeClusters < 2 ^ 32 := by
  have hcard := Counting.count_le_card (S := Ico 2 127008) (f := s.fat) (P := (· = 0))
  rw [Nat.card_Ico] at hcard
  rw [h.count, freeCount]
  omega

/-- What the boot sector says. -/
theorem bootSector_fields : r16 bootSector 14 = 32 ∧ r32 bootSector 36 = 993 ∧
    r32 bootSector 44 = 2 ∧ (bootSector 16).toNat = 2 ∧ (bootSector 13).toNat = 1 ∧
    bytes bootSector 71 11 = volumeLabel := by
  decide +kernel

/-- **`disk_init` on a disk with the boot area of the volume**: the geometry is
that of the boot sector, the hint and the count come from the FSInfo sector. -/
theorem diskInit_eq {s : State} (hpartition : s.disk 0 = partitionTable)
    (hboot : s.disk 2048 = bootSector) : diskInit s = { s with
      volumeStart := 2048, reserved := 32, fatSectors := 993, dataStart := 2018, rootCluster := 2
      fatCount := 2, sectorsPerCluster := 1, label := volumeLabel
      freeClusters := r32 (s.disk 2049) 488
      nextCluster := if r32 (s.disk 2049) 492 < 3 ∨ r32 (s.disk 2049) 492 = 0xffffffff then 3
        else r32 (s.disk 2049) 492
      formatted := true, mounted := false } := by
  rw [diskInit]
  simp only [hpartition]
  rw [if_neg (by decide), show r32 partitionTable 454 = 2048 by decide +kernel]
  simp only [hboot]
  obtain ⟨hreserved, htables, hroot, hcount, hcluster, hlabel⟩ := bootSector_fields
  rw [if_neg (by decide +kernel), hreserved, htables, hroot, hcount, hcluster, hlabel,
    show (32 + 2 * 993) % 2 ^ 32 = 2018 from rfl]

/-- **`disk_init` finds in the FSInfo sector what the driver has put there**, and
nothing of the variables before is left. -/
theorem diskInit_of_layout {s t : State} (h : Layout s) (hfree : s.freeClusters < 2 ^ 32)
    (hge : 3 ≤ s.nextCluster) (hle : s.nextCluster ≤ 127008) (hdisk : t.disk = s.disk) :
    diskInit t = { s with label := volumeLabel, formatted := true, mounted := false } := by
  obtain ⟨hinfoFree, hinfoNext⟩ := r32_infoSector s.freeClusters s.nextCluster
  rw [Nat.mod_eq_of_lt hfree] at hinfoFree
  rw [Nat.mod_eq_of_lt (by omega)] at hinfoNext
  rw [diskInit_eq (hdisk ▸ h.partition) (hdisk ▸ h.boot), hdisk, h.info, hinfoFree, hinfoNext, if_neg (by omega)]
  simp only [h.volumeStart, h.reserved, h.fatSectors, h.dataStart, h.rootCluster, h.fatCount, h.sectorsPerCluster]

end OS64.Fat
