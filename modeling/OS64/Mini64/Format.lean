import OS64.Fat.Run
import OS64.Mini64.Model

/-!
# Two formatters, one volume

Both kernels can format the disk, and both mount what they find there. This
module compares the four functions: `OS64.Mini64.Mountable` says what a formatted
disk should be, for whatever is in the variables of the two drivers when they
mount it.

The kernel's `disk_format` always leaves such a disk. `fat_format` never does: the
count of free clusters it puts into the FSInfo sector, 126997, is not the number
of zeros in the table it writes, 127005
(`OS64.Mini64.fatFormat_count`). Apart from the count, all is well exactly if the
root directory goes where it belongs. It is written while the variables still say
where the volume was before, and after a start they say that it is sector 0: the
partition table is lost. `OS64.Mini64.RootSafe` is the exact condition.
-/

namespace OS64.Mini64

open Function ByteMem Fat Finset

/-! ### A disk for both drivers -/

/-- The geometry that both drivers read from the boot sector. -/
structure Shape where
  volumeStart : ℕ
  reserved : ℕ
  fatCount : ℕ
  fatSectors : ℕ
  sectorsPerCluster : ℕ
  rootCluster : ℕ
  deriving DecidableEq

/-- The geometry in the variables of the kernel. -/
def kernelShape (s : Fat.State) : Shape :=
  ⟨s.volumeStart, s.reserved, s.fatCount, s.fatSectors, s.sectorsPerCluster, s.rootCluster⟩

/-- The geometry in the variables of Mini64. -/
def State.shape (s : State) : Shape :=
  ⟨s.volStart, s.reserved, s.fatCount, s.fatSectors, s.sectorsPerCluster, s.rootCluster⟩

/-- The kernel mounts `disk`. -/
def kernelInit (disk : Disk) (k : Fat.State) : Fat.State := diskInit { k with disk := disk }

/-- Mini64 mounts `disk`. -/
def miniInit (disk : Disk) (m : State) : State × Bool := fatInit { m with disk := disk }

/-- The directory has the volume label and nothing else. -/
def LabelOnly (r : Sector) : Prop :=
  ∃ i < 16, entryName r i = volumeLabel ∧ entryAttr r i = 8 ∧ ∀ j < 16, entryLive r j = true ↔ j = i

/-- Both drivers mount the disk and agree on its geometry, and the volume is empty;
`k` and `m` are the variables of the drivers before. -/
structure Mounts (disk : Disk) (k : Fat.State) (m : State) : Prop where
  partition : disk 0 510 = 0x55 ∧ disk 0 511 = 0xaa ∧ disk 0 450 = 0x0c ∧
    r32 (disk 0) 454 = homeStart ∧ r32 (disk 0) 458 = homeSectors
  kernel : (kernelInit disk k).formatted = true
  mini : (miniInit disk m).2 = true
  shape : kernelShape (kernelInit disk k) = (miniInit disk m).1.shape
  /-- Every entry of each copy of the table is zero, but those of 0, 1 and the
  root. -/
  entries : ∀ f < (kernelInit disk k).fatCount, ∀ c < (kernelInit disk k).fatSectors * 128,
    c ≠ 0 → c ≠ 1 → c ≠ (kernelInit disk k).rootCluster → fatEntry (kernelInit disk k) f c = 0
  root : LabelOnly (dirRead (kernelInit disk k) (kernelInit disk k).rootCluster)

/-- What a formatted disk should be: both drivers mount it, and the FSInfo sector
has the number of zeros in the table. -/
structure Mountable (disk : Disk) (k : Fat.State) (m : State) : Prop extends Mounts disk k m where
  count : r32 (disk ((kernelInit disk k).volumeStart + 1)) 488 = freeEntries (kernelInit disk k)

/-! ### Mounting -/

variable {disk : Disk} {k : Fat.State} {m : State}

section

variable (hpartition : disk 0 = Fat.partitionTable)
include hpartition

section

variable (hboot : disk 2048 = Fat.bootSector)
include hboot

theorem kernelInit_geometry :
    Geometry (kernelInit disk k) ∧ (kernelInit disk k).disk = disk ∧ (kernelInit disk k).formatted = true := by
  rw [kernelInit, diskInit_eq hpartition hboot]
  exact ⟨⟨rfl, rfl, rfl, rfl, rfl, rfl, rfl⟩, rfl, rfl⟩

theorem fatInit_eq :
    miniInit disk m = ({ m with
      disk := disk, volStart := 2048, reserved := 32, fatSectors := 993, dataStart := 2018
      rootCluster := 2, fatCount := 2, sectorsPerCluster := 1
      nextFreeCluster := if 3 ≤ r32 (disk 2049) 492 then r32 (disk 2049) 492 else 3
      fatMounted := true }, true) := by
  rw [miniInit, fatInit]
  simp only [hpartition]
  rw [if_neg (by decide), if_neg (by decide), show r32 Fat.partitionTable 454 = 2048 by decide +kernel]
  simp only [hboot]
  obtain ⟨hreserved, htables, hroot, hcount, hcluster, -⟩ := bootSector_fields
  rw [if_neg (by decide +kernel), if_neg (by decide +kernel), hreserved, htables, hroot, hcount,
    hcluster, show (32 + 2 * 993) % 2 ^ 32 = 2018 from rfl]

/-- **A disk with the boot area of the volume** is mounted by both; what is left to
look at are the tables and the root directory. -/
theorem mounts_iff :
    Mounts disk k m ↔ (∀ f < 2, ∀ c < 127104, 3 ≤ c →
      r32 (disk (2080 + f * 993 + c / 128)) (c % 128 * 4) = 0) ∧ LabelOnly (disk 4066) := by
  obtain ⟨hgeometry, hdisk, hformatted⟩ := kernelInit_geometry (k := k) hpartition hboot
  have hentry : ∀ f c, fatEntry (kernelInit disk k) f c = r32 (disk (2080 + f * 993 + c / 128)) (c % 128 * 4) := by
    intro f c
    rw [fatEntry, hgeometry.fatLba, hdisk, show c * 4 % 512 = c % 128 * 4 by omega]
  have hroot : dirRead (kernelInit disk k) (kernelInit disk k).rootCluster = disk 4066 := by
    rw [dirRead, hgeometry.rootCluster, hgeometry.clusterLba (by decide), hdisk]
  constructor
  · intro h
    refine ⟨fun f hf c hc hc3 => ?_, hroot ▸ h.root⟩
    rw [← hentry]
    refine h.entries f ?_ c ?_ (by omega) (by omega) ?_
    · rw [hgeometry.fatCount]
      exact hf
    · rw [hgeometry.fatSectors]
      exact hc
    · rw [hgeometry.rootCluster]
      omega
  · rintro ⟨hentries, hlabel⟩
    refine ⟨?_, hformatted, ?_, ?_, fun f hf c hc h0 h1 h2 => ?_, hroot ▸ hlabel⟩
    · rw [hpartition]
      decide +kernel
    · rw [fatInit_eq hpartition hboot]
    · rw [fatInit_eq hpartition hboot, kernelShape, hgeometry.volumeStart, hgeometry.reserved,
        hgeometry.fatCount, hgeometry.fatSectors, hgeometry.sectorsPerCluster, hgeometry.rootCluster]
      rfl
    · rw [hgeometry.fatCount] at hf
      rw [hgeometry.fatSectors] at hc
      rw [hgeometry.rootCluster] at h2
      rw [hentry]
      exact hentries f hf c hc (by omega)

end

end

/-! ### The kernel's formatter -/

theorem labelOnly_newRoot : LabelOnly Fat.newRoot := by
  refine ⟨0, by decide, by decide +kernel, by decide +kernel, ?_⟩
  decide +kernel

theorem r32_emptyTable {c : ℕ} (hc : 3 ≤ c) : r32 (emptyTable (c / 128)) (c % 128 * 4) = 0 := by
  have hhead : ∀ c < 128, 3 ≤ c → r32 Fat.tableHead (c * 4) = 0 := by decide +kernel
  rw [emptyTable]
  split
  · rw [show c % 128 = c by omega]
    exact hhead c (by omega) hc
  · exact readLE_eq_zero fun _ _ _ => rfl

/-- The zeros of the table depend on the disk only. -/
theorem freeEntries_congr {s s' : Fat.State} (h : Geometry s) (h' : Geometry s')
    (hdisk : s.disk = s'.disk) : freeEntries s = freeEntries s' := by
  rw [freeEntries, freeEntries, h.maxCluster, h'.maxCluster]
  congr 1
  refine filter_congr fun c _ => ?_
  rw [fatEntry, fatEntry, h.fatLba, h'.fatLba, hdisk]

/-- **A disk formatted by the kernel** is as it should be. -/
theorem diskFormat_mountable (s : Fat.State) : Mountable (diskFormat s).disk k m := by
  have hlayout := diskFormat_layout s
  have hinv := diskFormat_inv s
  obtain ⟨hgeometry, hdisk, -⟩ := kernelInit_geometry (k := k) hlayout.partition hlayout.boot
  have hmounts : Mounts (diskFormat s).disk k m := by
    refine (mounts_iff hlayout.partition hlayout.boot).mpr ⟨fun f hf c hc hc3 => ?_, ?_⟩
    · have hlt : c / 128 < 993 := by omega
      obtain rfl | rfl : f = 0 ∨ f = 1 := by omega
      · rw [show 2080 + 0 * 993 + c / 128 = 2080 + c / 128 by omega, diskFormat_table s hlt]
        exact r32_emptyTable hc3
      · rw [show 2080 + 1 * 993 + c / 128 = 3073 + c / 128 by omega, diskFormat_copy s hlt]
        exact r32_emptyTable hc3
    · have hroot := diskFormat_root s
      rw [State.sector, if_pos le_rfl] at hroot
      rw [hroot]
      exact labelOnly_newRoot
  refine ⟨hmounts, ?_⟩
  obtain ⟨hfree, -⟩ := r32_infoSector (diskFormat s).freeClusters (diskFormat s).nextCluster
  rw [Nat.mod_eq_of_lt hinv.freeClusters_lt] at hfree
  rw [hgeometry.volumeStart, freeEntries_congr hgeometry hlayout.toGeometry hdisk,
    hlayout.toGeometry.freeEntries, ← hinv.count, hlayout.info, hfree]

/-! ### Mini64's formatter -/

/-- Where `fat_format` writes the root directory. -/
theorem clusterLba_two (s : State) : clusterLba s 2 = (s.volStart + s.dataStart) % 2 ^ 32 := by
  rw [clusterLba, show (2 + (2 ^ 32 - 2)) % 2 ^ 32 = 0 from rfl, Nat.zero_mul, add_zero]

/-- A table is written, and nothing else changes. -/
theorem formatTable_eq (s : State) (f : ℕ) : formatTable s f =
    { s with
      disk := fun lba => if 2080 + f * 993 ≤ lba ∧ lba < 2080 + f * 993 + 993 then
          emptyTable (lba - (2080 + f * 993))
        else s.disk lba } := by
  rw [← Loops.foldl_update, formatTable, show homeStart + 32 = 2080 from rfl]
  generalize List.range 993 = sectors
  refine List.foldl_hom (fun d : Disk => { s with disk := d }) fun d i => ?_
  rfl

/-- The disk before the root directory is written. -/
def bootAndTables (disk : Disk) : Disk := fun lba =>
  if 3073 ≤ lba ∧ lba < 4066 then emptyTable (lba - 3073)
  else if 2080 ≤ lba ∧ lba < 3073 then emptyTable (lba - 2080)
  else if lba = 2055 ∨ lba = 2049 then infoSector
  else if lba = 2054 ∨ lba = 2048 then bootSector
  else if lba = 0 then partitionTable
  else disk lba

theorem fatFormat_disk (s : State) : (fatFormat s).1.disk = update (bootAndTables s.disk) (clusterLba s 2) newRoot := by
  have hvars : ∀ s f, clusterLba (formatTable s f) 2 = clusterLba s 2 := by
    intro s f
    rw [formatTable_eq]
    rfl
  have hdisk : ∀ s f lba, (formatTable s f).disk lba =
      if 2080 + f * 993 ≤ lba ∧ lba < 2080 + f * 993 + 993 then emptyTable (lba - (2080 + f * 993))
      else s.disk lba := by
    intro s f lba
    rw [formatTable_eq]
  rw [fatFormat, show List.range 2 = [0, 1] from rfl]
  simp only [List.foldl_cons, List.foldl_nil, State.write]
  rw [hvars, hvars]
  refine congrArg (fun d : Disk => update d (clusterLba s 2) newRoot) ?_
  funext lba
  simp only [bootAndTables, homeStart]
  grind

/-- The root directory goes where it belongs; or what is there is the label alone
already, and the sector written in its place is not one of the partition table,
the boot sector and the tables. A table may lose its first sector: the entries of
0, 1 and 2 are overwritten. -/
def RootSafe (s : State) : Prop :=
  (s.volStart + s.dataStart) % 2 ^ 32 = 4066 ∨
    (LabelOnly (s.disk 4066) ∧ (s.volStart + s.dataStart) % 2 ^ 32 ≠ 0 ∧
      (s.volStart + s.dataStart) % 2 ^ 32 ≠ 2048 ∧
      ¬(2080 < (s.volStart + s.dataStart) % 2 ^ 32 ∧ (s.volStart + s.dataStart) % 2 ^ 32 < 3073) ∧
      ¬(3073 < (s.volStart + s.dataStart) % 2 ^ 32 ∧ (s.volStart + s.dataStart) % 2 ^ 32 < 4066))

theorem bootAndTables_table (disk : Disk) {f i : ℕ} (hf : f < 2) (hi : i < 993) :
    bootAndTables disk (2080 + f * 993 + i) = emptyTable i := by
  rw [bootAndTables]
  obtain rfl | rfl : f = 0 ∨ f = 1 := by omega
  · rw [if_neg (by omega), if_pos (by omega), show 2080 + 0 * 993 + i - 2080 = i by omega]
  · rw [if_pos (by omega), show 2080 + 1 * 993 + i - 3073 = i by omega]

/-- The label in the place of the boot sector is not accepted. -/
theorem boot_of_formatted (hpartition : disk 0 = Fat.partitionTable)
    (h : (kernelInit disk k).formatted = true) : disk 2048 510 = 0x55 := by
  rw [kernelInit, diskInit] at h
  simp only [hpartition] at h
  rw [if_neg (by decide), show r32 Fat.partitionTable 454 = 2048 by decide +kernel] at h
  by_contra hne
  simp only [if_pos (Or.inl hne)] at h
  exact Bool.noConfusion h

/-- **What Mini64 has formatted is mounted by both drivers** exactly if the root
directory went to a good place; the count of the FSInfo sector apart. -/
theorem fatFormat_mounts_iff (s : State) : Mounts (fatFormat s).1.disk k m ↔ RootSafe s := by
  rw [fatFormat_disk, clusterLba_two, RootSafe]
  generalize (s.volStart + s.dataStart) % 2 ^ 32 = root
  have hother : ∀ {lba}, lba ≠ root → update (bootAndTables s.disk) root newRoot lba =
      bootAndTables s.disk lba := fun h => update_of_ne h _ _
  have hself : update (bootAndTables s.disk) root newRoot root = newRoot := update_self ..
  generalize update (bootAndTables s.disk) root newRoot = disk at hother hself
  have hrootSector : root ≠ 4066 → disk 4066 = s.disk 4066 := fun hne => hother hne.symm
  constructor
  · intro h
    have h0 : root ≠ 0 := by
      rintro rfl
      have hsignature := h.partition.1
      rw [hself] at hsignature
      cases hsignature
    have hpartition : disk 0 = Fat.partitionTable := hother h0.symm
    have h2048 : root ≠ 2048 := by
      rintro rfl
      have hsignature := boot_of_formatted hpartition h.kernel
      rw [hself] at hsignature
      cases hsignature
    obtain ⟨hentries, hlabel⟩ := (mounts_iff hpartition (hother h2048.symm)).mp h
    -- the first entry of a sector of a table that the label overwrites
    have htable : ∀ f < 2, ¬(2080 + f * 993 < root ∧ root < 2080 + f * 993 + 993) := by
      rintro f hf ⟨hgt, hlt⟩
      have hentry := hentries f hf ((root - (2080 + f * 993)) * 128) (by omega) (by omega)
      rw [Nat.mul_div_cancel _ (by decide), Nat.mul_mod_left,
        show 2080 + f * 993 + (root - (2080 + f * 993)) = root by omega, hself] at hentry
      cases hentry
    by_cases hroot : root = 4066
    · exact Or.inl hroot
    · exact Or.inr ⟨hrootSector hroot ▸ hlabel, h0, h2048, htable 0 (by decide), htable 1 (by decide)⟩
  · intro h
    obtain ⟨h0, h2048, htable, htable'⟩ : root ≠ 0 ∧ root ≠ 2048 ∧ ¬(2080 < root ∧ root < 3073) ∧
        ¬(3073 < root ∧ root < 4066) := by
      rcases h with rfl | ⟨-, h⟩
      · decide
      · exact h
    refine (mounts_iff (hother h0.symm) (hother h2048.symm)).mpr ⟨fun f hf c hc hc3 => ?_, ?_⟩
    · by_cases hlba : 2080 + f * 993 + c / 128 = root
      · have hfirst : ∀ c < 128, 3 ≤ c → r32 newRoot (c * 4) = 0 := by decide +kernel
        rw [hlba, hself, show c % 128 = c by omega]
        exact hfirst c (by omega) hc3
      · rw [hother hlba, bootAndTables_table s.disk hf (by omega)]
        exact r32_emptyTable hc3
    · rcases h with rfl | ⟨hlabel, -⟩
      · rw [hself]
        exact labelOnly_newRoot
      · by_cases hroot : root = 4066
        · rw [← hroot, hself]
          exact labelOnly_newRoot
        · rwa [hrootSector hroot]

theorem RootSafe.boot {s : State} (h : RootSafe s) :
    (fatFormat s).1.disk 0 = Fat.partitionTable ∧ (fatFormat s).1.disk 2048 = Fat.bootSector := by
  rw [RootSafe] at h
  rw [fatFormat_disk, clusterLba_two]
  exact ⟨update_of_ne (by omega) _ _, update_of_ne (by omega) _ _⟩

/-- The FSInfo sector of `fat_format` never says more than 126997. -/
theorem fatFormat_info_le (s : State) : r32 ((fatFormat s).1.disk 2049) 488 ≤ 126997 := by
  rw [fatFormat_disk, update_apply]
  split
  · decide +kernel
  · rw [show bootAndTables s.disk 2049 = infoSector from rfl]
    decide +kernel

/-- **The table has more zeros than `fat_format` says**: the count is wrong,
whatever the variables were. -/
theorem fatFormat_count (s : State) : ¬Mountable (fatFormat s).1.disk k m := by
  intro h
  obtain ⟨hpartition, hboot⟩ := ((fatFormat_mounts_iff s).mp h.toMounts).boot
  obtain ⟨hgeometry, -, -⟩ := kernelInit_geometry (k := k) hpartition hboot
  have hzeros : Ico 3 127008 ⊆
      (Ico 2 127008).filter fun c => fatEntry (kernelInit (fatFormat s).1.disk k) 0 c = 0 := by
    intro c hc
    obtain ⟨hge, hlt⟩ := mem_Ico.mp hc
    refine mem_filter.mpr ⟨mem_Ico.mpr ⟨by omega, hlt⟩, ?_⟩
    refine h.entries 0 ?_ c ?_ (by omega) (by omega) ?_
    · rw [hgeometry.fatCount]
      decide
    · rw [hgeometry.fatSectors]
      omega
    · rw [hgeometry.rootCluster]
      omega
  have hcard := card_le_card hzeros
  have hcount := h.count
  have hle : r32 ((fatFormat s).1.disk (2048 + 1)) 488 ≤ 126997 := fatFormat_info_le s
  rw [Nat.card_Ico] at hcard
  rw [hgeometry.volumeStart, freeEntries, hgeometry.maxCluster] at hcount
  omega

/-! ### Both formatters -/

/-- A call of one of the two formatters, with the disk and the variables before. -/
inductive Formatting where
  | kernel (s : Fat.State)
  | mini64 (s : State)

/-- The disk afterwards. -/
def Formatting.result : Formatting → Disk
  | .kernel s => (diskFormat s).disk
  | .mini64 s => (fatFormat s).1.disk

/-- **A formatted disk is one for both drivers** exactly if the kernel has formatted
it. -/
theorem mountable_iff_kernel (f : Formatting) (k : Fat.State) (m : State) :
    Mountable f.result k m ↔ ∃ s, f = .kernel s := by
  cases f with
  | kernel s => exact ⟨fun _ => ⟨s, rfl⟩, fun _ => diskFormat_mountable s⟩
  | mini64 s =>
    constructor
    · intro h
      exact absurd h (fatFormat_count s)
    · rintro ⟨s', h⟩
      exact Formatting.noConfusion h

/-- Mini64 is started on a blank disk and formats it: the label overwrites the
partition table. Formatting again, the variables being right now, gives a disk with
a wrong count of free clusters. -/
theorem fatFormat_blank :
    let first := (fatFormat (State.initial fun _ => zero)).1
    (fatFormat (State.initial fun _ => zero)).2 = true ∧ first.disk 0 510 = 0 ∧
      ¬Mountable first.disk (Fat.State.initial first.disk) (State.initial first.disk) ∧
      r32 ((fatFormat first).1.disk 2049) 488 = 126997 ∧
      ¬Mountable (fatFormat first).1.disk (Fat.State.initial first.disk) (State.initial first.disk) := by
  refine ⟨rfl, ?_, fatFormat_count _, ?_, fatFormat_count _⟩
  · have hroot : clusterLba (State.initial fun _ => zero) 2 = 0 := clusterLba_two _
    rw [fatFormat_disk, hroot, update_self]
    rfl
  · rw [fatFormat_disk, update_of_ne (by decide)]
    exact (by decide +kernel : r32 infoSector 488 = 126997)

end OS64.Mini64
