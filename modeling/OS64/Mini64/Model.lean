import OS64.Fat.Model

/-!
# The recovery kernel's FAT32 driver

`mini64/kernel.c` has a FAT32 driver of its own, for the volume that the other
kernel mounts at `/home`: it formats the disk (`fat_format`) and mounts it (`fat_init`).
The disk is reliable, as in `OS64.Fat.Model`; the progress bars are left out.

The helpers of the two drivers that have the same text are not defined again:
`zero`, `r16`, `r32`, `w16`, `w32` and the reading of a directory entry are those
of `OS64.Fat`. Everything that depends on the variables is here, since the
variables are others. They start as zeros, not with the geometry that the other
driver starts with, and there is no count of free clusters.
-/

namespace OS64.Mini64

open ByteMem Fat

/-! ### State -/

/-- The disk and the variables of the driver. -/
structure State where
  disk : Disk
  volStart : ℕ
  reserved : ℕ
  fatSectors : ℕ
  dataStart : ℕ
  rootCluster : ℕ
  nextFreeCluster : ℕ
  sectorsPerCluster : ℕ
  fatCount : ℕ
  fatMounted : Bool

/-- The variables as they are initialised. -/
def State.initial (disk : Disk) : State where
  disk := disk
  volStart := 0
  reserved := 0
  fatSectors := 0
  dataStart := 0
  rootCluster := 0
  nextFreeCluster := 3
  sectorsPerCluster := 0
  fatCount := 0
  fatMounted := false

/-- `disk_write`. -/
def State.write (s : State) (lba : ℕ) (b : Sector) : State :=
  { s with disk := Function.update s.disk lba b }

/-- `cluster_lba`. -/
def clusterLba (s : State) (c : ℕ) : ℕ :=
  (s.volStart + s.dataStart + (c + (2 ^ 32 - 2)) % 2 ^ 32 * s.sectorsPerCluster) % 2 ^ 32

/-! ### Mounting and formatting -/

/-- `fat_init`. A hint below 3 is not taken, all others are. -/
def fatInit (s : State) : State × Bool :=
  let b := s.disk 0
  if b 510 ≠ 0x55 ∨ b 511 ≠ 0xaa then (s, false)
  else if b 450 ≠ 0x0c ∧ b 450 ≠ 0x0b then (s, false)
  else
    let s := { s with volStart := r32 b 454 }
    let b := s.disk s.volStart
    if b 510 ≠ 0x55 ∨ b 511 ≠ 0xaa then (s, false)
    else if r16 b 11 ≠ 512 ∨ r32 b 82 ≠ 0x33544146 then (s, false)
    else
      let hint := r32 (s.disk (s.volStart + 1)) 492
      ({ s with
        sectorsPerCluster := (b 13).toNat
        reserved := r16 b 14
        fatCount := (b 16).toNat
        fatSectors := r32 b 36
        rootCluster := r32 b 44
        dataStart := (r16 b 14 + (b 16).toNat * r32 b 36) % 2 ^ 32
        nextFreeCluster := if 3 ≤ hint then hint else 3
        fatMounted := true }, true)

/-- The partition table. -/
def partitionTable : Sector :=
  w8 (w8 (w32 (w32 (w8 (w32 (w32 (w8 zero 450 0x0c) 454 homeStart) 458 homeSectors) 466 0x7f)
    470 (homeStart + homeSectors)) 474 131072) 510 0x55) 511 0xaa

/-- The boot sector of the volume. -/
def bootSector : Sector :=
  let b := store zero 0 [0xeb, 0x58, 0x90]
  let b := store b 3 (chars ['O', 'S', '6', '4', 'F', 'A', 'T', ' '])
  let b := w16 b 11 512
  let b := w8 b 13 1
  let b := w16 b 14 32
  let b := w8 b 16 2
  let b := w8 b 21 0xf8
  let b := w16 (w16 b 24 63) 26 16
  let b := w32 (w32 b 28 homeStart) 32 homeSectors
  let b := w32 (w32 b 36 993) 44 2
  let b := w16 (w16 b 48 1) 50 6
  let b := w8 (w8 b 64 0x80) 66 0x29
  let b := w32 b 67 0x64060001
  let b := store b 71 (chars ['O', 'S', '6', '4', ' ', 'H', 'O', 'M', 'E', ' ', ' '])
  let b := store b 82 (chars ['F', 'A', 'T', '3', '2', ' ', ' ', ' '])
  w8 (w8 b 510 0x55) 511 0xaa

/-- The FSInfo sector. -/
def infoSector : Sector :=
  w32 (w32 (w32 (w32 (w32 zero 0 0x41615252) 484 0x61417272) 488 126997) 492 3) 508 0xaa550000

/-- The first sector of a table. -/
def tableHead : Sector := w32 (w32 (w32 zero 0 0x0ffffff8) 4 0xffffffff) 8 0x0fffffff

/-- The root directory of a new volume. -/
def newRoot : Sector :=
  w8 (store zero 0 (chars ['O', 'S', '6', '4', ' ', 'H', 'O', 'M', 'E', ' ', ' '])) 11 8

/-- The loop of `fat_format` that writes copy `f` of the table. -/
def formatTable (s : State) (f : ℕ) : State :=
  (List.range 993).foldl (fun s i =>
    s.write (homeStart + 32 + f * 993 + i) (if i = 0 then tableHead else zero)) s

/-- `fat_format`. The root directory is written before the variables are set, so
where it goes is up to what they were. -/
def fatFormat (s : State) : State × Bool :=
  let s := s.write 0 partitionTable
  let s := (s.write homeStart bootSector).write (homeStart + 6) bootSector
  let s := (s.write (homeStart + 1) infoSector).write (homeStart + 7) infoSector
  let s := (List.range 2).foldl formatTable s
  let s := s.write (clusterLba s 2) newRoot
  ({ s with
    volStart := homeStart, reserved := 32, fatCount := 2, fatSectors := 993
    sectorsPerCluster := 1, rootCluster := 2, dataStart := 2018, nextFreeCluster := 3
    fatMounted := true }, true)

end OS64.Mini64
