import OS64.Lib.Memory

/-!
# The FAT32 volume

`kernel/drivers/disk/disk.c` on a reliable disk: sectors are read and written and
nothing fails below. The file keeps the geometry of the volume, the allocation
hint and the free count in static variables, all else on the disk: a partition
table in sector 0, the boot sector and its copy, two FSInfo sectors, two copies
of the file allocation table and the clusters, one sector each.

A sector is a memory of which only the first 512 bytes are ever touched. 32-bit
quantities are natural numbers, with the wrap-around written out where it can
happen; a path is the list of its characters.

A directory is one sector of sixteen entries of 32 bytes. `disk_read` cannot
fail here, so the branches that handle its failure are gone; every other way to
return 0 is there.
-/

namespace OS64

/-- A sector of the disk. -/
abbrev Sector := ByteMem

/-- A reliable disk: the contents of its sectors. -/
abbrev Disk := ℕ → Sector

/-- A path, or a part of one: its characters. -/
abbrev Path := List UInt8

/-- The characters of a string constant. -/
def chars (cs : List Char) : List UInt8 := cs.map fun c => UInt8.ofNat c.toNat

namespace Fat

open ByteMem List

/-! ### State -/

/-- `HOME_START`, the first sector of the volume. -/
def homeStart : ℕ := 2048

/-- `HOME_SECTORS`, the size of the volume. -/
def homeSectors : ℕ := 129024

/-- `VAR_START`, where the other partition begins. -/
def varStart : ℕ := 131072

/-- `VAR_SECTORS`. -/
def varSectors : ℕ := 131072

/-- The disk and the variables of `disk.c`. -/
structure State where
  disk : Disk
  volumeStart : ℕ
  reserved : ℕ
  fatSectors : ℕ
  dataStart : ℕ
  rootCluster : ℕ
  nextCluster : ℕ
  freeClusters : ℕ
  fatCount : ℕ
  sectorsPerCluster : ℕ
  label : List UInt8
  formatted : Bool
  mounted : Bool

/-- The variables as they are initialised. -/
def State.initial (disk : Disk) : State where
  disk := disk
  volumeStart := homeStart
  reserved := 32
  fatSectors := 993
  dataStart := 0
  rootCluster := 2
  nextCluster := 3
  freeClusters := 126997
  fatCount := 2
  sectorsPerCluster := 1
  label := chars ['u', 'n', 'f', 'o', 'r', 'm', 'a', 't', 't', 'e', 'd']
  formatted := false
  mounted := false

/-! ### Sectors -/

/-- `zero`. -/
def zero : Sector := fun _ => 0

/-- `w16`. -/
def w16 (b : Sector) (o v : ℕ) : Sector := writeLE b 2 o v

/-- `w32`. -/
def w32 (b : Sector) (o v : ℕ) : Sector := writeLE b 4 o v

/-- `r16`. -/
def r16 (b : Sector) (o : ℕ) : ℕ := readLE b 2 o

/-- `r32`. -/
def r32 (b : Sector) (o : ℕ) : ℕ := readLE b 4 o

/-- `b[o] = v`. -/
def w8 (b : Sector) (o : ℕ) (v : UInt8) : Sector := Function.update b o v

/-- `disk_write`. -/
def State.write (s : State) (lba : ℕ) (b : Sector) : State :=
  { s with disk := Function.update s.disk lba b }

/-! ### The allocation table -/

/-- `cluster_lba`; for the cluster 0 of an empty file the subtraction wraps. -/
def clusterLba (s : State) (c : ℕ) : ℕ :=
  (s.volumeStart + s.dataStart + (c + (2 ^ 32 - 2)) % 2 ^ 32 * s.sectorsPerCluster) % 2 ^ 32

/-- The sector of copy `f` of the table with the entry of cluster `c`; `c * 4` is a word of 32 bits in
the source, which the clusters of the volume do not exceed. -/
def fatLba (s : State) (f c : ℕ) : ℕ :=
  s.volumeStart + s.reserved + f * s.fatSectors + c * 4 / 512

/-- `fat_set`. -/
def fatSet (s : State) (c value : ℕ) : State :=
  (range s.fatCount).foldl (fun s f =>
    s.write (fatLba s f c) (w32 (s.disk (fatLba s f c)) (c * 4 % 512) value)) s

/-- The entry of cluster `c` in copy `f` of the table. -/
def fatEntry (s : State) (f c : ℕ) : ℕ := r32 (s.disk (fatLba s f c)) (c * 4 % 512)

/-- `fat_get`. -/
def fatGet (s : State) (c : ℕ) : ℕ := fatEntry s 0 c % 2 ^ 28

/-- The FSInfo sector for a free count and a hint. -/
def infoSector (free next : ℕ) : Sector :=
  w32 (w32 (w32 (w32 (w32 zero 0 0x41615252) 484 0x61417272) 488 free) 492 next) 508 0xaa550000

/-- `fsinfo_update`. -/
def fsinfoUpdate (s : State) : State :=
  (s.write (s.volumeStart + 1) (infoSector s.freeClusters s.nextCluster)).write (s.volumeStart + 7)
    (infoSector s.freeClusters s.nextCluster)

/-- The number of clusters, counted from 0. -/
def maxCluster (s : State) : ℕ := (homeSectors - s.dataStart) / s.sectorsPerCluster + 2

/-- The search of `allocate`. -/
def findFree (s : State) : Option ℕ :=
  (range' s.nextCluster (maxCluster s - s.nextCluster)).find? fun c => fatGet s c = 0

/-- `allocate`: the state afterwards and the cluster, 0 if there is none. -/
def allocate (s : State) : State × ℕ :=
  match findFree s with
  | none => (s, 0)
  | some c =>
    let s := fatSet s c 0x0fffffff
    let s := { s with
      nextCluster := c + 1
      freeClusters := if s.freeClusters ≠ 0 then s.freeClusters - 1 else s.freeClusters }
    let s := fsinfoUpdate s
    (s.write (clusterLba s c) zero, c)

/-! ### Formatting and mounting -/

/-- The partition table. -/
def partitionTable : Sector :=
  w8 (w8 (w32 (w32 (w8 (w32 (w32 (w8 zero 450 0x0c) 454 homeStart) 458 homeSectors) 466 0x7f)
    470 varStart) 474 varSectors) 510 0x55) 511 0xaa

/-- The volume label. -/
def volumeLabel : List UInt8 := chars ['O', 'S', '6', '4', ' ', 'H', 'O', 'M', 'E', ' ', ' ']

/-- The boot sector of the volume. -/
def bootSector : Sector :=
  let b := store zero 0 [0xeb, 0x58, 0x90]
  let b := store b 3 (chars ['O', 'S', '6', '4', 'F', 'A', 'T', ' '])
  let b := w16 b 11 512
  let b := w8 b 13 1
  let b := w16 b 14 32
  let b := w8 b 16 2
  let b := w8 b 21 0xf8
  let b := w16 (w16 b 24 63) 26 16
  let b := w32 (w32 b 28 homeStart) 32 homeSectors
  let b := w32 (w32 b 36 993) 44 2
  let b := w16 (w16 b 48 1) 50 6
  let b := w8 (w8 b 64 0x80) 66 0x29
  let b := w32 b 67 0x64060001
  let b := store b 71 volumeLabel
  let b := store b 82 (chars ['F', 'A', 'T', '3', '2', ' ', ' ', ' '])
  w8 (w8 b 510 0x55) 511 0xaa

/-- The first sector of a table: the entries of the clusters 0, 1 and 2. -/
def tableHead : Sector := w32 (w32 (w32 zero 0 0x0ffffff8) 4 0xffffffff) 8 0x0fffffff

/-- The root directory of a new volume: the label and nothing else. -/
def newRoot : Sector := w8 (store zero 0 volumeLabel) 11 8

/-- The part of `disk_format` before the tables: the variables, and the sectors
of the boot area. -/
def formatBoot (s : State) : State :=
  let s := { s with
    volumeStart := homeStart, reserved := 32, fatCount := 2, fatSectors := 993
    sectorsPerCluster := 1, rootCluster := 2, dataStart := 2018, nextCluster := 3
    freeClusters := homeSectors - 2018 - 1 }
  let s := s.write 0 partitionTable
  let s := (s.write homeStart bootSector).write (homeStart + 6) bootSector
  (s.write (homeStart + 1) (infoSector s.freeClusters s.nextCluster)).write (homeStart + 7)
    (infoSector s.freeClusters s.nextCluster)

/-- The loop of `disk_format` that writes copy `f` of the table. -/
def formatTable (s : State) (f : ℕ) : State :=
  (range s.fatSectors).foldl (fun s i =>
    s.write (homeStart + 32 + f * s.fatSectors + i) (if i = 0 then tableHead else zero)) s

/-- `disk_format`. -/
def diskFormat (s : State) : State :=
  let s := (range 2).foldl formatTable (formatBoot s)
  let s := s.write (clusterLba s 2) newRoot
  { s with formatted := true, mounted := true, label := volumeLabel }

/-- `disk_init`. -/
def diskInit (s : State) : State :=
  let s := { s with formatted := false, mounted := false }
  let m := s.disk 0
  if m 510 ≠ 0x55 ∨ m 511 ≠ 0xaa ∨ m 450 ≠ 0x0c then s
  else
    let s := { s with volumeStart := r32 m 454 }
    let b := s.disk s.volumeStart
    if b 510 ≠ 0x55 ∨ b 511 ≠ 0xaa ∨ r16 b 11 ≠ 512 ∨ r32 b 82 ≠ 0x33544146 then s
    else
      let info := s.disk (s.volumeStart + 1)
      { s with
        sectorsPerCluster := (b 13).toNat
        reserved := r16 b 14
        fatCount := (b 16).toNat
        fatSectors := r32 b 36
        rootCluster := r32 b 44
        dataStart := (r16 b 14 + (b 16).toNat * r32 b 36) % 2 ^ 32
        label := bytes b 71 11
        freeClusters := r32 info 488
        nextCluster :=
          if r32 info 492 < 3 ∨ r32 info 492 = 0xffffffff then 3 else r32 info 492
        formatted := true }

/-- `disk_mount`. -/
def diskMount (s : State) : State × Bool :=
  if s.formatted then ({ s with mounted := true }, true) else (s, false)

/-! ### Names -/

/-- The loop of `rel`: skip as long as the two agree. -/
def skipCommon : List UInt8 → Path → Path
  | p :: ps, c :: cs => if c = p then skipCommon ps cs else c :: cs
  | _, n => n

/-- `rel`: what comes after the mount point. -/
def rel (n : Path) : Path :=
  if n.getD 0 0 = 47 ∧ n.getD 1 0 = 109 then
    skipCommon (chars ['/', 'm', 'n', 't', '/', 'o', 's', '6', '4', '/']) n
  else skipCommon (chars ['/', 'h', 'o', 'm', 'e', '/']) n

/-- `c >= 'a' && c <= 'z' ? c - 32 : c`. -/
def upper (c : UInt8) : UInt8 := if 97 ≤ c ∧ c ≤ 122 then c - 32 else c

/-- A part of a name, filled up with spaces. -/
def pad (k : ℕ) (l : List UInt8) : List UInt8 := l ++ replicate (k - l.length) 32

/-- `name83`: the characters up to a dot or slash, eight at most; then those
after the next dot, three at most. -/
def name83 (n : Path) : List UInt8 :=
  let n := rel n
  let base := (n.takeWhile fun c => c ≠ 46 ∧ c ≠ 47).take 8
  let extension := (((n.drop base.length).dropWhile fun c => c ≠ 46).drop 1).take 3
  pad 8 (base.map upper) ++ pad 3 (extension.map upper)

/-! ### Directory entries -/

/-- The first byte of the entry in slot `i`. -/
def entryFirst (r : Sector) (i : ℕ) : UInt8 := r (i * 32)

/-- The slot holds an entry. -/
def entryLive (r : Sector) (i : ℕ) : Bool := entryFirst r i ≠ 0 ∧ entryFirst r i ≠ 0xe5

/-- The 8.3 name in slot `i`. -/
def entryName (r : Sector) (i : ℕ) : List UInt8 := bytes r (i * 32) 11

/-- The attribute byte of slot `i`. -/
def entryAttr (r : Sector) (i : ℕ) : UInt8 := r (i * 32 + 11)

/-- `e[11] & 0x10`. -/
def entryIsDir (r : Sector) (i : ℕ) : Bool := entryAttr r i &&& 0x10 ≠ 0

/-- `entry_cluster`. -/
def entryCluster (r : Sector) (i : ℕ) : ℕ := r16 r (i * 32 + 20) * 2 ^ 16 + r16 r (i * 32 + 26)

/-- The size in slot `i`. -/
def entrySize (r : Sector) (i : ℕ) : ℕ := r32 r (i * 32 + 28)

/-- Writing a cluster number into slot `i`. -/
def setCluster (r : Sector) (i c : ℕ) : Sector := w16 (w16 r (i * 32 + 20) (c / 2 ^ 16)) (i * 32 + 26) c

/-- Writing a size into slot `i`. -/
def setSize (r : Sector) (i size : ℕ) : Sector := w32 r (i * 32 + 28) size

/-- `e[0] = 0xe5`. -/
def setDeleted (r : Sector) (i : ℕ) : Sector := w8 r (i * 32) 0xe5

/-- The entry `disk_create` writes into slot `i`. -/
def newEntry (r : Sector) (i : ℕ) (leaf : Path) (attr : UInt8) (c : ℕ) : Sector :=
  setCluster (w8 (store (fill r (i * 32) 0 32) (i * 32) (name83 leaf)) (i * 32 + 11) attr) i c

/-- The sector of a new directory: the entries `.` and `..`. -/
def newDirectory (c dotdot : ℕ) : Sector :=
  let d := w8 (w8 (fill zero 0 32 11) 0 46) 11 0x10
  let d := setCluster d 0 c
  let d := w8 (w8 (w8 (fill d 32 32 11) 32 46) 33 46) 43 0x10
  setCluster d 1 dotdot

/-! ### Looking up -/

/-- `dir_read`. -/
def dirRead (s : State) (cluster : ℕ) : Sector := s.disk (clusterLba s cluster)

/-- The search of `find_entry_at` in a directory sector. -/
def findSlot (r : Sector) (n : Path) : Option ℕ :=
  (range 16).find? fun i => entryLive r i && (entryName r i = name83 n)

/-- A component of a path as a directory: its cluster. Components are cut to
twelve characters. -/
def subdirectory (s : State) (cluster : ℕ) (component : Path) : Option ℕ :=
  match findSlot (dirRead s cluster) (component.take 12) with
  | none => none
  | some slot =>
    if entryIsDir (dirRead s cluster) slot then some (entryCluster (dirRead s cluster) slot)
    else none

/-- The loop of `parent_dir` over the components before the last. -/
def walk (s : State) : ℕ → List Path → Option ℕ
  | cluster, [] => some cluster
  | cluster, component :: components =>
    match subdirectory s cluster component with
    | none => none
    | some cluster => walk s cluster components

/-- The components of a path before the last slash. -/
def directoriesOf (path : Path) : List Path := ((rel path).splitOn 47).dropLast.filter (· ≠ [])

/-- What comes after the last slash, nothing if the path is empty or ends in
one. -/
def leafOf (path : Path) : Path := ((rel path).splitOn 47).getLastD []

/-- `parent_dir`: the cluster of the directory and the last component. -/
def parentDir (s : State) (path : Path) : Option (ℕ × Path) :=
  if leafOf path = [] then none
  else (walk s s.rootCluster (directoriesOf path)).map fun parent => (parent, leafOf path)

/-! ### The file operations -/

/-- The first slot without an entry. -/
def freeSlot (r : Sector) : Option ℕ := (range 16).find? fun i => !entryLive r i

/-- `disk_create`. -/
def diskCreate (s : State) (n : Path) (type : UInt8) : State × Bool :=
  if ¬s.mounted then (s, false)
  else match parentDir s n with
    | none => (s, false)
    | some (parent, leaf) =>
      let r := dirRead s parent
      match findSlot r leaf with
      | some _ => (s, true)
      | none => match freeSlot r with
        | none => (s, false)
        | some slot =>
          if type = 0 then (s.write (clusterLba s parent) (newEntry r slot leaf 0x20 0), true)
          else
            let (s, c) := allocate s
            if c = 0 then (s, false)
            else
              let dotdot := if parent = s.rootCluster then 0 else parent
              let s := s.write (clusterLba s c) (newDirectory c dotdot)
              (s.write (clusterLba s parent) (newEntry r slot leaf 0x10 c), true)

/-- The sector `disk_store` writes for the first `size` bytes of `d`. -/
def fileSector (d : ℕ → UInt8) (size : ℕ) : Sector := fun i => if i < size then d i else 0

/-- The end of `disk_store`: the data, then the directory with the entry in
`slot`. -/
def storeIn (s : State) (parent : ℕ) (r : Sector) (slot c : ℕ) (d : ℕ → UInt8) (size : ℕ) : State :=
  let r := setSize r slot size
  let s := if size ≠ 0 then s.write (clusterLba s c) (fileSector d size) else s
  s.write (clusterLba s parent) r

/-- `disk_store`. -/
def diskStore (s : State) (n : Path) (d : ℕ → UInt8) (size : ℕ) : State × Bool :=
  if size > 512 then (s, false)
  else match diskCreate s n 0 with
    | (s, false) => (s, false)
    | (s, true) => match parentDir s n with
      | none => (s, false)
      | some (parent, leaf) =>
        let r := dirRead s parent
        match findSlot r leaf with
        | none => (s, false)
        | some slot =>
          if entryIsDir r slot then (s, false)
          else if size ≠ 0 ∧ entryCluster r slot = 0 then
            let (s, c) := allocate s
            if c = 0 then (s, false)
            else (storeIn s parent (setCluster r slot c) slot c d size, true)
          else (storeIn s parent r slot (entryCluster r slot) d size, true)

/-- `find_entry`: the directory sector and the slot. -/
def findEntry (s : State) (n : Path) : Option (Sector × ℕ) :=
  match parentDir s n with
  | none => none
  | some (parent, leaf) => match findSlot (dirRead s parent) leaf with
    | none => none
    | some slot => some (dirRead s parent, slot)

/-- The sectors of the `size` bytes of `d`. -/
def fileSectors (d : ℕ → UInt8) (size : ℕ) : List Sector :=
  (range ((size + 511) / 512)).map fun k i => if k * 512 + i < size then d (k * 512 + i) else 0

/-- The loop of `disk_store_large`: each sector into the tail of the chain,
which grows by a cluster as long as there is more. -/
def storeChain : State → ℕ → List Sector → State × Bool
  | s, _, [] => (s, true)
  | s, tail, [b] => (s.write (clusterLba s tail) b, true)
  | s, tail, b :: bs =>
    let s := s.write (clusterLba s tail) b
    let (s, next) := allocate s
    if next = 0 then (s, false)
    else storeChain (fatSet s tail next) next bs

/-- The first step of `disk_store_large`: an entry of the name is deleted. -/
def deleteOld (s : State) (n : Path) : State :=
  match findEntry s n with
  | some (r, slot) => s.write (clusterLba s s.rootCluster) (setDeleted r slot)
  | none => s

/-- `disk_store_large`. -/
def diskStoreLarge (s : State) (n : Path) (d : ℕ → UInt8) (size : ℕ) : State × Bool :=
  if ¬s.mounted ∨ size = 0 ∨ size > homeSectors * 512 then (s, false)
  else
    match diskCreate (deleteOld s n) n 0 with
    | (s, false) => (s, false)
    | (s, true) => match findEntry s n with
      | none => (s, false)
      | some (r, slot) =>
        let (s, tail) := allocate s
        if tail = 0 then (s, false)
        else match storeChain s tail (fileSectors d size) with
          | (s, false) => (s, false)
          | (s, true) =>
            (s.write (clusterLba s s.rootCluster) (setSize (setCluster r slot tail) slot size), true)

/-- `disk_load`: the size and the sector read. -/
def diskLoad (s : State) (n : Path) : Option (ℕ × Sector) :=
  if ¬s.mounted then none
  else match findEntry s n with
    | none => none
    | some (r, slot) =>
      if entryIsDir r slot then none
      else some (entrySize r slot, s.disk (clusterLba s (entryCluster r slot)))

/-- `disk_remove`. -/
def diskRemove (s : State) (n : Path) : State × Bool :=
  if ¬s.mounted then (s, false)
  else match parentDir s n with
    | none => (s, false)
    | some (parent, leaf) =>
      let r := dirRead s parent
      match findSlot r leaf with
      | none => (s, false)
      | some slot =>
        let c := entryCluster r slot
        let s := if c ≠ 0 then
            let s := fatSet s c 0
            fsinfoUpdate { s with
              nextCluster := if c < s.nextCluster then c else s.nextCluster
              freeClusters := s.freeClusters + 1 }
          else s
        (s.write (clusterLba s parent) (setDeleted r slot), true)

end Fat

end OS64
