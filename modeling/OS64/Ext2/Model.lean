import OS64.Fat.Model
import OS64.Lib.Bits
import OS64.Lib.Fallible

/-!
# The ext2 volume

`kernel/fs/ext2.c` and the formatting of `kernel/fs/ext_variant.c`, on a reliable
disk. The volume is one block group of 4096-byte blocks: the superblock and the
group descriptor, the two bitmaps, the inode table, and from block 260 on the
data. A file has twelve direct blocks and one indirect block, a directory one
block of records.

The functions are programs that can fail and then leave what they have done so
far. `bread` and `bwrite` fail for blocks outside of the volume only; the calls of
`disk_read` and `disk_write` in them do not. A caller that looks at a failure and
goes on uses `Fallible.recover`.

An inode is its record of 128 bytes, as in the packed structure of the source,
with the fields at their offsets. The loops over the records of a directory end
because a record is at least eight bytes long, which the loops of `dir_find` and
`dir_add` check; the one of `ext2_remove` does not, and would go on forever on a
record of length 0.
-/

namespace OS64

namespace Ext2

open ByteMem Bits Fallible List

/-! ### State and blocks -/

/-- The disk and the variables of `ext2.c`. -/
structure State where
  disk : Disk
  base : ℕ
  blocks : ℕ
  mounted : Bool

/-- The programs of this file. -/
abbrev M := Fallible State

/-- `INODES`. -/
def inodes : ℕ := 8192

/-- `BLOCK_BITMAP`. -/
def blockBitmap : ℕ := 2

/-- `INODE_BITMAP`. -/
def inodeBitmap : ℕ := 3

/-- `INODE_TABLE`. -/
def inodeTable : ℕ := 4

/-- `FIRST_DATA`. -/
def firstData : ℕ := 260

/-- `ROOT_INO`. -/
def rootIno : ℕ := 2

/-- `EXT2_DIR`. -/
def ext2Dir : ℕ := 0x4000

/-- `EXT2_FILE`. -/
def ext2File : ℕ := 0x8000

/-- `MAX_FILE_SIZE`. -/
def maxFileSize : ℕ := (12 + 1024) * 4096

/-- `zero`. -/
def zero : ByteMem := fun _ => 0

/-- `r16`. -/
def r16 (b : ByteMem) (o : ℕ) : ℕ := readLE b 2 o

/-- `r32`. -/
def r32 (b : ByteMem) (o : ℕ) : ℕ := readLE b 4 o

/-- `w16`. -/
def w16 (b : ByteMem) (o v : ℕ) : ByteMem := writeLE b 2 o v

/-- `w32`. -/
def w32 (b : ByteMem) (o v : ℕ) : ByteMem := writeLE b 4 o v

/-- `b[o] = v`. -/
def w8 (b : ByteMem) (o : ℕ) (v : UInt8) : ByteMem := Function.update b o v

/-- The eight sectors of block `n` of a volume that starts at sector `base`. -/
def blockAt (disk : Disk) (base n : ℕ) : ByteMem :=
  fun x => if x < 4096 then disk (base + n * 8 + x / 512) (x % 512) else 0

/-- Writing the eight sectors of block `n`. -/
def writeAt (disk : Disk) (base n : ℕ) (b : ByteMem) : Disk :=
  (range 8).foldl (fun disk i => Function.update disk (base + n * 8 + i)
    fun x => if x < 512 then b (i * 512 + x) else 0) disk

/-- Block `n` of the volume. -/
def State.block (s : State) (n : ℕ) : ByteMem := blockAt s.disk s.base n

/-- `bread`. -/
def bread (n : ℕ) : M ByteMem := do
  let blocks ← gets State.blocks
  require (n < blocks)
  gets fun s => s.block n

/-- `bwrite`. -/
def bwrite (n : ℕ) (b : ByteMem) : M Unit := do
  let blocks ← gets State.blocks
  require (n < blocks)
  modify fun s => { s with disk := writeAt s.disk s.base n b }

/-! ### Inodes -/

/-- An inode: the 128 bytes of its record. -/
abbrev Inode := ByteMem

namespace Inode

/-- The field `mode`. -/
def mode (n : Inode) : ℕ := r16 n 0

/-- The field `uid`. -/
def uid (n : Inode) : ℕ := r16 n 2

/-- The field `size`. -/
def size (n : Inode) : ℕ := r32 n 4

/-- The field `gid`. -/
def gid (n : Inode) : ℕ := r16 n 24

/-- The field `links`. -/
def links (n : Inode) : ℕ := r16 n 26

/-- The field `blocks`, a number of sectors. -/
def sectors (n : Inode) : ℕ := r32 n 28

/-- The field `block[i]`. -/
def block (n : Inode) (i : ℕ) : ℕ := r32 n (40 + i * 4)

/-- Assigning `mode`. -/
def setMode (n : Inode) (v : ℕ) : Inode := w16 n 0 v

/-- Assigning `uid`. -/
def setUid (n : Inode) (v : ℕ) : Inode := w16 n 2 v

/-- Assigning `size`. -/
def setSize (n : Inode) (v : ℕ) : Inode := w32 n 4 v

/-- Assigning `gid`. -/
def setGid (n : Inode) (v : ℕ) : Inode := w16 n 24 v

/-- Assigning `links`. -/
def setLinks (n : Inode) (v : ℕ) : Inode := w16 n 26 v

/-- Assigning `blocks`. -/
def setSectors (n : Inode) (v : ℕ) : Inode := w32 n 28 v

/-- Assigning `block[i]`. -/
def setBlock (n : Inode) (i v : ℕ) : Inode := w32 n (40 + i * 4) v

/-- The loop that assigns 0 to all of `block`. -/
def clearBlocks (n : Inode) : Inode := (range 15).foldl (fun n i => setBlock n i 0) n

/-- `mode & EXT2_DIR`. -/
def isDir (n : Inode) : Bool := mode n &&& ext2Dir ≠ 0

end Inode

/-- The record of an inode in a block of the table, from `off` on. -/
def getRecord (b : ByteMem) (off : ℕ) : Inode := fun i => if i < 128 then b (off + i) else 0

/-- Copying a record into a block. -/
def putRecord (b : ByteMem) (off : ℕ) (n : Inode) : ByteMem :=
  fun x => if off ≤ x ∧ x < off + 128 then n (x - off) else b x

/-- `inode_get`. -/
def inodeGet (ino : ℕ) : M Inode := do
  require (ino ≠ 0 ∧ ino ≤ inodes)
  let off := (ino - 1) * 128
  let b ← bread (inodeTable + off / 4096)
  pure (getRecord b (off % 4096))

/-- `inode_put`. -/
def inodePut (ino : ℕ) (n : Inode) : M Unit := do
  let off := (ino + (2 ^ 32 - 1)) % 2 ^ 32 * 128 % 2 ^ 32
  let b ← bread (inodeTable + off / 4096)
  bwrite (inodeTable + off / 4096) (putRecord b (off % 4096) n)

/-! ### Bitmaps and counters -/

/-- `(uint32_t)((int)v + d)`. -/
def adjust (v : ℕ) (d : ℤ) : ℕ := ((v + d) % 2 ^ 32).toNat

/-- The superblock with its counters adjusted. -/
def superCounters (b : ByteMem) (db di : ℤ) : ByteMem :=
  w32 (w32 b 1036 (adjust (r32 b 1036) db)) 1040 (adjust (r32 b 1040) di)

/-- The group descriptor with its counters adjusted. -/
def groupCounters (b : ByteMem) (db di dd : ℤ) : ByteMem :=
  let b := w16 b 12 (adjust (r16 b 12) db)
  let b := w16 b 14 (adjust (r16 b 14) di)
  w16 b 16 (adjust (r16 b 16) dd)

/-- `counters`. -/
def counters (db di dd : ℤ) : M Unit := do
  let b ← bread 0
  bwrite 0 (superCounters b db di)
  let b ← bread 1
  bwrite 1 (groupCounters b db di dd)

/-- `alloc_bit`. -/
def allocBit (bitmap first limit : ℕ) (inode : Bool) : M ℕ := do
  let b ← bread bitmap
  match (range' first (limit - first)).find? fun i => !bit b i with
  | none => fail
  | some i => do
    bwrite bitmap (setBit b i)
    counters (if inode then 0 else -1) (if inode then -1 else 0) 0
    pure (i + 1)

/-- `free_bit`. -/
def freeBit (bitmap number : ℕ) (inode : Bool) : M Unit := do
  require (number ≠ 0)
  let b ← bread bitmap
  bwrite bitmap (clearBit b (number - 1))
  counters (if inode then 0 else 1) (if inode then 1 else 0) 0

/-- `alloc_block`. -/
def allocBlock : M ℕ := do
  let blocks ← gets State.blocks
  let n ← allocBit blockBitmap (firstData + 1) blocks false
  pure (n - 1)

/-- `alloc_inode`. -/
def allocInode : M ℕ := allocBit inodeBitmap 10 inodes true

/-! ### Directories -/

/-- `ideal`: the space a record with a name of `n` bytes takes. -/
def ideal (n : ℕ) : ℕ := (8 + n + 3) / 4 * 4

/-- The positions of the records of a directory block from `p` on, as far as
they are well-formed. -/
def positions (b : ByteMem) : ℕ → ℕ → List ℕ
  | 0, _ => []
  | fuel + 1, p =>
    if p + 8 ≤ 4096 then
      if r16 b (p + 4) < 8 ∨ p + r16 b (p + 4) > 4096 then []
      else p :: positions b fuel (p + r16 b (p + 4))
    else []

/-- The record at `p` has this name. -/
def isNamed (b : ByteMem) (name : Path) (p : ℕ) : Bool :=
  r32 b p ≠ 0 ∧ (b (p + 6)).toNat = name.length ∧ bytes b (p + 8) name.length = name

/-- The search of `dir_find`. -/
def dirSearch (b : ByteMem) (name : Path) : Option ℕ :=
  ((positions b 512 0).find? (isNamed b name)).map (r32 b)

/-- `dir_find`. -/
def dirFind (dir : ℕ) (name : Path) : M ℕ := do
  let n ← inodeGet dir
  require (n.isDir = true)
  require (n.block 0 ≠ 0)
  let b ← bread (n.block 0)
  match dirSearch b name with
  | none => fail
  | some ino => pure ino

/-- The record at `p` has room for one of `need` bytes behind it. -/
def hasRoom (b : ByteMem) (need p : ℕ) : Bool :=
  r32 b p ≠ 0 ∧ r16 b (p + 4) ≥ ideal (b (p + 6)).toNat + need

/-- Writing a record behind the one at `p`. -/
def addRecord (b : ByteMem) (p : ℕ) (name : Path) (ino : ℕ) (type : UInt8) : ByteMem :=
  let rec' := r16 b (p + 4)
  let used := ideal (b (p + 6)).toNat
  let b := w16 b (p + 4) used
  let p := p + used
  let b := w16 (w32 b p ino) (p + 4) (rec' - used)
  store (w8 (w8 b (p + 6) (UInt8.ofNat name.length)) (p + 7) type) (p + 8) name

/-- `dir_add`. -/
def dirAdd (dir : ℕ) (name : Path) (ino : ℕ) (type : UInt8) : M Unit := do
  require (name.length ≠ 0 ∧ name.length ≤ 255)
  let n ← inodeGet dir
  require (n.block 0 ≠ 0)
  let b ← bread (n.block 0)
  match (positions b 512 0).find? (hasRoom b (ideal name.length)) with
  | none => fail
  | some p => bwrite (n.block 0) (addRecord b p name ino type)

/-- The block of a new directory. -/
def newDirectory (ino parent : ℕ) : ByteMem :=
  let b := w16 (w32 zero 0 ino) 4 12
  let b := w8 (w8 (w8 b 6 1) 7 2) 8 46
  let b := w16 (w32 b 12 parent) 16 (4096 - 12)
  w8 (w8 (w8 (w8 b 18 2) 19 2) 20 46) 21 46

/-- The inode of a new directory. -/
def directoryInode (blk : ℕ) : Inode :=
  ((((Inode.setMode zero (ext2Dir ||| 0o755)).setLinks 2).setSize 4096).setSectors 8).setBlock 0 blk

/-- `make_dir`. -/
def makeDir (parent : ℕ) (name : Path) : M ℕ := do
  let ino ← recover allocInode
  let blk ← recover allocBlock
  match ino, blk with
  | some ino, some blk => do
    bwrite blk (newDirectory ino parent)
    inodePut ino (directoryInode blk)
    dirAdd parent name ino 2
    counters 0 0 1
    match ← recover (inodeGet parent) with
    | some n => do
      let _ ← recover (inodePut parent (n.setLinks (n.links + 1)))
      pure ino
    | none => pure ino
  | _, _ => fail

/-- What `walk` finds: the last directory, the last component, and the inode, 0 if
there is none. -/
structure Walked where
  parent : ℕ
  leaf : Path
  found : ℕ

/-- The components of a path. -/
def components (path : Path) : List Path := (path.splitOn 47).filter (· ≠ [])

/-- The last component of a path fits into the `char name[256]` that `ext2_store` and
`ext2_remove` have `walk` copy it into. Nothing checks that, so that a longer one is written
over the stack; the model says what the code does with paths that fit. -/
def LeafFits (path : Path) : Prop := ((components path).getLastD []).length ≤ 255

instance (path : Path) : Decidable (LeafFits path) := inferInstanceAs (Decidable (_ ≤ _))

/-- The loop of `walk`, for a last component that fits where it is asked for
(`OS64.Ext2.LeafFits`). Without any components the root is found, and parent and leaf are not
set. -/
def walkFrom (create : Bool) : ℕ → List Path → M Walked
  | cur, [] => pure ⟨0, [], cur⟩
  | cur, [name] => do
    let found ← recover (dirFind cur name)
    pure ⟨cur, name, found.getD 0⟩
  | cur, name :: name' :: names => do
    match ← recover (dirFind cur name) with
    | some next => walkFrom create next (name' :: names)
    | none =>
      if create then do
        let next ← makeDir cur name
        walkFrom create next (name' :: names)
      else fail

/-- `walk`. -/
def walk (create : Bool) (path : Path) : M Walked := walkFrom create rootIno (components path)

/-! ### The blocks of a file -/

/-- `file_block`. -/
def fileBlock (n : Inode) (index : ℕ) : M ℕ := do
  if index < 12 then pure (n.block index)
  else if index ≥ 12 + 1024 ∨ n.block 12 = 0 then pure 0
  else match ← recover (bread (n.block 12)) with
    | none => pure 0
    | some indirect => pure (r32 indirect ((index - 12) * 4))

/-- The loops of `release_blocks`: the nonzero numbers are freed. -/
def releaseAll : List ℕ → M Bool
  | [] => pure true
  | blk :: blks => do
    if blk ≠ 0 then
      let freed ← recover (freeBit blockBitmap (blk + 1) false)
      let ok ← releaseAll blks
      pure (freed.isSome && ok)
    else releaseAll blks

/-- `release_blocks`. -/
def releaseBlocks (n : Inode) : M Bool := do
  let direct ← releaseAll ((range 12).map n.block)
  if n.block 12 ≠ 0 then
    let entries ← match ← recover (bread (n.block 12)) with
      | none => pure false
      | some indirect => releaseAll ((range 1024).map fun i => r32 indirect (i * 4))
    let freed ← recover (freeBit blockBitmap (n.block 12 + 1) false)
    pure (direct && entries && freed.isSome)
  else pure direct

/-- The part of the loop of `write_new_blocks` that makes sure that there is an
indirect block. -/
def ensureIndirect (n : Inode) (indirect : ByteMem) (blk : ℕ) : M (Inode × Bool) := do
  if n.block 12 ≠ 0 then pure (n, true)
  else match ← recover allocBlock with
    | none => do
      let _ ← recover (freeBit blockBitmap (blk + 1) false)
      pure (n.setBlock 12 0, false)
    | some ind => do
      let n := n.setBlock 12 ind
      let n := n.setSectors (n.sectors + 8)
      let written ← recover (bwrite ind indirect)
      pure (n, written.isSome)

/-- The part of the loop of `write_new_blocks` that enters block `blk` as number
`index` of the file. -/
def attach (n : Inode) (indirect : ByteMem) (index blk : ℕ) : M (Inode × ByteMem × Bool) := do
  if index < 12 then pure (n.setBlock index blk, indirect, true)
  else
    let (n, ok) ← ensureIndirect n indirect blk
    if ok then
      let indirect := w32 indirect ((index - 12) * 4) blk
      let written ← recover (bwrite (n.block 12) indirect)
      pure (n, indirect, written.isSome)
    else pure (n, indirect, false)

/-- The loop of `write_new_blocks`; it returns false where the source goes to
`fail`. -/
def writeBlocks : Inode → ByteMem → ℕ → List ByteMem → M (Inode × Bool)
  | n, _, _, [] => pure (n, true)
  | n, indirect, index, contents :: rest => do
    match ← recover allocBlock with
    | none => pure (n, false)
    | some blk => do
      let (n, indirect, ok) ← attach n indirect index blk
      if ok then
        let n := n.setSectors (n.sectors + 8)
        match ← recover (bwrite blk contents) with
        | none => pure (n, false)
        | some () => writeBlocks n indirect (index + 1) rest
      else pure (n, false)

/-- The blocks of the `size` bytes of `data`, the last one filled up with zeros. -/
def chunks (data : ℕ → UInt8) (size : ℕ) : List ByteMem :=
  (range ((size + 4095) / 4096)).map fun k x =>
    if x < 4096 ∧ k * 4096 + x < size then data (k * 4096 + x) else 0

/-- `write_new_blocks`. When it fails, the inode it leaves is not used again. -/
def writeNewBlocks (n : Inode) (data : ℕ → UInt8) (size : ℕ) : M Inode := do
  let (n, ok) ← writeBlocks n zero 0 (chunks data size)
  if ok then pure n
  else
    let _ ← releaseBlocks n
    fail

/-! ### The operations -/

/-- The inode of a new file, before it has a size and blocks. -/
def fileInode (mode uid gid : ℕ) : Inode :=
  (((Inode.setMode zero (ext2File ||| (mode &&& 0o777))).setUid uid).setGid gid).setLinks 1

/-- The end of `ext2_store`: the inode is in place, the entry is made or the old
blocks are released. -/
def finishStore (w : Walked) (old : Option Inode) (ino : ℕ) (next : Inode) : M Unit := do
  match old with
  | some old => do
    let _ ← releaseBlocks old
    pure ()
  | none => match ← recover (dirAdd w.parent w.leaf ino 1) with
    | some () => pure ()
    | none => do
      let _ ← releaseBlocks next
      let _ ← recover (inodePut ino zero)
      let _ ← recover (freeBit inodeBitmap ino true)
      fail

/-- The part of `ext2_store` that gives back the inode of a new file. -/
def abandon (old : Option Inode) (ino : ℕ) : M Unit := do
  if old.isNone then
    let _ ← recover (freeBit inodeBitmap ino true)
    fail
  else fail

/-- `ext2_store` from where the inode is known: `old` is the one of the file that
is there already. -/
def storeInode (w : Walked) (old : Option Inode) (ino : ℕ) (next : Inode) (data : ℕ → UInt8)
    (size : ℕ) : M Unit := do
  match ← recover (writeNewBlocks ((next.setSize size).setSectors 0) data size) with
  | none => abandon old ino
  | some next => match ← recover (inodePut ino next) with
    | none => do
      let _ ← releaseBlocks next
      abandon old ino
    | some () => finishStore w old ino next

/-- `ext2_store`. -/
def ext2Store (path : Path) (data : ℕ → UInt8) (size mode uid gid : ℕ) : M Unit := do
  let mounted ← gets State.mounted
  require (mounted = true ∧ size ≤ maxFileSize)
  let w ← walk true path
  if w.found ≠ 0 then
    let old ← inodeGet w.found
    require (old.isDir = false)
    storeInode w (some old) w.found old.clearBlocks data size
  else
    let ino ← allocInode
    storeInode w none ino (fileInode mode uid gid) data size

/-- `locate`. -/
def locate (path : Path) : M ℕ := do
  let w ← walk false path
  require (w.found ≠ 0)
  pure w.found

/-- The loop of `ext2_load`. -/
def loadBlocks (n : Inode) : List ℕ → M (List ByteMem)
  | [] => pure []
  | i :: is => do
    let blk ← fileBlock n i
    require (blk ≠ 0)
    let b ← bread blk
    let bs ← loadBlocks n is
    pure (b :: bs)

/-- `ext2_load`: the bytes it writes. -/
def ext2Load (path : Path) (cap : ℕ) : M (List UInt8) := do
  let mounted ← gets State.mounted
  require (mounted = true)
  let ino ← locate path
  let n ← inodeGet ino
  require (n.isDir = false ∧ n.size ≤ cap ∧ n.size ≤ maxFileSize)
  let bs ← loadBlocks n (range ((n.size + 4095) / 4096))
  pure ((bs.flatMap fun b => bytes b 0 4096).take n.size)

/-- What `ext2_stat` returns. -/
structure Stat where
  size : ℕ
  mode : ℕ
  uid : ℕ
  gid : ℕ
  deriving DecidableEq

/-- `ext2_stat`. -/
def ext2Stat (path : Path) : M Stat := do
  let mounted ← gets State.mounted
  require (mounted = true)
  let ino ← locate path
  let n ← inodeGet ino
  pure ⟨n.size, n.mode &&& 0o777, n.uid, n.gid⟩

/-- `ext2_chmod`. -/
def ext2Chmod (path : Path) (m : ℕ) : M Unit := do
  let ino ← locate path
  let n ← inodeGet ino
  inodePut ino (n.setMode ((n.mode &&& 0o170000) ||| (m &&& 0o777)))

/-- `ext2_chown`. -/
def ext2Chown (path : Path) (u g : ℕ) (su sg : Bool) : M Unit := do
  let ino ← locate path
  let n ← inodeGet ino
  let n := if su then n.setUid u else n
  let n := if sg then n.setGid g else n
  inodePut ino n

/-- The search of `ext2_remove`: the record of inode `ino` and the one before. -/
def removeSearch (b : ByteMem) (ino : ℕ) : ℕ → ℕ → ℕ → Option (ℕ × ℕ)
  | 0, _, _ => none
  | fuel + 1, pos, prev =>
    if pos < 4096 then
      if r32 b pos = ino then some (pos, prev)
      else removeSearch b ino fuel (pos + r16 b (pos + 4)) pos
    else none

/-- Taking a record out: the one before gets its space. -/
def removeRecord (b : ByteMem) (pos prev : ℕ) : ByteMem :=
  if pos ≠ 0 then w16 b (prev + 4) (r16 b (prev + 4) + r16 b (pos + 4)) else w32 b pos 0

/-- `ext2_remove`. -/
def ext2Remove (path : Path) : M Unit := do
  let w ← walk false path
  require (w.found ≠ 0)
  let n ← inodeGet w.found
  require (n.isDir = false)
  let d ← inodeGet w.parent
  let b ← bread (d.block 0)
  match removeSearch b w.found 4096 0 0 with
  | some (pos, prev) => bwrite (d.block 0) (removeRecord b pos prev)
  | none => pure ()
  let ok ← releaseBlocks n
  require (ok = true)
  inodePut w.found zero
  freeBit inodeBitmap w.found true

/-! ### Formatting -/

/-- The superblock. -/
def superBlock (blocks : ℕ) : ByteMem :=
  let b := w32 (w32 zero 1024 inodes) 1028 blocks
  let b := w32 (w32 b 1036 (blocks - (firstData + 1))) 1040 (inodes - 10)
  let b := w32 (w32 (w32 b 1044 0) 1048 2) 1052 2
  let b := w32 (w32 (w32 b 1056 32768) 1060 32768) 1064 inodes
  let b := w16 (w16 (w16 b 1080 0xef53) 1082 1) 1084 1
  w32 (w16 (w32 (w32 b 1100 1) 1108 11) 1112 128) 1120 2

/-- The group descriptor. -/
def groupDescriptor (blocks : ℕ) : ByteMem :=
  let b := w32 (w32 (w32 zero 0 blockBitmap) 4 inodeBitmap) 8 inodeTable
  w16 (w16 (w16 b 12 (blocks - firstData - 1)) 14 (inodes - 10)) 16 1

/-- Setting the bits `first`, …, `first + n - 1`. -/
def setBits (b : ByteMem) (first n : ℕ) : ByteMem := (range' first n).foldl setBit b

/-- Writing zeros into some blocks. -/
def zeroBlocks (write : ℕ → ByteMem → M Unit) : List ℕ → M Unit
  | [] => pure ()
  | n :: ns => do
    write n zero
    zeroBlocks write ns

/-- The inode of the root. -/
def rootInode : Inode := directoryInode firstData

/-- `ext2_format`. -/
def ext2Format : M Unit := do
  modify fun s => { s with base := Fat.varStart, blocks := Fat.varSectors / 8 }
  let blocks ← gets State.blocks
  require (¬(blocks ≤ firstData + 1 ∨ blocks > 32768))
  bwrite 0 (superBlock blocks)
  bwrite 1 (groupDescriptor blocks)
  bwrite blockBitmap (setBits (setBits zero 0 (firstData + 1)) blocks (32768 - blocks))
  bwrite inodeBitmap (setBits (setBits zero 0 10) inodes (32768 - inodes))
  zeroBlocks bwrite (range' inodeTable 256)
  inodePut rootIno rootInode
  let written ← recover (bwrite firstData (newDirectory rootIno rootIno))
  modify fun s => { s with mounted := written.isSome }
  require (written.isSome = true)

/-- `rd` of `ext_variant.c`. -/
def rd (n : ℕ) : M ByteMem := gets fun s => blockAt s.disk Fat.varStart n

/-- `wr` of `ext_variant.c`. -/
def wr (n : ℕ) (b : ByteMem) : M Unit :=
  modify fun s => { s with disk := writeAt s.disk Fat.varStart n b }

/-- `be32`. -/
def be32 (b : ByteMem) (o v : ℕ) : ByteMem :=
  w8 (w8 (w8 (w8 b o (UInt8.ofNat (v / 2 ^ 24))) (o + 1) (UInt8.ofNat (v / 2 ^ 16))) (o + 2)
    (UInt8.ofNat (v / 2 ^ 8))) (o + 3) (UInt8.ofNat v)

/-- `JOURNAL_FIRST`. -/
def journalFirst : ℕ := 261

/-- `JOURNAL_BLOCKS`. -/
def journalBlocks : ℕ := 1024

/-- `JOURNAL_INDIRECT`. -/
def journalIndirect : ℕ := 1285

/-- The inode of the journal. -/
def journalInode : Inode :=
  let n := Inode.setSize (Inode.setMode zero 0o100600) (journalBlocks * 4096)
  let n := (n.setLinks 1).setSectors ((journalBlocks + 1) * 8)
  let n := (range 12).foldl (fun n i => n.setBlock i (journalFirst + i)) n
  n.setBlock 12 journalIndirect

/-- The indirect block of the journal. -/
def journalEntries : ByteMem :=
  (range (journalBlocks - 12)).foldl (fun b i => w32 b (i * 4) (journalFirst + 12 + i)) zero

/-- The first block of the journal. -/
def journalSuper : ByteMem :=
  let b := be32 (be32 (be32 zero 0 0xc03b3998) 4 4) 8 0
  let b := be32 (be32 b 12 4096) 16 journalBlocks
  be32 (be32 (be32 b 20 1) 24 1) 28 0

/-- `add_journal`. -/
def addJournal : M Unit := do
  let b ← rd 2
  wr 2 (setBits b journalFirst (journalBlocks + 1))
  let b ← rd 0
  let b := w32 b 1036 (adjust (r32 b 1036) (-(journalBlocks + 1)))
  wr 0 (w32 (w32 b 1116 (r32 b 1116 ||| 4)) 1248 8)
  let b ← rd 1
  wr 1 (w16 b 12 (adjust (r16 b 12) (-(journalBlocks + 1))))
  let b ← rd 4
  wr 4 (putRecord b (7 * 128) journalInode)
  wr journalIndirect journalEntries
  wr journalFirst journalSuper
  zeroBlocks wr (range' (journalFirst + 1) (journalBlocks - 1))

/-- `ext_variant_format`. -/
def extVariantFormat (level : ℕ) : M Unit := do
  require (2 ≤ level ∧ level ≤ 4)
  ext2Format
  if level ≥ 3 then addJournal
  if level = 4 then
    let b ← rd 0
    wr 0 (w32 b 1120 (r32 b 1120 ||| 0x40))

end Ext2

end OS64
