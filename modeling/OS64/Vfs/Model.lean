import OS64.Auth.Session
import OS64.Ext2.Model

/-!
# The file system as a whole

The files of `kernel/fs` over the two volumes: `tmpfs.c`, the search of `fs.c` in
the initial archive, `varfs.c`, and `vfs.c` with `vfs_access.c`, which send a path
to one of these, to the volume of `/home`, or to a device, after a look at the
permissions.

Both volumes are on one disk, and a change by either driver is one of the disk;
that they see the same disk is a field of the state. The archive is the list of
its entries. The text of the files in `/proc` and the source of random bytes are
parameters, and so is what stands in memory behind the end of a path: `home_owner`
can look there.

What a call that fails leaves in the caller's buffer is left out, since no caller
looks at it. `vfs_readdir` is not modelled.
-/

namespace OS64.Vfs

open Text Auth

/-! ### State -/

/-- `node_t`, a file of `tmpfs`. -/
structure Node where
  path : Path
  data : List UInt8
  mode : UInt16
  uid : UInt16
  gid : UInt16
  data_fits : data.length ≤ 2048

/-- `fs_file_t`, an entry of the archive. -/
structure Entry where
  name : Path
  data : List UInt8
  type : UInt8

/-- The entry is a directory. -/
def Entry.isDir (e : Entry) : Bool := e.type = 53

/-- Accounts, volumes, `tmpfs`, archive, and the pool of random bytes. -/
structure State (R : Type) where
  auth : Auth.State
  fat : Fat.State
  ext2 : Ext2.State
  nodes : List (Option Node)
  files : List Entry
  pool : R
  shared : ext2.disk = fat.disk
  nodes_length : nodes.length = 32

/-- What is outside. -/
structure Env (R : Type) where
  after : Path → List UInt8
  procText : Path → Option (List UInt8)
  randomRead : ℕ → R → Bool × List UInt8 × R
  randomMix : List UInt8 → R → Bool × R

/-- `vfs_backend_t`. -/
inductive Backend where
  | initramfs | fat32 | ramfs | ext2 | tmpfs | procfs | devfs
  deriving DecidableEq

/-- `VFS_TYPE_..`. -/
inductive FileType where
  | file | directory | charDevice | blockDevice
  deriving DecidableEq

/-- `vfs_stat_t`. -/
structure Stat where
  size : ℕ
  mode : UInt16
  uid : UInt16
  gid : UInt16
  type : FileType
  backend : Backend
  deriving DecidableEq

/-- What `vfs_write` returns. -/
inductive Written where
  | error
  | ok (written : ℕ)
  | noSpace
  deriving DecidableEq

section

variable {R : Type}

/-- The driver of `/home` has changed the disk. -/
def State.putFat (s : State R) (fat : Fat.State) : State R :=
  { s with fat := fat, ext2 := { s.ext2 with disk := fat.disk }, shared := rfl }

/-- The driver of `/var` has changed the disk. -/
def State.putExt2 (s : State R) (ext2 : Ext2.State) : State R :=
  { s with fat := { s.fat with disk := ext2.disk }, ext2 := ext2, shared := rfl }

/-! ### Paths -/

/-- `starts`. -/
def starts (s p : Path) : Bool := p.isPrefixOf s

/-- `"/home/"`. -/
def homePrefix : Path := chars ['/', 'h', 'o', 'm', 'e', '/']

/-- `"/mnt/os64/"`. -/
def mountPrefix : Path := chars ['/', 'm', 'n', 't', '/', 'o', 's', '6', '4', '/']

/-- `"/mnt/"`. -/
def mntPrefix : Path := chars ['/', 'm', 'n', 't', '/']

/-- `"/var/"`. -/
def varPrefix : Path := chars ['/', 'v', 'a', 'r', '/']

/-- `"/root/"`. -/
def rootPrefix : Path := chars ['/', 'r', 'o', 'o', 't', '/']

/-- `"/tmp/"`. -/
def tmpPrefix : Path := chars ['/', 't', 'm', 'p', '/']

/-- `"/proc/"`. -/
def procPrefix : Path := chars ['/', 'p', 'r', 'o', 'c', '/']

/-- `"/var/tmp/"`. -/
def varTmpPrefix : Path := chars ['/', 'v', 'a', 'r', '/', 't', 'm', 'p', '/']

/-- `"/var/local/"`. -/
def varLocalPrefix : Path := chars ['/', 'v', 'a', 'r', '/', 'l', 'o', 'c', 'a', 'l', '/']

/-- A name in `/dev`. -/
def dev (name : List Char) : Path := chars ['/', 'd', 'e', 'v', '/'] ++ chars name

/-- `native_path`. -/
def nativePath (p : Path) : Bool :=
  starts p varPrefix || starts p rootPrefix || (starts p mntPrefix && !starts p mountPrefix)

/-- The path is on the volume of `/home`. -/
def homePath (p : Path) : Bool := starts p homePrefix || starts p mountPrefix

/-! ### The archive -/

/-- `while (*a == '/') a++`. -/
def skipSlashes (a : Path) : Path := a.dropWhile (· == 47)

/-- The comparison at the end of `path_eq`: as far as the two agree, and then only
slashes. -/
def sameTail : Path → Path → Bool
  | c :: a, d :: b => if c = d then sameTail a b else skipSlashes (c :: a) = [] ∧ skipSlashes (d :: b) = []
  | a, b => skipSlashes a = [] ∧ skipSlashes b = []

/-- `path_eq`. -/
def pathEq (a b : Path) : Bool :=
  let a := skipSlashes a
  let b := skipSlashes b
  let a := if a.getD 0 0 = 46 ∧ a.getD 1 0 = 47 then a.drop 2 else a
  sameTail a b

/-- `fs_find`. -/
def fsFind (s : State R) (p : Path) : Option Entry := s.files.find? fun e => pathEq e.name p

/-! ### The volume of `/home` -/

/-- `printable`: the name of a directory entry. -/
def printable (n : List UInt8) : Path :=
  let base := (n.take 8).takeWhile (· != 32)
  let extension := (n.drop 8).takeWhile (· != 32)
  if n.getD 8 0 ≠ 32 then base ++ 46 :: extension else base

/-- `disk_file_at`, for all indices: name, whether it is a directory, and size. -/
def diskFiles (s : Fat.State) : List (Path × Bool × ℕ) :=
  if s.mounted then
    let r := Fat.dirRead s s.rootCluster
    ((List.range 16).filter fun i => Fat.entryLive r i && (Fat.entryAttr r i &&& 8 = 0)).map fun i =>
      (printable (Fat.entryName r i), Fat.entryIsDir r i, Fat.entrySize r i)
  else []

/-- What follows the last slash. -/
def lastComponent (p : Path) : Path := (p.splitOn 47).getLastD []

/-- The search of `stat_raw` on the volume of `/home`: size and whether it is a
directory. By name in the root directory, whatever the directories in the path;
then by path. -/
def homeFind (s : Fat.State) (p : Path) : Option (ℕ × Bool) :=
  match (diskFiles s).find? fun f => f.1 = lastComponent p with
  | some (_, isDir, size) => some (size, isDir)
  | none => (Fat.diskLoad s p).map fun f => (f.1, false)

/-! ### Temporary files -/

/-- `find`. -/
def tmpFind (nodes : List (Option Node)) (p : Path) : Option ℕ :=
  nodes.findIdx? fun node => match node with
    | some node => node.path = p
    | none => false

/-- `tmpfs_stat` and `tmpfs_load` up to the capacity: the file. -/
def tmpLookup (s : State R) (p : Path) : Option Node := (tmpFind s.nodes p).bind fun i => (s.nodes[i]?).join

/-- A slot of `tmpfs` is changed. -/
def State.putNode (s : State R) (i : ℕ) (node : Option Node) : State R :=
  { s with nodes := s.nodes.set i node, nodes_length := by rw [List.length_set, s.nodes_length] }

/-- `tmpfs_store`. -/
def tmpfsStore (s : State R) (p : Path) (d : List UInt8) (m u g : UInt16) : State R × Bool :=
  if h : d.length ≤ 2048 then
    match tmpFind s.nodes p with
    | some i =>
      match (s.nodes[i]?).join with
      | some node => (s.putNode i (some { node with data := d, data_fits := h }), true)
      | none => (s, false)
    | none =>
      match s.nodes.findIdx? Option.isNone with
      | some i => (s.putNode i (some ⟨p.take 95, d, m, u, g, h⟩), true)
      | none => (s, false)
  else (s, false)

/-- `tmpfs_load`. -/
def tmpfsLoad (s : State R) (p : Path) (cap : ℕ) : Option (List UInt8) :=
  match tmpLookup s p with
  | some node => if node.data.length ≤ cap then some node.data else none
  | none => none

/-- `tmpfs_remove`. -/
def tmpfsRemove (s : State R) (p : Path) : State R × Bool :=
  match tmpFind s.nodes p with
  | some i => (s.putNode i none, true)
  | none => (s, false)

/-! ### Permissions -/

variable (env : Env R)

/-- The account that a path below the home directories begins with. -/
def ownerNamed (t : Auth.State) (s : List UInt8) : Option (UInt16 × UInt16) :=
  let user := ((cstr s).takeWhile (· != 47)).take 15
  if user = [] then none else authLookup t user

/-- `home_owner`. For `/mnt/os64/` it goes on twelve characters behind the
beginning, be that behind the end. -/
def homeOwner (s : State R) (p : Path) : Option (UInt16 × UInt16) :=
  if starts p homePrefix then ownerNamed s.auth (p.drop 6)
  else if starts p mountPrefix then ownerNamed s.auth ((p ++ 0 :: env.after p).drop 12)
  else none

/-- `gid_group`. -/
def gidGroup (gid : UInt16) : UInt32 :=
  if gid = 0 then groupRoot
  else if gid = 10 then groupAdmin
  else if gid = 100 then groupUsers
  else if 101 ≤ gid ∧ gid ≤ 107 then 1 <<< (gid.toUInt32 - 98)
  else 0

/-- The character devices. -/
def charDevices : List Path :=
  [dev ['n', 'e', 't', '0'], dev ['c', 'o', 'n', 's', 'o', 'l', 'e'], dev ['t', 't', 'y'],
    dev ['t', 't', 'y', '0'], dev ['n', 'u', 'l', 'l'], dev ['z', 'e', 'r', 'o'], dev ['f', 'u', 'l', 'l'],
    dev ['e', 'm', 'p', 't', 'y'], dev ['r', 'a', 'n', 'd', 'o', 'm'], dev ['u', 'r', 'a', 'n', 'd', 'o', 'm']]

/-- The block devices. -/
def blockDevices : List Path := [dev ['s', 'd', 'a'], dev ['s', 'd', 'a', '1'], dev ['s', 'd', 'a', '2']]

/-- The directories that are always there: mode and backend. -/
def fixedDirectories : List (Path × UInt16 × Backend) :=
  [(chars ['/'], 0o755, .ramfs), (chars ['/', 'h', 'o', 'm', 'e'], 0o755, .ramfs),
    (chars ['/', 'm', 'n', 't'], 0o755, .ramfs),
    (chars ['/', 'm', 'n', 't', '/', 'o', 's', '6', '4'], 0o755, .ramfs),
    (chars ['/', 'v', 'a', 'r'], 0o755, .ramfs), (chars ['/', 'd', 'e', 'v'], 0o755, .devfs),
    (chars ['/', 't', 'm', 'p'], 0o1777, .tmpfs), (chars ['/', 'p', 'r', 'o', 'c'], 0o555, .procfs)]

/-- The part of `stat_raw` before the volumes. -/
def statFixed (s : State R) (p : Path) : Option Stat :=
  if p ∈ charDevices then some ⟨0, 0o666, 0, 0, .charDevice, .devfs⟩
  else if p ∈ blockDevices then some ⟨0, 0o660, 0, 0, .blockDevice, .devfs⟩
  else
    match fixedDirectories.find? fun row => row.1 = p with
    | some (_, mode, backend) => some ⟨0, mode, 0, 0, .directory, backend⟩
    | none =>
      match if starts p tmpPrefix then tmpLookup s p else none with
      | some node => some ⟨node.data.length, node.mode, node.uid, node.gid, .file, .tmpfs⟩
      | none =>
        match if starts p procPrefix then env.procText p else none with
        | some text => some ⟨(text.take 511).length, 0o444, 0, 0, .file, .procfs⟩
        | none =>
          if p = chars ['/', 'r', 'o', 'o', 't'] then some ⟨0, 0o700, 0, 0, .directory, .ext2⟩ else none

/-- The part of `stat_raw` that asks the volume of `/var`. -/
def statExt2 (s : State R) (p : Path) : Option Stat :=
  if nativePath p then
    ((Ext2.ext2Stat p).run s.ext2).1.map fun st =>
      ⟨st.size, UInt16.ofNat st.mode, UInt16.ofNat st.uid, UInt16.ofNat st.gid, .file, .ext2⟩
  else none

/-- The part of `stat_raw` that asks the volume of `/home`. -/
def statFat (s : State R) (p : Path) : Option Stat :=
  if homePath p then
    (homeFind s.fat p).map fun f =>
      ⟨f.1, if f.2 then 0o700 else 0o600, ((homeOwner env s p).getD (0, 0)).1,
        ((homeOwner env s p).getD (0, 0)).2, if f.2 then .directory else .file, .fat32⟩
  else none

/-- The part of `stat_raw` that looks into the archive. -/
def statArchive (s : State R) (p : Path) : Option Stat :=
  (fsFind s p).map fun e =>
    ⟨e.data.length, if e.isDir then 0o555 else 0o444, 0, 0, if e.isDir then .directory else .file,
      .initramfs⟩

/-- `stat_raw`. -/
def statRaw (s : State R) (p : Path) : Option Stat :=
  (((statFixed env s p).or (statExt2 s p)).or (statFat env s p)).or (statArchive s p)

/-- The comparison of `vfs_check_permission` for an existing file. The bits that
are compared are not cut to three. -/
def permits (t : Auth.State) (mode uid gid : UInt16) (access : UInt32) : Bool :=
  let member := gid = authGetgid t ∨ gidGroup gid &&& authGetgroups t ≠ 0
  let bits := if uid = authGetuid t then mode >>> 6 else if member then mode >>> 3 else mode
  bits.toUInt32 &&& access = access

/-- The answer of `vfs_check_permission` for a file that does not exist. -/
def mayCreate (s : State R) (p : Path) : Bool :=
  match homeOwner env s p with
  | some (uid, _) => uid = authGetuid s.auth
  | none =>
    starts p tmpPrefix || starts p varTmpPrefix ||
      (authCurrentRole s.auth = Role.admin && (starts p varPrefix || starts p mntPrefix)) ||
      (authCurrentRole s.auth = Role.power && starts p varLocalPrefix)

/-- `vfs_check_permission`. -/
def vfsCheckPermission (s : State R) (p : Path) (access : UInt32) : Bool :=
  authIsRoot s.auth ||
    match statRaw env s p with
    | none => mayCreate env s p
    | some st => permits s.auth st.mode st.uid st.gid access

/-- `VFS_ACCESS_WRITE`. -/
def accessWrite : UInt32 := 2

/-- `VFS_ACCESS_READ`. -/
def accessRead : UInt32 := 4

/-- `vfs_stat_path`. -/
def vfsStatPath (s : State R) (p : Path) : Option Stat :=
  match statRaw env s p with
  | none => none
  | some st => if vfsCheckPermission env s p accessRead then some st else none

/-! ### Reading -/

/-- What a successful read tells: the bytes at the beginning of the buffer, the
number that is returned, and the file's attributes. -/
structure Reading where
  data : List UInt8
  n : ℕ
  stat : Stat

/-- A reading of all of a file. -/
def Reading.whole (data : List UInt8) (mode : UInt16) (backend : Backend) : Reading :=
  ⟨data, data.length, ⟨data.length, mode, 0, 0, .file, backend⟩⟩

/-- A reading of a device. -/
def Reading.device (data : List UInt8) : Reading := ⟨data, data.length, ⟨0, 0o666, 0, 0, .charDevice, .ramfs⟩⟩

/-- The last part of `vfs_read_raw`: the archive. -/
def readArchive (s : State R) (p : Path) (cap : ℕ) : Option Reading :=
  match fsFind s p with
  | none => none
  | some e => if e.isDir ∨ e.data.length > cap then none else some (.whole e.data 0o444 .initramfs)

/-- The part of `vfs_read_raw` behind the devices. On the volume of `/home` one
sector is read, whatever the size. -/
def readFile (s : State R) (p : Path) (cap : ℕ) : Option Reading :=
  if homePath p then
    if cap < 512 then none
    else
      match Fat.diskLoad s.fat p with
      | none => none
      | some (size, sector) => some ⟨sector.bytes 0 512, size, ⟨size, 0o666, 0, 0, .file, .fat32⟩⟩
  else
    match if nativePath p then ((Ext2.ext2Load p cap).run s.ext2).1 else none with
    | some data => some (.whole data 0o600 .ext2)
    | none => readArchive s p cap

/-- `vfs_read_raw`. -/
def vfsReadRaw (s : State R) (p : Path) (cap : ℕ) : State R × Option Reading :=
  if p = dev ['n', 'u', 'l', 'l'] ∨ p = dev ['e', 'm', 'p', 't', 'y'] then (s, some (.device []))
  else if p = dev ['z', 'e', 'r', 'o'] ∨ p = dev ['f', 'u', 'l', 'l'] then
    (s, some (.device (List.replicate cap 0)))
  else if p = dev ['r', 'a', 'n', 'd', 'o', 'm'] ∨ p = dev ['u', 'r', 'a', 'n', 'd', 'o', 'm'] then
    match env.randomRead cap s.pool with
    | (false, _, pool) => ({ s with pool := pool }, none)
    | (true, data, pool) =>
      ({ s with pool := pool }, some ⟨data, cap, ⟨0, 0o666, 0, 0, .charDevice, .ramfs⟩⟩)
  else (s, readFile s p cap)

/-- A reading of `/proc` or `/tmp`, with the attributes from `vfs_stat_path`. -/
def withStat (s : State R) (p : Path) (data : Option (List UInt8)) : Option Reading :=
  match data, vfsStatPath env s p with
  | some data, some st => some ⟨data, data.length, st⟩
  | _, _ => none

/-- `vfs_read`. -/
def vfsRead (s : State R) (p : Path) (cap : ℕ) : State R × Option Reading :=
  if vfsCheckPermission env s p accessRead then
    if starts p procPrefix then
      (s, withStat env s p ((env.procText p).map fun text => text.take (cap - 1)))
    else if starts p tmpPrefix then (s, withStat env s p (tmpfsLoad s p cap))
    else vfsReadRaw env s p cap
  else (s, none)

/-! ### Writing -/

/-- `0666 & ~auth_umask()`. -/
def newMode (t : Auth.State) : UInt16 := 0o666 &&& ~~~t.umask

/-- `varfs_store`. -/
def varfsStore (s : State R) (p : Path) (d : List UInt8) : State R × Bool :=
  match (Ext2.ext2Store p (fun i => d.getD i 0) d.length (newMode s.auth).toNat
    (authGetuid s.auth).toNat (authGetgid s.auth).toNat).run s.ext2 with
  | (result, ext2) => (s.putExt2 ext2, result.isSome)

/-- The part of `vfs_write_raw` behind the devices. -/
def writeFile (s : State R) (p : Path) (d : List UInt8) : State R × Written :=
  if homePath p then
    if d.length ≤ 512 then
      match Fat.diskStore s.fat p (fun i => d.getD i 0) d.length with
      | (fat, true) => (s.putFat fat, .ok d.length)
      | (fat, false) => (s.putFat fat, .error)
    else (s, .error)
  else if nativePath p then
    match varfsStore s p d with
    | (s, true) => (s, .ok d.length)
    | (s, false) => (s, .error)
  else (s, .error)

/-- `vfs_write_raw`. -/
def vfsWriteRaw (s : State R) (p : Path) (d : List UInt8) : State R × Written :=
  if p = dev ['f', 'u', 'l', 'l'] then (s, .noSpace)
  else if p = dev ['n', 'u', 'l', 'l'] ∨ p = dev ['z', 'e', 'r', 'o'] ∨ p = dev ['e', 'm', 'p', 't', 'y'] then
    (s, .ok d.length)
  else if p = dev ['r', 'a', 'n', 'd', 'o', 'm'] ∨ p = dev ['u', 'r', 'a', 'n', 'd', 'o', 'm'] then
    match env.randomMix d s.pool with
    | (true, pool) => ({ s with pool := pool }, .ok d.length)
    | (false, pool) => ({ s with pool := pool }, .error)
  else writeFile s p d

/-- `vfs_write`. -/
def vfsWrite (s : State R) (p : Path) (d : List UInt8) : State R × Written :=
  if vfsCheckPermission env s p accessWrite then
    if starts p tmpPrefix then
      match tmpfsStore s p d (newMode s.auth) (authGetuid s.auth) (authGetgid s.auth) with
      | (s, true) => (s, .ok d.length)
      | (s, false) => (s, .error)
    else vfsWriteRaw env s p d
  else (s, .error)

/-- `vfs_remove`. -/
def vfsRemove (s : State R) (p : Path) : State R × Bool :=
  if vfsCheckPermission env s p accessWrite then
    if starts p tmpPrefix then tmpfsRemove s p
    else if homePath p then
      match Fat.diskRemove s.fat p with
      | (fat, removed) => (s.putFat fat, removed)
    else if nativePath p then
      match (Ext2.ext2Remove p).run s.ext2 with
      | (result, ext2) => (s.putExt2 ext2, result.isSome)
    else (s, false)
  else (s, false)

end

end OS64.Vfs
