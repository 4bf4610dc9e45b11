import OS64.Lib.Memory

/-!
# The kernel heap

The allocator of `kernel/mm/memory.c`: a static array `heap` carved into blocks,
each a 48-byte header (`block_t`) followed by its payload, the headers linked in
both directions. The model works on the bytes: a header field is a
little-endian word of the memory, a pointer is an address, `0` is the null
pointer, and every store of the C text is a store here, in the same order and
reading the same words.

The loops of the allocator follow `next` links and stop at the null pointer. In
an arbitrary memory they need not stop, so each of them carries a fuel and says
so when it runs out (`OS64.Heap.Scan.outOfFuel`); an allocator call that would
not return is `none`. That this never happens in a run is a theorem
(`OS64.Heap.Call.exists_effect`), not an assumption.
-/

namespace OS64.Heap

/-! ### Constants and layout -/

/-- `HEAP_MAX_BYTES`, the size of the static array. -/
def heapMaxBytes : ℕ := 2 * 1024 * 1024

/-- `BLOCK_MAGIC`. -/
def blockMagic : ℕ := 0x4f5336344d454d31

/-- `ALIGNMENT`. -/
def alignment : ℕ := 16

/-- `MIN_PAYLOAD`. -/
def minPayload : ℕ := 16

/-- `sizeof(block_t)`: four 64-bit words and an `int`, rounded up to 16. -/
def headerBytes : ℕ := 48

/-- Where the linker has put the array `heap`: at a non-null address aligned
to 16 (the `aligned(16)` attribute), the whole array below the end of the
address space. -/
structure Placement where
  /-- The address of `heap[0]`. -/
  heap : ℕ
  heap_pos : 0 < heap
  heap_aligned : 16 ∣ heap
  heap_fits : heap + heapMaxBytes < 2 ^ 64

/-- The variables of the allocator, and the memory it works on. -/
structure State where
  mem : ByteMem
  totalKib : ℕ
  heapBytes : ℕ
  used : ℕ
  allocations : ℕ
  /-- The pointer to the first block, null when no heap has been set up. -/
  first : ℕ

/-! ### The header fields -/

/-- `block->magic`. -/
def magic (m : ByteMem) (block : ℕ) : ℕ := m.readLE 8 block

/-- `block->size`. -/
def size (m : ByteMem) (block : ℕ) : ℕ := m.readLE 8 (block + 8)

/-- `block->previous`. -/
def previous (m : ByteMem) (block : ℕ) : ℕ := m.readLE 8 (block + 16)

/-- `block->next`. -/
def next (m : ByteMem) (block : ℕ) : ℕ := m.readLE 8 (block + 24)

/-- `block->free`. -/
def free (m : ByteMem) (block : ℕ) : ℕ := m.readLE 4 (block + 32)

def setMagic (m : ByteMem) (block v : ℕ) : ByteMem := m.writeLE 8 block v

def setSize (m : ByteMem) (block v : ℕ) : ByteMem := m.writeLE 8 (block + 8) v

def setPrevious (m : ByteMem) (block v : ℕ) : ByteMem := m.writeLE 8 (block + 16) v

def setNext (m : ByteMem) (block v : ℕ) : ByteMem := m.writeLE 8 (block + 24) v

def setFree (m : ByteMem) (block v : ℕ) : ByteMem := m.writeLE 4 (block + 32) v

/-- `if (block->next) block->next->previous = block`, which closes every
change of the list. -/
def linkBack (m : ByteMem) (block : ℕ) : ByteMem :=
  if next m block ≠ 0 then setPrevious m (next m block) block else m

/-! ### Initialisation and statistics -/

/-- `align_up`: round up to a multiple of 16, or `0` where the addition would
overflow. Clearing the low bits is subtracting the remainder. -/
def alignUp (value : ℕ) : ℕ :=
  if value > 2 ^ 64 - 1 - (alignment - 1) then 0
  else (value + alignment - 1) - (value + alignment - 1) % alignment

/-- The size `memory_init` gives the heap when the boot map reports `available`
bytes. -/
def initialHeapBytes (available : ℕ) : ℕ :=
  let bytes := if available ≠ 0 ∧ available / 8 < heapMaxBytes then available / 8 else heapMaxBytes
  bytes - bytes % alignment

/-- `memory_init`, from the number of available bytes on that the boot map (or
its basic tag) reports: a heap of an eighth of it, at most the whole array, and
none at all when it could not hold one header and a least payload. -/
def memoryInit (P : Placement) (m : ByteMem) (available : ℕ) : State :=
  let bytes := initialHeapBytes available
  if bytes ≤ headerBytes + minPayload then
    { mem := m, totalKib := available / 1024, heapBytes := bytes, used := 0, allocations := 0,
      first := 0 }
  else
    let m := setMagic m P.heap blockMagic
    let m := setSize m P.heap (bytes - headerBytes)
    let m := setPrevious m P.heap 0
    let m := setNext m P.heap 0
    let m := setFree m P.heap 1
    { mem := m, totalKib := available / 1024, heapBytes := bytes, used := 0, allocations := 0,
      first := P.heap }

/-- How following the links of the block list ends. -/
inductive Scan
  /-- At the block looked for. -/
  | hit (block : ℕ) : Scan
  /-- At the null pointer, or at a header without the magic number. -/
  | miss : Scan
  /-- Not within the fuel. -/
  | outOfFuel : Scan

/-- An upper bound on the number of blocks: no two headers share an address. -/
def State.fuel (s : State) : ℕ := s.heapBytes + 1

/-- The loop of `memory_free_bytes`, from `block` on with `freeBytes` counted so
far. -/
def freeBytesFrom (m : ByteMem) : ℕ → ℕ → ℕ → Option ℕ
  | 0, _, _ => none
  | fuel + 1, block, freeBytes =>
    if block = 0 then some freeBytes
    else if magic m block ≠ blockMagic then some 0
    else freeBytesFrom m fuel (next m block)
      (if free m block ≠ 0 then (freeBytes + size m block) % 2 ^ 64 else freeBytes)

/-- `memory_free_bytes`. -/
def memoryFreeBytes (s : State) : Option ℕ := freeBytesFrom s.mem s.fuel s.first 0

/-- `memory_used_bytes`. -/
def memoryUsedBytes (s : State) : ℕ := s.used

/-- `memory_heap_bytes`. -/
def memoryHeapBytes (s : State) : ℕ :=
  if s.heapBytes > headerBytes then s.heapBytes - headerBytes else 0

/-- `memory_allocation_count`. -/
def memoryAllocationCount (s : State) : ℕ := s.allocations

/-! ### `kmalloc` -/

/-- The search of `kmalloc`: the first free block with room for `wanted`
bytes. -/
def findFit (m : ByteMem) (wanted : ℕ) : ℕ → ℕ → Scan
  | 0, _ => .outOfFuel
  | fuel + 1, block =>
    if block = 0 then .miss
    else if magic m block ≠ blockMagic then .miss
    else if free m block = 0 ∨ size m block < wanted then findFit m wanted fuel (next m block)
    else .hit block

/-- Cutting the tail of `block` off as a free block of its own, `wanted` bytes
into its payload. -/
def split (m : ByteMem) (block wanted : ℕ) : ByteMem :=
  let remainder := block + headerBytes + wanted
  let m := setMagic m remainder blockMagic
  let m := setSize m remainder (size m block - wanted - headerBytes)
  let m := setPrevious m remainder block
  let m := setNext m remainder (next m block)
  let m := setFree m remainder 1
  let m := linkBack m remainder
  let m := setNext m block remainder
  setSize m block wanted

/-- The part of `kmalloc` that turns the block found into an allocation. -/
def take (s : State) (block wanted : ℕ) : State :=
  let m := s.mem
  let m := if size m block ≥ (wanted + headerBytes + minPayload) % 2 ^ 64 then split m block wanted
    else m
  let m := setFree m block 0
  { s with
    mem := m
    used := (s.used + size m block) % 2 ^ 64
    allocations := (s.allocations + 1) % 2 ^ 64 }

/-- `kmalloc`: the state after the call and the pointer returned. -/
def kmalloc (s : State) (size : ℕ) : Option (State × ℕ) :=
  if size = 0 ∨ s.first = 0 then some (s, 0)
  else
    let wanted := alignUp size
    if wanted = 0 then some (s, 0)
    else match findFit s.mem wanted s.fuel s.first with
      | .hit block => some (take s block wanted, block + headerBytes)
      | .miss => some (s, 0)
      | .outOfFuel => none

/-! ### `kfree` -/

/-- The search of `kfree` and `krealloc`: the block whose payload starts at
`pointer`. -/
def findBlock (m : ByteMem) (pointer : ℕ) : ℕ → ℕ → Scan
  | 0, _ => .outOfFuel
  | fuel + 1, block =>
    if block = 0 then .miss
    else if block + headerBytes = pointer then .hit block
    else if magic m block ≠ blockMagic then .miss
    else findBlock m pointer fuel (next m block)

/-- Swallowing the following block, when there is one and it is free. -/
def mergeNext (m : ByteMem) (block : ℕ) : ByteMem :=
  if next m block ≠ 0 ∧ magic m (next m block) = blockMagic ∧ free m (next m block) ≠ 0 then
    let next' := next m block
    let m := setSize m block ((size m block + (headerBytes + size m next')) % 2 ^ 64)
    let m := setNext m block (next m next')
    linkBack m block
  else m

/-- Being swallowed by the preceding block, when there is one and it is free. -/
def mergePrevious (m : ByteMem) (block : ℕ) : ByteMem :=
  if previous m block ≠ 0 ∧ magic m (previous m block) = blockMagic ∧
      free m (previous m block) ≠ 0 then
    let previous' := previous m block
    let m := setSize m previous' ((size m previous' + (headerBytes + size m block)) % 2 ^ 64)
    let m := setNext m previous' (next m block)
    linkBack m previous'
  else m

/-- The part of `kfree` that gives an allocated block back. -/
def release (s : State) (block : ℕ) : State :=
  let m := setFree s.mem block 1
  let used := (s.used + 2 ^ 64 - size m block) % 2 ^ 64
  let allocations := if s.allocations ≠ 0 then s.allocations - 1 else s.allocations
  { s with mem := mergePrevious (mergeNext m block) block, used := used, allocations := allocations }

/-- `kfree`. -/
def kfree (P : Placement) (s : State) (pointer : ℕ) : Option State :=
  if pointer = 0 then some s
  else if pointer < P.heap + headerBytes ∨ pointer ≥ P.heap + s.heapBytes then some s
  else match findBlock s.mem pointer s.fuel s.first with
    | .hit block =>
      if magic s.mem block ≠ blockMagic ∨ free s.mem block ≠ 0 then some s
      else some (release s block)
    | .miss => some s
    | .outOfFuel => none

/-! ### `kcalloc` and `krealloc` -/

/-- `kcalloc`. -/
def kcalloc (s : State) (count size : ℕ) : Option (State × ℕ) :=
  if size ≠ 0 ∧ count > (2 ^ 64 - 1) / size then some (s, 0)
  else
    let bytes := count * size % 2 ^ 64
    match kmalloc s bytes with
    | none => none
    | some (s', result) =>
      if result = 0 then some (s', 0)
      else some ({ s' with mem := s'.mem.fill result 0 bytes }, result)

/-- `krealloc`. -/
def krealloc (P : Placement) (s : State) (pointer size : ℕ) : Option (State × ℕ) :=
  if pointer = 0 then kmalloc s size
  else if size = 0 then (kfree P s pointer).map fun s' => (s', 0)
  else match findBlock s.mem pointer s.fuel s.first with
    | .outOfFuel => none
    | .miss => some (s, 0)
    | .hit block =>
      if free s.mem block ≠ 0 ∨ magic s.mem block ≠ blockMagic then some (s, 0)
      else if Heap.size s.mem block ≥ size then some (s, pointer)
      else match kmalloc s size with
        | none => none
        | some (s', replacement) =>
          if replacement = 0 then some (s', 0)
          else
            let s' := { s' with
              mem := s'.mem.copy replacement pointer (Heap.size s'.mem block) }
            (kfree P s' pointer).map fun s'' => (s'', replacement)

end OS64.Heap
