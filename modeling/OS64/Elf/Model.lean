import OS64.Lib.Loops
import OS64.Lib.Memory

/-!
# Loading an executable

`elf_execute` of `kernel/core/elf.c`, up to the jump into the program. The image
is a part of memory and the segments are written to memory, so there is one memory
for both, of `2 ^ 64` addresses; every field of a header is read from it at the
moment the code reads it. All fields are unsigned, 64 bits at most, and sums are
taken modulo `2 ^ 64`, also those of pointers.

Next to the memory the machine keeps which addresses have been stored to. The call
of the entry point is the outcome `jump`, everything before it is modelled.
-/

namespace OS64.Elf

/-- Memory, and the addresses that have been stored to. -/
structure Machine where
  mem : ByteMem
  stored : ℕ → Bool

/-- A byte is stored. -/
def Machine.store (s : Machine) (a : ℕ) (v : UInt8) : Machine where
  mem := Function.update s.mem (a % 2 ^ 64) v
  stored := Function.update s.stored (a % 2 ^ 64) true

/-- Memory, at addresses that count modulo `2 ^ 64`. -/
def wrapped (m : ByteMem) : ByteMem := fun x => m (x % 2 ^ 64)

/-- A field of `k` bytes. -/
def field (m : ByteMem) (k a : ℕ) : ℕ := (wrapped m).readLE k a

/-! ### Headers -/

/-- `ehdr_t`, the fields that are read. -/
structure Ehdr where
  ident : List UInt8
  type : ℕ
  machine : ℕ
  entry : ℕ
  phoff : ℕ
  phentsize : ℕ
  phnum : ℕ
  deriving DecidableEq

/-- `phdr_t`, the fields that are read. -/
structure Phdr where
  type : ℕ
  offset : ℕ
  vaddr : ℕ
  filesz : ℕ
  memsz : ℕ
  deriving DecidableEq

/-- The header of an image. -/
def ehdr (m : ByteMem) (img : ℕ) : Ehdr where
  ident := (wrapped m).bytes img 5
  type := field m 2 (img + 16)
  machine := field m 2 (img + 18)
  entry := field m 8 (img + 24)
  phoff := field m 8 (img + 32)
  phentsize := field m 2 (img + 54)
  phnum := field m 2 (img + 56)

/-- A program header. -/
def phdr (m : ByteMem) (p : ℕ) : Phdr where
  type := field m 4 p
  offset := field m 8 (p + 8)
  vaddr := field m 8 (p + 16)
  filesz := field m 8 (p + 32)
  memsz := field m 8 (p + 40)

/-- The check of the header: `-2`. -/
def Ehdr.isElf (h : Ehdr) : Bool :=
  h.ident = [0x7f, 69, 76, 70, 2] ∧ h.machine = 62 ∧ h.type = 2

/-- The check of the table of program headers: `-3`. -/
def Ehdr.tableFits (h : Ehdr) (size : ℕ) : Bool :=
  ¬((h.phoff + h.phnum * h.phentsize) % 2 ^ 64 > size ∨ h.phentsize < 56)

/-- The check of a segment: `-4`. -/
def Phdr.fits (p : Phdr) (size : ℕ) : Bool :=
  ¬((p.offset + p.filesz) % 2 ^ 64 > size ∨ p.filesz > p.memsz ∨ p.vaddr < 0x800000 ∨
    (p.vaddr + p.memsz) % 2 ^ 64 > 0x1000000)

/-! ### Loading -/

/-- `for (; n < bound; n++) d[n] = value`. The counter has 64 bits. -/
def storeLoop (bound : Machine → ℕ) (value : ℕ → Machine → UInt8) (d n : ℕ) (s : Machine) : Machine :=
  Loops.forUp bound (fun n s => s.store (d + n) (value n s)) (2 ^ 64) n s

/-- `for (n = 0; n < p->filesz; n++) d[n] = img[p->offset + n]`. -/
def copyFile (img p d : ℕ) (s : Machine) : Machine :=
  storeLoop (fun s => (phdr s.mem p).filesz)
    (fun n s => wrapped s.mem (img + ((phdr s.mem p).offset + n))) d 0 s

/-- `for (n = p->filesz; n < p->memsz; n++) d[n] = 0`. -/
def zeroRest (p d : ℕ) (s : Machine) : Machine :=
  storeLoop (fun s => (phdr s.mem p).memsz) (fun _ _ => 0) d (phdr s.mem p).filesz s

/-- One turn of the loop over the program headers, at the header `p`; `none` is
`return -4`. -/
def loadSegment (img size p : ℕ) (s : Machine) : Option Machine :=
  if (phdr s.mem p).type ≠ 1 then some s
  else if (phdr s.mem p).fits size then
    some (zeroRest p (phdr s.mem p).vaddr (copyFile img p (phdr s.mem p).vaddr s))
  else none

/-- The loop over the program headers, and whether it got to the end. -/
def loadSegments (img size : ℕ) : ℕ → ℕ → Machine → Machine × Bool
  | 0, _, s => (s, true)
  | fuel + 1, i, s =>
    if i < (ehdr s.mem img).phnum then
      match loadSegment img size (img + (ehdr s.mem img).phoff + i * (ehdr s.mem img).phentsize) s with
      | none => (s, false)
      | some s => loadSegments img size fuel (i + 1) s
    else (s, true)

/-- How `elf_execute` goes on: it returns a code, or jumps. -/
inductive Outcome where
  | rejected (code : ℤ)
  | jump (entry : ℕ)
  deriving DecidableEq

/-- `elf_execute`. -/
def elfExecute (img size : ℕ) (m : ByteMem) : Machine × Outcome :=
  let s : Machine := ⟨m, fun _ => false⟩
  if size < 64 then (s, .rejected (-1))
  else if (ehdr m img).isElf = false then (s, .rejected (-2))
  else if (ehdr m img).tableFits size = false then (s, .rejected (-3))
  else
    match loadSegments img size 65536 0 s with
    | (s, false) => (s, .rejected (-4))
    | (s, true) =>
      if (ehdr s.mem img).entry < 0x800000 ∨ (ehdr s.mem img).entry ≥ 0x1000000 then (s, .rejected (-5))
      else (s, .jump (ehdr s.mem img).entry)

end OS64.Elf
