import OS64.Shell.Model
import OS64.Vfs.Model

/-!
# The commands that read files

`cat`, `xxd`, `head`, `tail`, `wc`, `dd`, `cp`, `mv` and `truncate` of
`kernel/core/kernel.c`, the call `read_file` for applications, and the policy of `kernel/security/ofp.c`
that some files may not be read or written by anybody but `root`. Each command
asks the policy by itself.

Files are read into a buffer: the shared `installed_image`, or an array on the
stack. `n`, the number that `vfs_read` returns, can be larger than what has been
read; the commands then go on in whatever the buffer held before, so the buffers
are memories here.

What goes to the display is a list of `Shown`.
-/

namespace OS64.Shell

open Text Auth Vfs

/-! ### The policy -/

/-- `OFP_READ`. -/
def ofpRead : ℕ := 1

/-- `OFP_WRITE`. -/
def ofpWrite : ℕ := 2

/-- `policies`. -/
def policies : List (Path × ℕ) :=
  [(chars ['e', 't', 'c', '/', 's', 'h', 'a', 'd', 'o', 'w'], 0),
    (chars ['e', 't', 'c', '/', 'p', 'a', 's', 's', 'w', 'd'], ofpRead),
    (chars ['s', 'b', 'i', 'n', '/', 'i', 'n', 'i', 't'], ofpRead)]

/-- The first loop of `same`: slashes, and dots that are followed by one. -/
def stripDots : Path → Path
  | 47 :: a => stripDots a
  | 46 :: 47 :: a => stripDots a
  | a => a

/-- The rest of `same`. -/
def sameTo : Path → Path → Bool
  | c :: a, d :: b => c = d && sameTo a b
  | a, [] => skipSlashes a = []
  | [], _ :: _ => false

/-- `same`. -/
def same (a b : Path) : Bool := sameTo (stripDots a) b

/-- `ofp_allowed`. -/
def ofpAllowed (auth : Auth.State) (p : Path) (op : ℕ) : Bool :=
  authIsRoot auth ||
    match policies.find? fun row => same p row.1 with
    | some (_, allowed) => allowed &&& op ≠ 0
    | none => true

/-! ### Arguments -/

/-- `..`: the last component is taken away. -/
def popComponent (out : Path) : Path :=
  if out.length > 1 then (out.dropLast.reverse.dropWhile (· != 47)).reverse else out

/-- A component is added. -/
def pushComponent (out component : Path) : Path :=
  let out := if out.length > 1 ∧ out.getLast? ≠ some 47 then out ++ [47] else out
  out ++ component.take (127 - out.length)

/-- One component in `resolve_path`. -/
def resolveStep (out component : Path) : Path :=
  if component = [46] then out
  else if component = [46, 46] then popComponent out
  else pushComponent out component

/-- The beginning of `resolve_path`: the directory, if the path is relative. -/
def resolveRaw (cwd input : Path) : Path :=
  let base :=
    if input.head? = some 47 then []
    else if (cwd.take 127).length > 1 ∧ (cwd.take 127).getLast? ≠ some 47 then cwd.take 127 ++ [47]
    else cwd.take 127
  base ++ input.take (127 - base.length)

/-- `resolve_path`. -/
def resolvePath (cwd input : Path) : Path :=
  let out := (((resolveRaw cwd (skipSpaces input)).splitOn 47).filter (· ≠ [])).foldl resolveStep [47]
  if out.length > 1 ∧ out.getLast? = some 47 then out.dropLast else out

/-- `parse_size`. -/
def parseSize (s : List UInt8) : Option ℕ :=
  if s = [] then none
  else
    let digits := s.takeWhile fun c => 48 ≤ c ∧ c ≤ 57
    let rest := s.drop digits.length
    -- The loop gives up before a digit once the number is beyond the limit.
    match digits.foldlM (fun n c => if n > 16384 then none else some (n * 10 + (c.toNat - 48))) 0 with
    | none => none
    | some n =>
      let k := rest.head? = some 107 ∨ rest.head? = some 75
      let n := if k then n * 1024 else n
      let rest := if k then rest.drop 1 else rest
      if rest = [] ∧ n ≤ 16384 then some n else none

/-- `line_args`: the number of lines and the file. -/
def lineArgs (a : List UInt8) : Option (ℕ × List UInt8) :=
  let a := skipSpaces a
  if Shell.starts a (chars ['-', 'n', ' ']) then
    let a := skipSpaces (a.drop 3)
    match parseSize (word 15 a) with
    | none => none
    | some lines =>
      let a := skipSpaces (a.drop (word 15 a).length)
      if a = [] then none else some (lines, a)
  else if a = [] then none
  else some (10, a)

/-- `two_args`. -/
def twoArgs (a : List UInt8) : Option (List UInt8 × List UInt8) :=
  let a := skipSpaces a
  let x := word 127 a
  let y := word 127 (skipSpaces (a.drop x.length))
  if x = [] ∨ y = [] then none else some (x, y)

/-! ### Output -/

/-- What is shown: a message, characters, a number, or text with marks for
style. -/
inductive Shown where
  | message (text : String)
  | text (l : List UInt8)
  | number (n : ℕ)
  | styled (l : List UInt8)
  deriving DecidableEq

/-- The state that commands work on. -/
structure Desk (R : Type) where
  vfs : Vfs.State R
  cwd : Path
  image : ByteMem
  stack : ByteMem

/-- What is seen of a call: what it shows, the exit status (zero if the call does
not set it, as the dispatcher has cleared it), and what an application gets. -/
structure Seen where
  out : List Shown
  status : ℕ
  returned : Option (ByteMem × ℕ) := none

/-- A line feed if the last byte is none. -/
def endLine (b : ByteMem) (n : ℕ) : List Shown := if n ≠ 0 ∧ b (n - 1) ≠ 10 then [.text [10]] else []

/-- `"0123456789abcdef"`. -/
def hexChar (v : ℕ) : UInt8 := UInt8.ofNat (if v < 10 then 48 + v else 87 + v)

/-- `hexbyte`. -/
def hexbyte (v : UInt8) : List UInt8 := [hexChar (v.toNat / 16), hexChar (v.toNat % 16)]

/-- One line of `c_xxd`, for the sixteen bytes from `i`. -/
def xxdLine (b : ByteMem) (n i : ℕ) : List UInt8 :=
  hexbyte (UInt8.ofNat (i / 256)) ++ hexbyte (UInt8.ofNat i) ++ [58, 32] ++
    ((List.range 16).flatMap fun j => (if i + j < n then hexbyte (b (i + j)) else [32, 32]) ++ [32]) ++
    [32] ++
    (((List.range 16).filter fun j => i + j < n).map fun j =>
      if 32 ≤ b (i + j) ∧ b (i + j) < 127 then b (i + j) else 46) ++
    [10]

/-- The loop of `c_head`: what is shown, and the lines seen. -/
def headChars (lines : ℕ) : ℕ → List UInt8 → List UInt8 × ℕ
  | seen, [] => ([], seen)
  | seen, c :: l =>
    if seen < lines then
      let r := headChars lines (if c = 10 then seen + 1 else seen) l
      (c :: r.1, r.2)
    else ([], seen)

/-- The loop of `c_tail`: where the last lines begin. -/
def tailStart (b : ByteMem) (n lines : ℕ) : ℕ → ℕ → ℕ
  | 0, _ => 0
  | start + 1, seen =>
    if seen ≤ lines then
      if b start = 10 ∧ start + 1 < n then
        if seen = lines then start + 1 else tailStart b n lines start (seen + 1)
      else tailStart b n lines start seen
    else start + 1

/-- One byte in `c_wc`: lines, words, and whether a word goes on. -/
def wcStep (t : ℕ × ℕ × Bool) (c : UInt8) : ℕ × ℕ × Bool :=
  let space := c = 32 ∨ c = 10 ∨ c = 9 ∨ c = 13
  (if c = 10 then t.1 + 1 else t.1, if ¬space ∧ t.2.2 = false then t.2.1 + 1 else t.2.1, !decide space)

section

variable {R : Type} (env : Env R)

/-- `sizeof installed_image`. -/
def imageCapacity : ℕ := 262144

/-- A file is read into an array on the stack. -/
def readStack (s : Desk R) (p : Path) (cap : ℕ) : Desk R × Option (ByteMem × ℕ) :=
  match vfsRead env s.vfs p cap with
  | (vfs, none) => ({ s with vfs := vfs }, none)
  | (vfs, some r) => ({ s with vfs := vfs }, some (s.stack.store 0 r.data, r.n))

/-- A file is read into `installed_image`. -/
def readImage (s : Desk R) (p : Path) (cap : ℕ) : Desk R × Option (ByteMem × ℕ) :=
  match vfsRead env s.vfs p cap with
  | (vfs, none) => ({ s with vfs := vfs }, none)
  | (vfs, some r) =>
    ({ s with vfs := vfs, image := s.image.store 0 r.data }, some (s.image.store 0 r.data, r.n))

/-- `protect_write`. -/
def protectWrite (s : Desk R) (p : Path) : Bool := ofpAllowed s.vfs.auth p ofpWrite

/-! ### Commands that show a file -/

/-- `c_cat`. -/
def cCat (s : Desk R) (a : List UInt8) : Desk R × Seen :=
  if skipSpaces a = [] then (s, ⟨[.message "cat: missing operand\n"], 2, none⟩)
  else
    let p := resolvePath s.cwd a
    if ofpAllowed s.vfs.auth p ofpRead then
      match readStack env s p 512 with
      | (s, none) => (s, ⟨[.message "cat: cannot open '", .text p, .message "'\n"], 1, none⟩)
      | (s, some (b, n)) => (s, ⟨.styled (b.bytes 0 n) :: endLine b n, 0, none⟩)
    else (s, ⟨[.message "cat: ", .text p, .message ": Operation not permitted\n"], 1, none⟩)

/-- `c_xxd`. -/
def cXxd (s : Desk R) (a : List UInt8) : Desk R × Seen :=
  if skipSpaces a = [] then (s, ⟨[.message "xxd: missing operand\n"], 2, none⟩)
  else
    let p := resolvePath s.cwd a
    if ofpAllowed s.vfs.auth p ofpRead then
      match readStack env s p 512 with
      | (s, none) => (s, ⟨[.message "xxd: cannot read '", .text p, .message "'\n"], 1, none⟩)
      | (s, some (b, n)) =>
        (s, ⟨(List.range ((n + 15) / 16)).map fun k => .text (xxdLine b n (16 * k)), 0, none⟩)
    else (s, ⟨[.message "xxd: Operation not permitted\n"], 1, none⟩)

/-- `file_read_arg`, into `installed_image`: the path, the bytes, their number. -/
def fileReadArg (s : Desk R) (a : List UInt8) : Desk R × Option (Path × ByteMem × ℕ) :=
  if skipSpaces a = [] then (s, none)
  else
    let p := resolvePath s.cwd a
    if ofpAllowed s.vfs.auth p ofpRead then
      match readImage env s p imageCapacity with
      | (s, none) => (s, none)
      | (s, some (b, n)) => (s, some (p, b, n))
    else (s, none)

/-- `c_head`. -/
def cHead (s : Desk R) (a : List UInt8) : Desk R × Seen :=
  match lineArgs a with
  | none => (s, ⟨[.message "head: usage: head [-n LINES] FILE\n"], 0, none⟩)
  | some (lines, f) =>
    match fileReadArg env s f with
    | (s, none) => (s, ⟨[.message "head: cannot read file\n"], 0, none⟩)
    | (s, some (_, b, n)) =>
      let r := headChars lines 0 (b.bytes 0 n)
      (s, ⟨.text r.1 :: if r.2 < lines then endLine b n else [], 0, none⟩)

/-- `c_tail`. -/
def cTail (s : Desk R) (a : List UInt8) : Desk R × Seen :=
  match lineArgs a with
  | none => (s, ⟨[.message "tail: usage: tail [-n LINES] FILE\n"], 0, none⟩)
  | some (lines, f) =>
    match fileReadArg env s f with
    | (s, none) => (s, ⟨[.message "tail: cannot read file\n"], 0, none⟩)
    | (s, some (_, b, n)) =>
      let start := tailStart b n lines n 0
      (s, ⟨.text (b.bytes start (n - start)) :: endLine b n, 0, none⟩)

/-- The options of `c_wc`: which number is asked for, zero for all of them, and
the file. -/
def wcArgs (a : List UInt8) : ℕ × List UInt8 :=
  let a := skipSpaces a
  if Shell.starts a (chars ['-', 'l', ' ']) then (1, a.drop 3)
  else if Shell.starts a (chars ['-', 'w', ' ']) then (2, a.drop 3)
  else if Shell.starts a (chars ['-', 'c', ' ']) then (3, a.drop 3)
  else (0, a)

/-- A number of `c_wc`, if it is asked for. -/
def wcShow (only which n : ℕ) : List Shown :=
  if only = 0 ∨ only = which then [.number n, .text [32]] else []

/-- `c_wc`. -/
def cWc (s : Desk R) (a : List UInt8) : Desk R × Seen :=
  let only := (wcArgs a).1
  match fileReadArg env s (wcArgs a).2 with
  | (s, none) => (s, ⟨[.message "wc: cannot read file\n"], 0, none⟩)
  | (s, some (p, b, n)) =>
    let t := (b.bytes 0 n).foldl wcStep (0, 0, false)
    (s, ⟨wcShow only 1 t.1 ++ wcShow only 2 t.2.1 ++ wcShow only 3 n ++ [.text p, .text [10]], 0, none⟩)

/-! ### Commands that write what they have read -/

/-- The operands of `c_dd`. -/
structure DdArgs where
  input : List UInt8 := []
  output : List UInt8 := []
  bs : ℕ := 512
  count : ℕ := 0

/-- One operand of `c_dd`. -/
def ddOperand (o : DdArgs) (w : List UInt8) : Except String DdArgs :=
  if w.length > 3 ∧ Shell.starts w (chars ['i', 'f', '=']) then .ok { o with input := (w.drop 3).take 127 }
  else if w.length > 3 ∧ Shell.starts w (chars ['o', 'f', '=']) then
    .ok { o with output := (w.drop 3).take 127 }
  else if w.length > 3 ∧ Shell.starts w (chars ['b', 's', '=']) then
    match parseSize ((w.drop 3).take 15) with
    | none | some 0 => .error "dd: invalid block size\n"
    | some bs => .ok { o with bs := bs }
  else if w.length > 6 ∧ Shell.starts w (chars ['c', 'o', 'u', 'n', 't', '=']) then
    match parseSize ((w.drop 6).take 15) with
    | none => .error "dd: invalid count\n"
    | some count => .ok { o with count := count }
  else .error "dd: unrecognized operand\n"

/-- The beginning of `c_dd`. -/
def ddArgs (a : List UInt8) : Except String DdArgs :=
  match ((a.splitOn 32).filter (· ≠ [])).foldlM ddOperand {} with
  | .error m => .error m
  | .ok o =>
    if o.input = [] ∨ o.output = [] then .error "dd: usage: dd if=FILE of=FILE [bs=N] [count=N]\n" else .ok o

/-- The end of `c_dd`: `n` bytes have been read and are written. -/
def ddWrite (s : Desk R) (bs : ℕ) (p : Path) (b : ByteMem) (n : ℕ) : Desk R × Seen :=
  match vfsWrite env s.vfs p (b.bytes 0 n) with
  | (vfs, .noSpace) =>
    ({ s with vfs := vfs }, ⟨[.message "dd: error writing output: No space left on device\n"], 0, none⟩)
  | (vfs, .error) => ({ s with vfs := vfs }, ⟨[.message "dd: error writing output\n"], 0, none⟩)
  | (vfs, .ok written) =>
    if written = n then
      ({ s with vfs := vfs },
        ⟨[.number ((n + bs - 1) / bs), .message "+0 records in\n", .number ((written + bs - 1) / bs),
          .message "+0 records out\n", .number written, .message " bytes copied\n"], 0, none⟩)
    else ({ s with vfs := vfs }, ⟨[.message "dd: error writing output\n"], 0, none⟩)

/-- The part of `c_dd` behind the policy. -/
def ddTransfer (s : Desk R) (o : DdArgs) (ip op : Path) : Desk R × Seen :=
  let requested := if o.count ≠ 0 then o.bs * o.count else imageCapacity
  if requested > imageCapacity then (s, ⟨[.message "dd: requested transfer exceeds 256 KiB\n"], 0, none⟩)
  else
    match readImage env s ip requested with
    | (s, none) => (s, ⟨[.message "dd: failed to read input\n"], 0, none⟩)
    | (s, some (b, n)) => ddWrite env s o.bs op b (if o.count ≠ 0 ∧ n > requested then requested else n)

/-- `c_dd`. -/
def cDd (s : Desk R) (a : List UInt8) : Desk R × Seen :=
  match ddArgs a with
  | .error m => (s, ⟨[.message m], 0, none⟩)
  | .ok o =>
    let ip := resolvePath s.cwd o.input
    let op := resolvePath s.cwd o.output
    if ofpAllowed s.vfs.auth ip ofpRead ∧ protectWrite s op then ddTransfer env s o ip op
    else (s, ⟨[.message "dd: Operation not permitted\n"], 0, none⟩)

/-- The reading and writing of `c_cp` and `c_mv`, and whether all was written. -/
def copy (s : Desk R) (xp yp : Path) : Desk R × Bool :=
  match readImage env s xp imageCapacity with
  | (s, none) => (s, false)
  | (s, some (b, n)) =>
    match vfsWrite env s.vfs yp (b.bytes 0 n) with
    | (vfs, result) => ({ s with vfs := vfs }, result = .ok n)

/-- `c_cp`. The source is not looked up in the policy. -/
def cCp (s : Desk R) (a : List UInt8) : Desk R × Seen :=
  match twoArgs a with
  | none => (s, ⟨[.message "cp: missing operand\n"], 2, none⟩)
  | some (x, y) =>
    if protectWrite s (resolvePath s.cwd y) then
      match copy env s (resolvePath s.cwd x) (resolvePath s.cwd y) with
      | (s, true) => (s, ⟨[], 0, none⟩)
      | (s, false) => (s, ⟨[.message "cp: cannot copy between these filesystems\n"], 1, none⟩)
    else (s, ⟨[.message "cp: Operation not permitted\n"], 1, none⟩)

/-- The part of `c_mv` behind the policy. -/
def moveFile (s : Desk R) (xp yp : Path) : Desk R × Bool :=
  match copy env s xp yp with
  | (s, false) => (s, false)
  | (s, true) =>
    match vfsRemove env s.vfs xp with
    | (vfs, removed) => ({ s with vfs := vfs }, removed)

/-- `c_mv`. -/
def cMv (s : Desk R) (a : List UInt8) : Desk R × Seen :=
  match twoArgs a with
  | none => (s, ⟨[.message "mv: missing operand\n"], 2, none⟩)
  | some (x, y) =>
    let xp := resolvePath s.cwd x
    let yp := resolvePath s.cwd y
    if protectWrite s xp ∧ protectWrite s yp then
      match moveFile env s xp yp with
      | (s, true) => (s, ⟨[], 0, none⟩)
      | (s, false) => (s, ⟨[.message "mv: cannot move between these filesystems\n"], 1, none⟩)
    else (s, ⟨[.message "mv: Operation not permitted\n"], 1, none⟩)

/-- The arguments of `c_truncate`: the size and the file. -/
def truncateArgs (a : List UInt8) : Except String (ℕ × List UInt8) :=
  let a := skipSpaces a
  if Shell.starts a (chars ['-', 's', ' ']) then
    let a := skipSpaces (a.drop 3)
    let f := skipSpaces (a.drop (word 15 a).length)
    match parseSize (word 15 a) with
    | none => .error "truncate: invalid size or missing file\n"
    | some target => if f = [] then .error "truncate: invalid size or missing file\n" else .ok (target, f)
  else .error "truncate: usage: truncate -s SIZE FILE\n"

/-- The end of `c_truncate`: `n` bytes of the buffer are kept, and zeros are added. -/
def truncateWrite (s : Desk R) (p : Path) (n target : ℕ) : Desk R × Seen :=
  let image := s.image.fill n 0 (target - n)
  match vfsWrite env s.vfs p (image.bytes 0 target) with
  | (vfs, .noSpace) =>
    ({ s with vfs := vfs, image := image }, ⟨[.message "truncate: No space left on device\n"], 0, none⟩)
  | (vfs, .error) => ({ s with vfs := vfs, image := image }, ⟨[.message "truncate: write failed\n"], 0, none⟩)
  | (vfs, .ok written) =>
    ({ s with vfs := vfs, image := image },
      ⟨if written ≠ target then [.message "truncate: write failed\n"] else [], 0, none⟩)

/-- `c_truncate`. A file that cannot be read is taken for an empty one. -/
def cTruncate (s : Desk R) (a : List UInt8) : Desk R × Seen :=
  match truncateArgs a with
  | .error m => (s, ⟨[.message m], 0, none⟩)
  | .ok (target, f) =>
    let p := resolvePath s.cwd f
    if protectWrite s p then
      match readImage env s p imageCapacity with
      | (s, none) => truncateWrite env s p 0 target
      | (s, some (_, n)) => truncateWrite env s p (if n > target then target else n) target
    else (s, ⟨[.message "truncate: Operation not permitted\n"], 0, none⟩)

/-! ### Applications -/

/-- `abi_read_file`, for pointers that are not null: the caller's array `d` and
the length. -/
def abiReadFile (s : Desk R) (p : Path) (d : ByteMem) (cap : ℕ) : Desk R × Seen :=
  if ofpAllowed s.vfs.auth p ofpRead then
    match vfsRead env s.vfs p cap with
    | (vfs, none) => ({ s with vfs := vfs }, ⟨[], 0, none⟩)
    | (vfs, some r) => ({ s with vfs := vfs }, ⟨[], 0, some (d.store 0 r.data, r.n)⟩)
  else (s, ⟨[], 0, none⟩)

/-- The ways to read a file. -/
inductive Call where
  | cat (a : List UInt8)
  | xxd (a : List UInt8)
  | head (a : List UInt8)
  | tail (a : List UInt8)
  | wc (a : List UInt8)
  | dd (a : List UInt8)
  | cp (a : List UInt8)
  | mv (a : List UInt8)
  | readFile (p : Path) (d : ByteMem) (cap : ℕ)

/-- A call is made. -/
def Call.run (s : Desk R) : Call → Desk R × Seen
  | .cat a => cCat env s a
  | .xxd a => cXxd env s a
  | .head a => cHead env s a
  | .tail a => cTail env s a
  | .wc a => cWc env s a
  | .dd a => cDd env s a
  | .cp a => cCp env s a
  | .mv a => cMv env s a
  | .readFile p d cap => abiReadFile env s p d cap

end

end OS64.Shell
