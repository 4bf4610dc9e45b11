import OS64.Auth.Model

/-!
# Installing packages

`package_install` of `kernel/core/kernel.c` and what it calls: a payload is asked
for at one mirror after the other, the body of the response is decoded from base64
into a buffer, checked against the digest in the catalog, and stored.

There are two buffers, `http_output` for responses and `installed_image` for
programs. Both are shared with other commands and keep whatever these have left in
them; here they are memories, of which any byte may be anything before.

What a mirror answers is a parameter, and so is the file system, as far as it is
used (`Varfs W`). The answer of `tls_https_get` is what it puts into the buffer,
never more than fits, and its result, of which 1 is success.
-/

namespace OS64.Packages

open Auth

/-! ### The catalog -/

/-- The hexadecimal digits of the catalog. -/
def isHex (c : UInt8) : Bool := (48 ≤ c ∧ c ≤ 57) ∨ (97 ≤ c ∧ c ≤ 102)

/-- `package_t`, the fields that are used. The catalog is generated with digests of
64 digits. -/
structure Package where
  name : List UInt8
  payload : List UInt8
  sha256 : List UInt8
  sha256_hex : sha256.length = 64 ∧ ∀ c ∈ sha256, isHex c = true

/-- `package_repository_t`. -/
structure Repository where
  host : List UInt8
  base : List UInt8

/-! ### Responses -/

/-- `sizeof http_output - 1`. -/
def capacity : ℕ := 32767

/-- What `tls_https_get` does: its result, and what it has put into the buffer. -/
structure Answer where
  result : ℤ
  data : List UInt8
  fits : data.length ≤ capacity

/-- `"HTTP/1.1 200"`. -/
def ok11 : List UInt8 := chars ['H', 'T', 'T', 'P', '/', '1', '.', '1', ' ', '2', '0', '0']

/-- `"HTTP/1.0 200"`. -/
def ok10 : List UInt8 := chars ['H', 'T', 'T', 'P', '/', '1', '.', '0', ' ', '2', '0', '0']

/-- `starts`, for a buffer. -/
def startsBuffer (b : ByteMem) (p : List UInt8) : Bool := b.bytes 0 p.length = p

/-- The empty line at `i`. -/
def emptyLine (b : ByteMem) (i : ℕ) : Bool := b.bytes i 4 = [13, 10, 13, 10]

/-- `package_http_body`: where the body begins and how long it is. -/
def packageHttpBody (http : ByteMem) (total : ℕ) : Except ℤ (ℕ × ℕ) :=
  if startsBuffer http ok11 = false ∧ startsBuffer http ok10 = false then .error (-1)
  else
    match (List.range (total - 3)).find? (emptyLine http) with
    | some i => .ok (i + 4, total - i - 4)
    | none => .error (-2)

/-- The path that a mirror is asked for; `none` if it is too long. -/
def requestPath (base relative : List UInt8) : Option (List UInt8) :=
  if (base.take 255).length + relative.length ≤ 255 then some (base.take 255 ++ relative) else none

/-- `package_fetch` from the `r`th mirror on, with the answers `https`. -/
def packageFetch (https : ℕ → List UInt8 → List UInt8 → Answer) (relative : List UInt8) :
    ℕ → List Repository → ByteMem → ℤ → ByteMem × Except ℤ (ℕ × ℕ)
  | _, [], http, last => (http, .error last)
  | r, repo :: repos, http, last =>
    match requestPath repo.base relative with
    | none => packageFetch https relative (r + 1) repos http last
    | some path =>
      let answer := https r repo.host path
      if answer.result ≠ 1 then
        packageFetch https relative (r + 1) repos (http.store 0 answer.data) answer.result
      else
        let http := Function.update (http.store 0 answer.data) answer.data.length 0
        match packageHttpBody http answer.data.length with
        | .ok body => (http, .ok body)
        | .error e => packageFetch https relative (r + 1) repos http e

/-! ### Decoding -/

/-- `sizeof installed_image`. -/
def imageSize : ℕ := 262144

/-- `base64_value`. -/
def base64Value (c : UInt8) : Option ℕ :=
  if 65 ≤ c ∧ c ≤ 90 then some (c.toNat - 65)
  else if 97 ≤ c ∧ c ≤ 122 then some (c.toNat - 97 + 26)
  else if 48 ≤ c ∧ c ≤ 57 then some (c.toNat - 48 + 52)
  else if c = 43 then some 62
  else if c = 47 then some 63
  else none

/-- The variables of `package_decode`, and the buffer it writes. -/
structure Decoder where
  value : ℕ
  bits : ℕ
  padding : ℕ
  out : ℕ
  image : ByteMem

/-- The digit is taken in. -/
def Decoder.shift (d : Decoder) (digit : ℕ) : Decoder :=
  { d with value := (d.value <<< 6) % 2 ^ 32 ||| digit, bits := d.bits + 6 }

/-- The byte is put out. -/
def Decoder.emit (d : Decoder) : Decoder where
  value := d.value &&& (1 <<< (d.bits - 8) - 1)
  bits := d.bits - 8
  padding := d.padding
  out := d.out + 1
  image := Function.update d.image d.out (UInt8.ofNat (d.value >>> (d.bits - 8)))

/-- The loop of `package_decode`, and whether it got to the end. -/
def decodeLoop : List UInt8 → Decoder → Decoder × Bool
  | [], d => (d, true)
  | c :: input, d =>
    if c = 32 ∨ c = 13 ∨ c = 10 ∨ c = 9 then decodeLoop input d
    else if c = 61 then decodeLoop input { d with padding := (d.padding + 1) % 2 ^ 32 }
    else if d.padding ≠ 0 then (d, false)
    else
      match base64Value c with
      | none => (d, false)
      | some digit =>
        if (d.shift digit).bits ≥ 8 then
          if d.out ≥ imageSize then (d.shift digit, false) else decodeLoop input (d.shift digit).emit
        else decodeLoop input (d.shift digit)

/-- `package_decode`: the buffer, and the length of the image. -/
def packageDecode (input : List UInt8) (image : ByteMem) : ByteMem × Option ℕ :=
  match decodeLoop input ⟨0, 0, 0, 0, image⟩ with
  | (d, false) => (d.image, none)
  | (d, true) => (d.image, if d.padding > 2 ∨ d.bits ≥ 6 ∨ d.out < 20 then none else some d.out)

/-! ### Checking -/

/-- `package_valid_elf`. -/
def packageValidElf (image : ByteMem) (size : ℕ) : Bool :=
  size ≥ 64 ∧ image 0 = 0x7f ∧ image 1 = 69 ∧ image 2 = 76 ∧ image 3 = 70 ∧ image 4 = 2 ∧ image 5 = 1 ∧
    image 18 = 0x3e ∧ image 19 = 0

/-- The value of a digit of the catalog. -/
def nibble (c : UInt8) : ℕ := if c ≤ 57 then c.toNat - 48 else c.toNat - 97 + 10

/-- The loop of `package_hash_valid`. -/
def hashLoop : List UInt8 → List UInt8 → Bool
  | d :: digest, a :: b :: text => d = UInt8.ofNat (nibble a <<< 4 ||| nibble b) && hashLoop digest text
  | _, _ => true

/-- A digest. -/
abbrev Digest := { l : List UInt8 // l.length = 32 }

/-- `package_hash_valid`, with `crypto_sha256` given. -/
def packageHashValid (sha256 : List UInt8 → Digest) (p : Package) (image : ByteMem) (size : ℕ) : Bool :=
  hashLoop (sha256 (image.bytes 0 size)).1 p.sha256

/-! ### Installing -/

/-- The calls to the file system of `/var`. -/
structure Varfs (W : Type) where
  mounted : W → Bool
  stat : List UInt8 → W → Bool
  store : List UInt8 → List UInt8 → W → Bool × W
  chmod : List UInt8 → UInt16 → W → Bool × W
  sync : W → Bool × W

/-- The buffers, and the file system. -/
structure State (W : Type) where
  http : ByteMem
  image : ByteMem
  world : W

/-- `package_path`, with the prefix `"/var/apps/"`. -/
def packagePath (name : List UInt8) : List UInt8 :=
  (chars ['/', 'v', 'a', 'r', '/', 'a', 'p', 'p', 's', '/'] ++ name).take 95

section

variable {W : Type} (fs : Varfs W)

/-- `package_installed`. -/
def packageInstalled (name : List UInt8) (w : W) : Bool := fs.mounted w && fs.stat (packagePath name) w

/-- `varfs_store(..) && varfs_chmod(.., 0755) && varfs_sync()`. -/
def storeImage (target bytes : List UInt8) (w : W) : W × Bool :=
  match fs.store target bytes w with
  | (false, w) => (w, false)
  | (true, w) =>
    match fs.chmod target 0o755 w with
    | (false, w) => (w, false)
    | (true, w) => ((fs.sync w).2, (fs.sync w).1)

/-- `package_install` once the image is in the buffer. -/
def installImage (sha256 : List UInt8 → Digest) (p : Package) (s : State W) (size : ℕ) : State W × ℤ :=
  if packageValidElf s.image size = false then (s, -3)
  else if packageHashValid sha256 p s.image size = false then (s, -5)
  else
    match storeImage fs (packagePath p.name) (s.image.bytes 0 size) s.world with
    | (w, false) => ({ s with world := w }, -4)
    | (w, true) => ({ s with world := w }, 0)

/-- `package_install`. -/
def packageInstall (https : ℕ → List UInt8 → List UInt8 → Answer) (repositories : List Repository)
    (sha256 : List UInt8 → Digest) (p : Package) (s : State W) : State W × ℤ :=
  if packageInstalled fs p.name s.world then (s, 1)
  else if fs.mounted s.world = false then (s, -1)
  else
    match packageFetch https p.payload 0 repositories s.http (-5) with
    | (http, .error _) => ({ s with http := http }, -2)
    | (http, .ok (start, length)) =>
      match packageDecode (http.bytes start length) s.image with
      | (image, none) => ({ s with http := http, image := image }, -3)
      | (image, some size) => installImage fs sha256 p { s with http := http, image := image } size

end

end OS64.Packages
