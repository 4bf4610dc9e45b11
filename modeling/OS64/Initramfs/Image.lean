import OS64.Vfs.Model

/-!
# The image of the initramfs

The archive that the boot loader leaves in memory, as `fs.c` walks it: headers of 512
bytes, each followed by the data of its file, rounded up to 512 bytes. Every call starts
at the first header again. A header is looked at only if it lies in the image as a whole,
and the next one is at least 512 bytes further, so that each call comes to an end: the
functions here are total.

The size of a file is taken from its header as it is, and nothing compares it with what is
left of the image. So what is reported lies in the image exactly if the sizes do
(`OS64.Initramfs.reported_inside_iff`).
-/

namespace OS64.Initramfs

open Text

/-! ### The model -/

/-- What `fs_mount` is given: the address of the image, its length, and what is stored from
there on. The image is the first `size` bytes of it. -/
structure Image where
  begin : ℕ
  size : ℕ
  memory : List UInt8

/-- `fs_file_t`, with positions in the image for addresses. -/
structure File where
  name : Path
  data : ℕ
  size : ℕ
  type : UInt8
deriving DecidableEq

/-- `octal`, for a field of a header. -/
def octal (s : List UInt8) : ℕ :=
  ((s.dropWhile fun c => c == 32 || c == 48).takeWhile fun c => 48 ≤ c && c ≤ 55).foldl
    (fun v c => v * 8 + (c.toNat - 48)) 0

variable (a : Image)

/-- The size in the header at position `p`. -/
def sizeAt (p : ℕ) : ℕ := octal ((a.memory.drop (p + 124)).take 12)

/-- The header at position `p`, as `fs_at` reports it. -/
def fileAt (p : ℕ) : File where
  name := cstr (a.memory.drop p)
  data := p + 512
  size := sizeAt a p
  type := if a.memory.getD (p + 156) 0 = 0 then 48 else a.memory.getD (p + 156) 0

/-- There is a header at position `p`. -/
def IsHeader (p : ℕ) : Prop := p + 512 ≤ a.size ∧ a.memory.getD p 0 ≠ 0

instance (p : ℕ) : Decidable (IsHeader a p) := inferInstanceAs (Decidable (_ ∧ _))

/-- The position after the file at position `p`. -/
def next (p : ℕ) : ℕ := p + (512 + (sizeAt a p + 511) / 512 * 512)

/-- The loop of `fs_at`, at position `p` with counter `i`. -/
def fsAtFrom (wanted p i : ℕ) : Option File :=
  if IsHeader a p then
    if i = wanted then some (fileAt a p) else fsAtFrom wanted (next a p) (i + 1)
  else none
termination_by a.size - p
decreasing_by
  rename_i h _
  have := h.1
  rw [next]
  omega

/-- `fs_at`. -/
def fsAt (wanted : ℕ) : Option File := if a.begin = 0 then none else fsAtFrom a wanted 0 0

variable {a}

theorem le_next (p : ℕ) : p + 512 ≤ next a p := by
  rw [next]
  omega

variable {wanted p i : ℕ} {f : File}

/-- A file is found only as far as there are blocks. -/
theorem le_of_fsAtFrom (h : fsAtFrom a wanted p i = some f) : p + (wanted + 1) * 512 ≤ a.size + i * 512 := by
  fun_induction fsAtFrom a wanted p i with
  | case1 p hp =>
    have hle := hp.1
    omega
  | case2 p i hp hne ih =>
    have hle := ih h
    have hnext := le_next (a := a) p
    omega
  | case3 p i hp => simp at h

theorem lt_of_fsAt (h : (fsAt a wanted).isSome = true) : (wanted + 1) * 512 ≤ a.size := by
  obtain ⟨f, hf⟩ := Option.isSome_iff_exists.mp h
  rw [fsAt] at hf
  split at hf
  · simp at hf
  · have := le_of_fsAtFrom hf
    omega

variable (a)

/-- `fs_count`, from `n` on. -/
def fsCountFrom (n : ℕ) : ℕ := if (fsAt a n).isSome then fsCountFrom (n + 1) else n
termination_by a.size - n
decreasing_by
  rename_i h
  have := lt_of_fsAt h
  omega

/-- `fs_count`. -/
def fsCount : ℕ := fsCountFrom a 0

/-- `fs_find`, from the file `i` on. -/
def fsFindFrom (p : Path) (i : ℕ) : Option File :=
  match h : fsAt a i with
  | none => none
  | some f => if Vfs.pathEq f.name p then some f else fsFindFrom p (i + 1)
termination_by a.size - i
decreasing_by
  have := lt_of_fsAt (Option.isSome_iff_exists.mpr ⟨f, h⟩)
  omega

/-- `fs_find`. -/
def fsFind (p : Path) : Option File := fsFindFrom a p 0

variable {a}

/-! ### What is reported -/

/-- The positions of the headers `fs_at` comes by. -/
inductive Header (a : Image) : ℕ → Prop
  | first (hbegin : a.begin ≠ 0) (h : IsHeader a 0) : Header a 0
  | next {p : ℕ} (hp : Header a p) (h : IsHeader a (next a p)) : Header a (next a p)

theorem Header.isHeader (h : Header a p) : IsHeader a p := by
  cases h with
  | first _ h => exact h
  | next _ h => exact h

theorem Header.begin_ne (h : Header a p) : a.begin ≠ 0 := by
  induction h with
  | first hbegin _ => exact hbegin
  | next _ _ ih => exact ih

/-- What the loop reports is a header it comes by. -/
theorem header_of_fsAtFrom (hp : IsHeader a p → Header a p)
    (h : fsAtFrom a wanted p i = some f) : ∃ q, Header a q ∧ f = fileAt a q := by
  fun_induction fsAtFrom a wanted p i with
  | case1 p hhere => exact ⟨p, hp hhere, (Option.some.inj h).symm⟩
  | case2 p i hhere hne ih => exact ih (fun hnext => .next (hp hhere) hnext) h
  | case3 p i hnone => simp at h

/-- **Every header is reported**, under its number. -/
theorem fsAtFrom_of_header {q : ℕ} (h : Header a q) : ∃ n, ∀ i k,
    fsAtFrom a (i + n + k) 0 i = fsAtFrom a (i + n + k) q (i + n) := by
  induction h with
  | first _ h => exact ⟨0, fun i k => rfl⟩
  | @next p hp h ih =>
    obtain ⟨n, hn⟩ := ih
    refine ⟨n + 1, fun i k => ?_⟩
    have hstep := hn i (k + 1)
    rw [fsAtFrom.eq_def a _ p, if_pos hp.isHeader, if_neg (by omega)] at hstep
    rw [show i + (n + 1) + k = i + n + (k + 1) by omega, hstep]
    rfl

theorem fsFindFrom_eq_some {p : Path} (h : fsFindFrom a p i = some f) : ∃ j, fsAt a j = some f := by
  fun_induction fsFindFrom a p i with
  | case1 i hnone => simp at h
  | case2 i g hg heq =>
    rw [← Option.some.inj h]
    exact ⟨i, hg⟩
  | case3 i g hg hne ih => exact ih h

/-- **Files are reported inside the image** exactly if every header of it has a size that
ends inside: by `fs_at` under any number, and by `fs_find` under any path. -/
theorem reported_inside_iff (a : Image) :
    ((∀ i f, fsAt a i = some f → f.data + f.size ≤ a.size) ∧ ∀ p f, fsFind a p = some f → f.data + f.size ≤ a.size) ↔
    ∀ q, Header a q → q + 512 + sizeAt a q ≤ a.size := by
  constructor
  · rintro ⟨hat, -⟩ q hq
    obtain ⟨n, hn⟩ := fsAtFrom_of_header hq
    refine hat n (fileAt a q) ?_
    have hfrom := hn 0 0
    rw [zero_add, add_zero] at hfrom
    rw [fsAt, if_neg hq.begin_ne, hfrom, fsAtFrom, if_pos hq.isHeader, if_pos rfl]
  · intro hfits
    have hat : ∀ i f, fsAt a i = some f → f.data + f.size ≤ a.size := by
      intro i f hf
      rw [fsAt] at hf
      split at hf
      · simp at hf
      · rename_i hbegin
        obtain ⟨q, hq, rfl⟩ := header_of_fsAtFrom (.first hbegin) hf
        exact hfits q hq
    refine ⟨hat, fun p f hf => ?_⟩
    obtain ⟨j, hj⟩ := fsFindFrom_eq_some hf
    exact hat j f hj

/-- An image that ends after the header of a file called `a`, with one byte. -/
def truncated : Image where
  begin := 0x100000
  size := 512
  memory := 97 :: List.replicate 123 0 ++ List.replicate 10 48 ++ [49] ++ List.replicate 377 0

/-- The file is reported, and lies beyond the image. -/
theorem truncated_reported : fsAt truncated 0 = some ⟨[97], 512, 1, 48⟩ ∧ truncated.size < 512 + 1 := by
  rw [fsAt, fsAtFrom]
  decide

end OS64.Initramfs
