import OS64.Initramfs.Image
import OS64.Shell.Spellings

/-!
# The members of an archive

What an archive of the form USTAR is (`OS64.Initramfs.Laid`), as a relation between the
members and the bytes: how many blanks and zeros a size has in front, what else is in a
header, and what the data is filled up with, is left open. On such an image the three
routines do what they do on the list of its members
(`OS64.Initramfs.archive_members`), which is how `OS64.Vfs` has them.
-/

namespace OS64.Initramfs

open List Text Vfs Shell Option

variable {a : Image} {es : List Entry}

/-! ### Archives -/

/-- Octal digits. -/
def digits (ds : List ℕ) : List UInt8 := ds.map fun d => UInt8.ofNat (48 + d)

/-- The field has the size `n`: digits, after blanks or zeros and before blanks or zero
bytes. -/
def SizeField (s : List UInt8) (n : ℕ) : Prop :=
  ∃ lead ds rest, s = lead ++ (digits ds ++ rest) ∧ (∀ c ∈ lead, c = 32 ∨ c = 48) ∧
    (∀ d ∈ ds, d < 8) ∧ (∀ c ∈ rest, c = 0 ∨ c = 32) ∧ ds.foldl (fun v d => v * 8 + d) 0 = n

/-- A header of the member `e`. -/
structure HeaderOf (h : List UInt8) (e : Entry) : Prop where
  length : h.length = 512
  name : cstr (h.take 100) = e.name
  size : SizeField ((h.drop 124).take 12) e.data.length
  type : h.getD 156 0 = e.type

/-- The members are laid out as an archive, up to a block of zeros or the end. -/
inductive Laid : List Entry → List UInt8 → Prop
  | stop {rest : List UInt8} (h : rest.length < 512) : Laid [] rest
  | zeroBlock (rest : List UInt8) : Laid [] (replicate 512 0 ++ rest)
  | member {e : Entry} {es : List Entry} {h pad rest : List UInt8} (hh : HeaderOf h e)
      (hname : e.name ≠ [] ∧ e.name.length < 100)
      (hpad : pad.length < 512 ∧ 512 ∣ e.data.length + pad.length) (hrest : Laid es rest) :
      Laid (e :: es) (h ++ (e.data ++ (pad ++ rest)))

/-- The image is an archive of these members. -/
structure Archives (a : Image) (es : List Entry) : Prop where
  begin_ne : a.begin ≠ 0
  laid : ∃ image beyond, a.memory = image ++ beyond ∧ a.size = image.length ∧ Laid es image

/-- A file that is reported: its size, and what there is to read. -/
def read (a : Image) (f : File) : ℕ × Entry :=
  (f.size, ⟨f.name, (a.memory.drop f.data).take f.size, f.type⟩)

/-- A member as it is reported: a type of 0 stands for that of a file. -/
def shown (e : Entry) : ℕ × Entry :=
  (e.data.length, { e with type := if e.type = 0 then 48 else e.type })

/-- What counts of the name of a member. -/
def nameKey (n : Path) : Path :=
  trimSlashes (if [46, 47] <+: skipSlashes n then (skipSlashes n).drop 2 else skipSlashes n)

/-- What counts of a path. -/
def pathKey (p : Path) : Path := trimSlashes (skipSlashes p)

/-! ### Headers -/

theorem foldl_digits : ∀ {ds : List ℕ} {v : ℕ}, (∀ d ∈ ds, d < 8) →
    (digits ds).foldl (fun v c => v * 8 + (c.toNat - 48)) v = ds.foldl (fun v d => v * 8 + d) v
  | [], _, _ => rfl
  | d :: ds, v, hds => by
    have hd := hds d mem_cons_self
    rw [digits, map_cons, foldl_cons, foldl_cons, toNat_digit (by omega), Nat.add_sub_cancel_left]
    exact foldl_digits fun x hx => hds x (mem_cons_of_mem d hx)

/-- What follows the digits is none. -/
theorem takeWhile_rest {rest : List UInt8} (h : ∀ c ∈ rest, c = 0 ∨ c = 32) :
    rest.takeWhile (fun c => 48 ≤ c && c ≤ 55) = [] := by
  rcases rest with _ | ⟨c, rest⟩
  · rfl
  · rcases h c mem_cons_self with rfl | rfl <;> rfl

/-- Zeros in front of the digits do not count. -/
theorem octal_digits {rest : List UInt8} (hrest : ∀ c ∈ rest, c = 0 ∨ c = 32) :
    ∀ {ds : List ℕ}, (∀ d ∈ ds, d < 8) → octal (digits ds ++ rest) = ds.foldl (fun v d => v * 8 + d) 0
  | [], _ => by
    rw [digits, map_nil, nil_append, octal, takeWhile_rest]
    · rfl
    · exact fun c hc => hrest c ((dropWhile_sublist _).subset hc)
  | d :: ds, hds => by
    have hd := hds d mem_cons_self
    by_cases h0 : d = 0
    · subst h0
      have hskip : octal (digits (0 :: ds) ++ rest) = octal (digits ds ++ rest) := rfl
      rw [hskip, octal_digits hrest fun x hx => hds x (mem_cons_of_mem 0 hx)]
      rfl
    · have hfirst : (UInt8.ofNat (48 + d) == 32 || UInt8.ofNat (48 + d) == 48) = false := by
        interval_cases d <;> first | rfl | exact absurd rfl h0
      have hall : ∀ c ∈ digits (d :: ds), (48 ≤ c && c ≤ 55) = true := by
        intro c hc
        obtain ⟨x, hx, rfl⟩ := mem_map.mp hc
        have := hds x hx
        interval_cases x <;> rfl
      have hdrop : (digits (d :: ds) ++ rest).dropWhile (fun c => c == 32 || c == 48) = digits (d :: ds) ++ rest := by
        rw [digits, map_cons, cons_append, dropWhile_cons_of_neg]
        rw [hfirst]
        exact Bool.false_ne_true
      rw [octal, hdrop, takeWhile_append_of_pos hall, takeWhile_rest hrest, append_nil, foldl_digits hds]

theorem octal_of_sizeField {s : List UInt8} {n : ℕ} (h : SizeField s n) : octal s = n := by
  obtain ⟨lead, ds, rest, rfl, hlead, hds, hrest, rfl⟩ := h
  rw [← octal_digits hrest hds, octal, dropWhile_append_of_pos, ← octal]
  intro c hc
  rcases hlead c hc with rfl | rfl <;> rfl

/-- A name that ends before its field does. -/
theorem cstr_append {l : List UInt8} (h : (cstr l).length < l.length) (r : List UInt8) : cstr (l ++ r) = cstr l := by
  rw [cstr] at h
  rw [cstr, takeWhile_append, if_neg h.ne, cstr]

section Member

variable {e : Entry} {h pad rest : List UInt8} {p : ℕ} (hh : HeaderOf h e)
  (hp : a.memory.drop p = h ++ (e.data ++ (pad ++ rest)))
include hh hp

theorem HeaderOf.getD {i : ℕ} (hi : i < 512) : a.memory.getD (p + i) 0 = h.getD i 0 := by
  rw [getD_eq_getElem?_getD, ← getElem?_drop, hp,
    getElem?_append_left (by rw [hh.length]; exact hi), ← getD_eq_getElem?_getD]

theorem HeaderOf.sizeAt_eq : sizeAt a p = e.data.length := by
  have hlen := hh.length
  rw [sizeAt, ← drop_drop, hp, drop_append_of_le_length (by omega),
    take_append_of_le_length (by rw [length_drop]; omega), octal_of_sizeField hh.size]

/-- The position after the member. -/
theorem HeaderOf.drop_next (hpad : pad.length < 512 ∧ 512 ∣ e.data.length + pad.length) :
    next a p = p + (512 + (e.data.length + pad.length)) ∧ a.memory.drop (next a p) = rest := by
  have hnext : next a p = p + (512 + (e.data.length + pad.length)) := by
    rw [next, hh.sizeAt_eq hp]
    omega
  refine ⟨hnext, ?_⟩
  rw [hnext, ← drop_drop, hp, ← hh.length, ← append_assoc e.data, ← append_assoc h, ← length_append, ← length_append]
  exact drop_left

/-- **A member is read as it is.** -/
theorem HeaderOf.read_fileAt (hname : e.name.length < 100) : read a (fileAt a p) = shown e := by
  have hlen := hh.length
  have hcstr : cstr (a.memory.drop p) = e.name := by
    rw [hp, ← take_append_drop 100 h, append_assoc, cstr_append, hh.name]
    rw [hh.name, length_take]
    omega
  have hdata : (a.memory.drop (p + 512)).take e.data.length = e.data := by
    rw [← drop_drop, hp, ← hlen, drop_left, take_left]
  rw [read, fileAt, shown, hcstr, hh.sizeAt_eq hp, hdata, hh.getD hp (by decide), hh.type]

end Member

/-! ### The routines -/

/-- **The loop of `fs_at` goes through the members.** -/
theorem fsAtFrom_of_laid {image : List UInt8} (hl : Laid es image) :
    ∀ {p i k : ℕ} {beyond : List UInt8}, a.memory.drop p = image ++ beyond →
      p + image.length = a.size → (fsAtFrom a (i + k) p i).map (read a) = es[k]?.map shown := by
  induction hl with
  | stop hshort =>
    intro p i k beyond _ hsize
    rw [fsAtFrom, if_neg]
    · rfl
    · rintro ⟨hle, -⟩
      omega
  | zeroBlock rest =>
    intro p i k beyond hp _
    rw [fsAtFrom, if_neg]
    · rfl
    · rintro ⟨-, hne⟩
      refine hne ?_
      rw [← add_zero p, getD_eq_getElem?_getD, ← getElem?_drop, hp]
      rfl
  | @member e es h pad rest hh hname hpad hrest ih =>
    intro p i k beyond hp hsize
    rw [append_assoc, append_assoc, append_assoc] at hp
    rw [length_append, length_append, length_append, hh.length] at hsize
    have hheader : IsHeader a p := by
      refine ⟨by omega, fun h0 => ?_⟩
      have hfirst := hh.getD hp (show 0 < 512 by decide)
      rw [add_zero, h0] at hfirst
      have hn := hh.name
      rcases h with _ | ⟨c, h⟩
      · exact hname.1 hn.symm
      · obtain rfl : 0 = c := hfirst
        exact hname.1 hn.symm
    rw [fsAtFrom, if_pos hheader]
    rcases k with _ | k
    · rw [if_pos (add_zero i).symm, map_some, hh.read_fileAt hp hname.2]
      rfl
    · obtain ⟨hnext, hdrop⟩ := hh.drop_next hp hpad
      rw [if_neg (by omega), show i + (k + 1) = i + 1 + k by omega, ih hdrop (by omega)]
      rfl

section

variable (h : Archives a es)
include h

theorem Archives.fsAt (i : ℕ) : (fsAt a i).map (read a) = es[i]?.map shown := by
  obtain ⟨image, beyond, hmemory, hsize, hlaid⟩ := h.laid
  have hfrom := fsAtFrom_of_laid (a := a) (i := 0) (k := i) hlaid (p := 0) (by rw [drop_zero, hmemory])
    (by omega)
  rw [zero_add] at hfrom
  rw [Initramfs.fsAt, if_neg h.begin_ne, hfrom]

/-- The member that a file is. -/
theorem Archives.member {i : ℕ} {f : File} (hf : Initramfs.fsAt a i = some f) :
    ∃ e, es.drop i = e :: es.drop (i + 1) ∧ f.name = e.name ∧ read a f = shown e := by
  have hread := h.fsAt i
  rw [hf, map_some] at hread
  obtain ⟨e, he, hshown⟩ := map_eq_some_iff.mp hread.symm
  refine ⟨e, ?_, ?_, hshown.symm⟩
  · rw [drop_eq_getElem?_toList_append, he]
    rfl
  · exact (congrArg (fun x => x.2.name) hshown).symm

theorem Archives.isSome_fsAt (i : ℕ) : (Initramfs.fsAt a i).isSome = true ↔ i < es.length := by
  rw [← isSome_map (f := read a), h.fsAt, isSome_map, isSome_getElem?]

theorem Archives.fsCountFrom (n : ℕ) (hn : n ≤ es.length) : fsCountFrom a n = es.length := by
  fun_induction Initramfs.fsCountFrom a n with
  | case1 n hsome ih => exact ih ((h.isSome_fsAt n).mp hsome)
  | case2 n hnone =>
    rw [h.isSome_fsAt n] at hnone
    omega

end

/-- **`path_eq` compares what counts.** -/
theorem pathEq_iff (n p : Path) : pathEq n p = true ↔ nameKey n = pathKey p := by
  have hdot : ∀ l : Path, (l.getD 0 0 = 46 ∧ l.getD 1 0 = 47) ↔ [46, 47] <+: l := by
    intro l
    match l with
    | [] => simp
    | [c] => simp
    | c :: d :: l => simp [cons_prefix_cons, eq_comm]
  rw [pathEq, sameTail_iff, nameKey, pathKey]
  simp only [hdot]

/-- **`fs_find` searches the members**, from the one it has come to. -/
theorem Archives.fsFindFrom (h : Archives a es) (p : Path) (i : ℕ) : (fsFindFrom a p i).map (read a) =
    ((es.drop i).find? fun e => nameKey e.name = pathKey p).map shown := by
  fun_induction Initramfs.fsFindFrom a p i with
  | case1 i hnone =>
    have hlen : ¬i < es.length := by
      rw [← h.isSome_fsAt i, hnone]
      exact Bool.false_ne_true
    rw [drop_eq_nil_of_le (by omega)]
    rfl
  | case2 i f hf heq =>
    obtain ⟨e, he, hname, hshown⟩ := h.member hf
    rw [he, find?_cons_of_pos (by rw [decide_eq_true_iff, ← pathEq_iff, ← hname]; exact heq),
      map_some, map_some, hshown]
  | case3 i f hf hne ih =>
    obtain ⟨e, he, hname, -⟩ := h.member hf
    rw [ih, he, find?_cons_of_neg]
    rw [decide_eq_true_iff, ← pathEq_iff, ← hname]
    exact hne

/-- **The routines see the members of the archive.** `fs_count` counts them, `fs_at` returns
name, type, size and data of each under its number, and `fs_find` the first one whose name
is the path, up to slashes in front, one `./` of the name after them, and slashes at the
end. -/
theorem archive_members (h : Archives a es) : fsCount a = es.length ∧
    (∀ i, (fsAt a i).map (read a) = es[i]?.map shown) ∧
    ∀ p, (fsFind a p).map (read a) = (es.find? fun e => nameKey e.name = pathKey p).map shown :=
  ⟨h.fsCountFrom 0 (Nat.zero_le _), h.fsAt, fun p => h.fsFindFrom p 0⟩

/-- The header of a file of one byte. -/
def header (name : UInt8) : List UInt8 := name :: truncated.memory.drop 1

/-- The files `a` and `b`, with their data. -/
def twoFiles : Image :=
  { truncated with size := 2048, memory := header 97 ++ ([65] ++ (replicate 511 0 ++
    (header 98 ++ ([66] ++ (replicate 511 0 ++ []))))) }

/-- The second file is found. -/
theorem twoFiles_members : fsCount twoFiles = 2 ∧
    (fsFind twoFiles [47, 98]).map (read twoFiles) = some (1, ⟨[98], [66], 48⟩) := by
  have hsize : SizeField ((truncated.memory.drop 124).take 12) 1 :=
    ⟨replicate 10 48, [1], [0], by decide, fun c hc => .inr (eq_of_mem_replicate hc), by simp, by simp, rfl⟩
  have hpad : (replicate 511 (0 : UInt8)).length = 511 := length_replicate
  have harchive : Archives twoFiles [⟨[97], [65], 0⟩, ⟨[98], [66], 0⟩] := by
    refine ⟨by decide, twoFiles.memory, [], (append_nil _).symm, by decide +kernel, ?_⟩
    refine .member ⟨by decide +kernel, by decide, hsize, by decide⟩ (by decide) (by rw [hpad]; decide) ?_
    exact .member ⟨by decide +kernel, by decide, hsize, by decide⟩ (by decide) (by rw [hpad]; decide) (.stop (by decide))
  obtain ⟨hcount, -, hfind⟩ := archive_members harchive
  exact ⟨hcount, hfind [47, 98]⟩

end OS64.Initramfs
