import Mathlib.Data.List.TakeWhile
import Mathlib.Data.Nat.Digits.Lemmas

/-!
# Text in buffers

What hand-written C code does with text: strings that end at the first NUL
(`Text.cstr`), output into a buffer of limited capacity that gives up as soon as
the buffer is full (`Text.putc`, `Text.puts`), decimal numbers printed digit by
digit (`Text.decimal`) and read back into a word of limited size
(`Text.number`), and files made of lines.

The results on formats are that a number that fits is read back as it was printed
(`Text.number_decimal`), that text made of lines is cut into these lines again
(`Text.splitOn_lines`), and that any text is its lines, up to a line end at its end
(`Text.unlines_lines`).
-/

namespace Text

open List

/-! ### Strings -/

variable {c : UInt8} {cap k m v : ℕ}

/-- The string at the beginning of a memory: everything before the first NUL. -/
def cstr (l : List UInt8) : List UInt8 := l.takeWhile (· != 0)

theorem zero_notMem_cstr (l : List UInt8) : 0 ∉ cstr l := by
  intro h
  have := mem_takeWhile_imp h
  simp at this

variable {l : List UInt8} {d : ℕ} {ls : List (List UInt8)}

theorem cstr_eq_self (h : 0 ∉ l) : cstr l = l := by
  rw [cstr, takeWhile_eq_self_iff]
  intro c hc
  simp only [bne_iff_ne, ne_eq]
  rintro rfl
  exact h hc

/-! ### Output -/

/-- One more character, if there is room. -/
def putc (cap : ℕ) (c : UInt8) (out : List UInt8) : Option (List UInt8) :=
  if cap ≤ out.length then none else some (out ++ [c])

/-- One character after the other. -/
def puts (cap : ℕ) : List UInt8 → List UInt8 → Option (List UInt8)
  | [], out => some out
  | c :: cs, out => (putc cap c out).bind (puts cap cs)

theorem putc_of_lt {out : List UInt8} (h : out.length < cap) : putc cap c out = some (out ++ [c]) := if_neg (by omega)

/-- **Output that fits is output.** -/
theorem puts_of_le : ∀ {cs out : List UInt8}, out.length + cs.length ≤ cap → puts cap cs out = some (out ++ cs)
  | [], out, _ => by rw [puts, append_nil]
  | c :: cs, out, h => by
    rw [length_cons] at h
    rw [puts, putc_of_lt (by omega), Option.bind_some,
      puts_of_le (by rw [length_append, length_singleton]; omega), append_assoc,
      singleton_append]

/-! ### Numbers -/

/-- The decimal digits of a number. -/
def decimal (v : ℕ) : List UInt8 :=
  if v = 0 then [48] else (Nat.digits 10 v).reverse.map fun d => UInt8.ofNat (48 + d)

/-- A decimal digit. -/
def isDigit (c : UInt8) : Bool := 48 ≤ c ∧ c ≤ 57

/-- Reading digits into a word of `m` values, on top of `v`. -/
def number (m : ℕ) : ℕ → List UInt8 → ℕ × List UInt8
  | v, [] => (v, [])
  | v, c :: cs => if isDigit c then number m ((v * 10 + (c.toNat - 48)) % m) cs else (v, c :: cs)

theorem toNat_digit (h : d < 10) : (UInt8.ofNat (48 + d)).toNat = 48 + d := by
  rw [UInt8.toNat_ofNat']
  omega

theorem isDigit_digit (h : d < 10) : isDigit (UInt8.ofNat (48 + d)) = true := by
  have hd := toNat_digit h
  rw [isDigit, decide_eq_true_iff, UInt8.le_iff_toNat_le, UInt8.le_iff_toNat_le, hd]
  change 48 ≤ 48 + d ∧ 48 + d ≤ 57
  omega

theorem length_decimal_le (hk : 0 < k) (h : v < 10 ^ k) : (decimal v).length ≤ k := by
  rw [decimal]
  split
  · exact hk
  · rw [length_map, length_reverse]
    exact (Nat.digits_length_le_iff (by decide) v).mpr h

theorem isDigit_of_mem_decimal (hc : c ∈ decimal v) : isDigit c = true := by
  rw [decimal] at hc
  split at hc
  · obtain rfl := mem_singleton.mp hc
    decide
  · obtain ⟨d, hd, rfl⟩ := mem_map.mp hc
    exact isDigit_digit (Nat.digits_lt_base (by decide) (mem_reverse.mp hd))

/-- The value of some digits. -/
def value (ds : List UInt8) : ℕ := ds.foldl (fun n c => n * 10 + (c.toNat - 48)) 0

/-- Further digits do not reach the next value of the first ones. -/
theorem value_append_lt (ds : List UInt8) {es : List UInt8} (h : ∀ c ∈ es, isDigit c = true) :
    value (ds ++ es) < (value ds + 1) * 10 ^ es.length := by
  induction es using List.reverseRecOn with
  | nil =>
    rw [append_nil, length_nil, pow_zero, mul_one]
    exact Nat.lt_succ_self _
  | append_singleton es e ih =>
    have hlast : value (ds ++ (es ++ [e])) = value (ds ++ es) * 10 + (e.toNat - 48) := by
      rw [value, ← append_assoc, foldl_append]
      rfl
    have hdigit : e.toNat - 48 < 10 := by
      have he := h e (by simp)
      rw [isDigit, decide_eq_true_iff, UInt8.le_iff_toNat_le, UInt8.le_iff_toNat_le] at he
      have htop : e.toNat ≤ 57 := he.2
      omega
    have hinit := ih fun c hc => h c (mem_append_left _ hc)
    rw [hlast, length_append, length_singleton, pow_succ, ← mul_assoc]
    omega

theorem value_decimal (v : ℕ) : value (decimal v) = v := by
  rw [decimal]
  split
  · rename_i hv
    rw [hv]
    rfl
  · rw [value, foldl_map]
    have hdigits : ∀ d ∈ (Nat.digits 10 v).reverse, d < 10 := fun d hd =>
      Nat.digits_lt_base (by decide) (mem_reverse.mp hd)
    have hstep : (Nat.digits 10 v).reverse.foldl (fun n d => n * 10 + ((UInt8.ofNat (48 + d)).toNat - 48)) 0 =
        (Nat.digits 10 v).reverse.foldl (fun n d => n * 10 + d) 0 := by
      refine foldl_ext _ _ _ fun n d hd => ?_
      rw [toNat_digit (hdigits d hd), Nat.add_sub_cancel_left]
    have hof := Nat.ofDigits_digits 10 v
    rw [Nat.ofDigits_eq_foldr] at hof
    rw [hstep, foldl_reverse]
    simpa [Nat.mul_comm, Nat.add_comm] using hof

/-- Digits are read one after the other; reducing at each of them is reducing at the end. -/
theorem number_append (rest : List UInt8) : ∀ {ds : List UInt8} (v : ℕ), (∀ c ∈ ds, isDigit c = true) →
    number m (v % m) (ds ++ rest) = number m (ds.foldl (fun n c => n * 10 + (c.toNat - 48)) v % m) rest
  | [], _, _ => rfl
  | d :: ds, v, h => by
    have hstep : (v % m * 10 + (d.toNat - 48)) % m = (v * 10 + (d.toNat - 48)) % m := by
      rw [Nat.add_mod, Nat.mul_mod, Nat.mod_mod, ← Nat.mul_mod, ← Nat.add_mod]
    rw [cons_append, number, if_pos (h d mem_cons_self), hstep,
      number_append rest _ fun c hc => h c (mem_cons_of_mem d hc), foldl_cons]

/-- **The digits in front are read.** -/
theorem number_value {ds rest : List UInt8} (h : ∀ c ∈ ds, isDigit c = true)
    (hrest : ∀ c ∈ rest.head?, isDigit c = false) : number m 0 (ds ++ rest) = (value ds % m, rest) := by
  have hread := number_append (m := m) rest 0 h
  rw [Nat.zero_mod] at hread
  rw [hread]
  cases rest with
  | nil => rfl
  | cons c rest =>
    rw [number, hrest c rfl]
    rfl

/-- A number that fits is read back. -/
theorem number_decimal (hv : v < m) (hc : isDigit c = false)
    (rest : List UInt8) : number m 0 (decimal v ++ c :: rest) = (v, c :: rest) := by
  rw [number_value (fun d hd => isDigit_of_mem_decimal hd) (by rintro d ⟨⟩; exact hc), value_decimal,
    Nat.mod_eq_of_lt hv]

theorem decimal_ne_nil (v : ℕ) : decimal v ≠ [] := by
  rw [decimal]
  split
  · exact cons_ne_nil _ _
  · rename_i hv
    rw [Ne, map_eq_nil_iff, reverse_eq_nil_iff, Nat.digits_eq_nil_iff_eq_zero]
    exact hv

/-- A number of more than `k` digits is large. -/
theorem pow_le_of_lt_length_decimal (hk : 0 < k) (h : k < (decimal v).length) : 10 ^ k ≤ v := by
  by_contra hlt
  have hle := length_decimal_le hk (Nat.lt_of_not_le hlt)
  omega

/-! ### Lines -/

/-- Some lines, each with its line end. -/
def unlines (ls : List (List UInt8)) : List UInt8 := ls.flatMap (· ++ [10])

/-- The lines of a text. The last one need not have a line end. -/
def lines : List UInt8 → List (List UInt8)
  | [] => []
  | c :: t =>
    if c = 10 then [] :: lines t
    else match lines t with
      | [] => [[c]]
      | l :: ls => (c :: l) :: ls

theorem unlines_append (ls ms : List (List UInt8)) : unlines (ls ++ ms) = unlines ls ++ unlines ms := flatMap_append

theorem unlines_concat (ls : List (List UInt8)) (l : List UInt8) : unlines (ls ++ [l]) = unlines ls ++ l ++ [10] := by
  rw [unlines_append, unlines, unlines, flatMap_singleton, append_assoc]

/-- Leaving out lines is leaving out their characters. -/
theorem drop_unlines (ls : List (List UInt8)) (j : ℕ) :
    (unlines ls).drop (unlines (ls.take j)).length = unlines (ls.drop j) := by
  have h : unlines ls = unlines (ls.take j) ++ unlines (ls.drop j) := by
    rw [← unlines_append, take_append_drop]
  rw [h, drop_left]

theorem take_unlines (ls : List (List UInt8)) (j : ℕ) :
    (unlines ls).take (unlines (ls.take j)).length = unlines (ls.take j) := by
  have h : unlines ls = unlines (ls.take j) ++ unlines (ls.drop j) := by
    rw [← unlines_append, take_append_drop]
  rw [h, take_left]

/-- Fewer lines are fewer characters. -/
theorem length_unlines_drop_lt {i j : ℕ} (hij : i < j) (hi : i < ls.length) :
    (unlines (ls.drop j)).length < (unlines (ls.drop i)).length := by
  have hsplit : ls.drop i = (ls.drop i).take (j - i) ++ ls.drop j := by
    rw [show ls.drop j = (ls.drop i).drop (j - i) by rw [drop_drop]; congr 1; omega, take_append_drop]
  obtain ⟨l, ms, hms⟩ : ∃ l ms, (ls.drop i).take (j - i) = l :: ms := by
    refine exists_cons_of_ne_nil ?_
    rw [Ne, take_eq_nil_iff, drop_eq_nil_iff]
    omega
  have hcons : unlines (l :: ms) = l ++ [10] ++ unlines ms := flatMap_cons
  rw [hsplit, hms, unlines_append, hcons]
  simp only [length_append, length_singleton]
  omega

theorem notMem_of_mem_lines : ∀ {t l : List UInt8}, l ∈ lines t → 10 ∉ l
  | [], _, h => absurd h not_mem_nil
  | c :: t, l, h => by
    rw [lines] at h
    by_cases hc : c = 10
    · rw [if_pos hc] at h
      rcases mem_cons.1 h with rfl | h
      · exact not_mem_nil
      · exact notMem_of_mem_lines h
    · rw [if_neg hc] at h
      rcases hlines : lines t with _ | ⟨m, ms⟩
      · rw [hlines] at h
        obtain rfl := mem_singleton.1 h
        exact fun hmem => hc (mem_singleton.1 hmem).symm
      · rw [hlines] at h
        rcases mem_cons.1 h with rfl | h
        · have hm : 10 ∉ m := notMem_of_mem_lines (by rw [hlines]; exact mem_cons_self)
          exact fun hmem => (mem_cons.1 hmem).elim (fun heq => hc heq.symm) hm
        · exact notMem_of_mem_lines (by rw [hlines]; exact mem_cons_of_mem _ h)

/-- **A text is its lines**, apart from a line end that may be missing. -/
theorem unlines_lines : ∀ t : List UInt8, unlines (lines t) = t ++ if t.getLast?.getD 10 = 10 then [] else [10]
  | [] => rfl
  | c :: t => by
    have ih := unlines_lines t
    rw [lines]
    by_cases hc : c = 10
    · rw [if_pos hc, unlines, flatMap_cons, ← unlines, ih, hc]
      rcases t with _ | ⟨d, t⟩
      · rfl
      · rw [List.getLast?_cons_cons]
        rfl
    · rw [if_neg hc]
      rcases t with _ | ⟨d, t⟩
      · rw [lines, List.getLast?_singleton, Option.getD_some, if_neg hc]
        rfl
      · rcases hlines : lines (d :: t) with _ | ⟨l, ls⟩
        · -- a text with a character has a line
          rw [hlines] at ih
          exact absurd ih (by simp [unlines])
        · rw [hlines] at ih
          rw [List.getLast?_cons_cons, cons_append, ← ih]
          rfl

theorem count_unlines (h : ∀ l ∈ ls, 10 ∉ l) : (unlines ls).count 10 = ls.length := by
  induction ls with
  | nil => rfl
  | cons l ls ih =>
    have hl : l.count 10 = 0 := count_eq_zero.2 (h l mem_cons_self)
    rw [unlines, flatMap_cons, ← unlines, count_append, count_append, hl,
      ih fun m hm => h m (mem_cons_of_mem _ hm), length_cons, count_singleton_self]
    omega

/-- **Lines are cut as they were joined**, with an empty one at the end. -/
theorem splitOn_lines {sep : UInt8} : ∀ {ls : List (List UInt8)}, (∀ l ∈ ls, sep ∉ l) →
    (ls.flatMap (· ++ [sep])).splitOn sep = ls ++ [[]]
  | [], _ => rfl
  | l :: ls, h => by
    rw [flatMap_cons, append_assoc, singleton_append,
      splitOn_append_cons_self_of_not_mem (h l mem_cons_self),
      splitOn_lines fun l' hl' => h l' (mem_cons_of_mem _ hl'), cons_append]

/-- A line has no line end in it. -/
theorem sep_notMem_of_mem_splitOn {α : Type*} [BEq α] [LawfulBEq α] {sep : α} :
    ∀ {cs l : List α}, l ∈ cs.splitOn sep → sep ∉ l
  | [], l, h => by
    rw [splitOn_nil, mem_singleton] at h
    simp [h]
  | c :: cs, l, h => by
    rw [splitOn_cons_eq_if_modifyHead] at h
    split at h
    · rcases mem_cons.mp h with rfl | h
      · simp
      · exact sep_notMem_of_mem_splitOn h
    · rename_i hc
      rcases hsplit : cs.splitOn sep with _ | ⟨l', ls⟩
      · exact absurd hsplit (splitOn_ne_nil sep cs)
      · rw [hsplit, modifyHead_cons] at h
        rcases mem_cons.mp h with rfl | h
        · have hl' : sep ∉ l' := sep_notMem_of_mem_splitOn (by rw [hsplit]; exact mem_cons_self)
          rw [mem_cons, not_or]
          exact ⟨fun heq => hc (by rw [heq, beq_self_eq_true]), hl'⟩
        · exact sep_notMem_of_mem_splitOn (by rw [hsplit]; exact mem_cons_of_mem _ h)

/-- **Records written one after the other**, each of at most `k` characters. -/
theorem foldlM_of_le {α : Type*} {f : List UInt8 → α → Option (List UInt8)} {text : α → List UInt8}
    (htext : ∀ x, (text x).length ≤ k)
    (hf : ∀ x out, out.length + (text x).length ≤ cap → f out x = some (out ++ text x)) :
    ∀ {xs : List α} {out : List UInt8}, out.length + k * xs.length ≤ cap →
      xs.foldlM f out = some (out ++ xs.flatMap text)
  | [], out, _ => by rw [foldlM_nil, flatMap_nil, append_nil]; rfl
  | x :: xs, out, h => by
    have hx := htext x
    rw [length_cons, Nat.mul_succ] at h
    rw [foldlM_cons, hf x out (by omega)]
    change xs.foldlM f (out ++ text x) = _
    rw [foldlM_of_le htext hf (by rw [length_append]; omega), flatMap_cons, append_assoc]

/-! ### Fields -/

/-- A field ends at the first separator. -/
theorem takeWhile_append_cons {p : UInt8 → Bool} (rest : List UInt8)
    (hl : ∀ x ∈ l, p x = true) (hc : p c = false) : (l ++ c :: rest).takeWhile p = l := by
  rw [takeWhile_append_of_pos hl, takeWhile_cons_of_neg (by rw [hc]; simp), append_nil]

end Text
