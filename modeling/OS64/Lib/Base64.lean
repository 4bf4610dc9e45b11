import Mathlib.Data.List.Basic
import Mathlib.Data.Nat.Bitwise

/-!
# Base64

A text in base64 spells bits, six with each digit; the bytes are spelled by the
same bits, eight with each byte, and fewer than six bits are left over. White
space does not count, and at most two `=` may stand at the end. That is
`Base64.Decodes`, and it leaves no choice (`Base64.Decodes.unique`).

A decoder keeps the bits it has not put out yet in a number. `Base64.bits_shift`
and `Base64.bits_split` say what happens to them when a digit is taken in and when
a byte is put out.
-/

namespace Base64

open List

/-! ### Bits -/

/-- The `w` low bits of a number, the highest first. -/
def bits : ℕ → ℕ → List Bool
  | 0, _ => []
  | w + 1, v => v.testBit w :: bits w v

@[simp] theorem length_bits (w v : ℕ) : (bits w v).length = w := by
  induction w with
  | zero => rfl
  | succ w ih => rw [bits, length_cons, ih]

variable {w u v : ℕ} {digits : List UInt8} {values : List ℕ}

theorem bits_congr (h : ∀ i < w, u.testBit i = v.testBit i) : bits w u = bits w v := by
  induction w with
  | zero => rfl
  | succ w ih => rw [bits, bits, h w (Nat.lt_succ_self w), ih fun i hi => h i (Nat.lt_succ_of_lt hi)]

theorem testBit_of_bits_eq (h : bits w u = bits w v) : ∀ i < w, u.testBit i = v.testBit i := by
  induction w with
  | zero => exact fun i hi => absurd hi (Nat.not_lt_zero i)
  | succ w ih =>
    obtain ⟨htop, hrest⟩ := List.cons.inj h
    intro i hi
    rcases Nat.lt_succ_iff_lt_or_eq.mp hi with hi | rfl
    · exact ih hrest i hi
    · exact htop

/-- High bits and low bits. -/
theorem bits_add (a b v : ℕ) : bits (a + b) v = bits a (v >>> b) ++ bits b v := by
  induction a with
  | zero => rw [zero_add, bits, nil_append]
  | succ a ih =>
    rw [Nat.succ_add, bits, bits, ih, cons_append, Nat.testBit_shiftRight, add_comm b a]

theorem bits_mod {w k : ℕ} (v : ℕ) (h : w ≤ k) : bits w (v % 2 ^ k) = bits w v := by
  refine bits_congr fun i hi => ?_
  rw [Nat.testBit_mod_two_pow, decide_eq_true (by omega), Bool.true_and]

/-- A digit is taken in. -/
theorem bits_shift (b v d : ℕ) (hd : d < 64) : bits (b + 6) (v <<< 6 ||| d) = bits b v ++ bits 6 d := by
  have hhigh : (v <<< 6 ||| d) >>> 6 = v := by
    rw [Nat.shiftRight_or_distrib, Nat.shiftLeft_shiftRight, Nat.shiftRight_eq_div_pow d 6,
      Nat.div_eq_of_lt hd, Nat.or_zero]
  rw [bits_add, hhigh]
  congr 1
  refine bits_congr fun i hi => ?_
  rw [Nat.testBit_or, Nat.testBit_shiftLeft, decide_eq_false (by omega), Bool.false_and, Bool.false_or]

/-- A byte is put out. -/
theorem bits_split (b v : ℕ) :
    bits (8 + b) v = bits 8 (UInt8.ofNat (v >>> b)).toNat ++ bits b (v &&& (1 <<< b - 1)) := by
  rw [bits_add, UInt8.toNat_ofNat', bits_mod _ le_rfl, Nat.one_shiftLeft,
    Nat.and_two_pow_sub_one_eq_mod, bits_mod _ le_rfl]

theorem byte_eq_of_bits_eq {u v : UInt8} (h : bits 8 u.toNat = bits 8 v.toNat) : u = v := by
  refine UInt8.toNat_inj.mp (Nat.eq_of_testBit_eq fun i => ?_)
  rcases lt_or_ge i 8 with hi | hi
  · exact testBit_of_bits_eq h i hi
  · have hlt : ∀ w : UInt8, w.toNat < 2 ^ i := fun w =>
      lt_of_lt_of_le w.toNat_lt (Nat.pow_le_pow_right (by decide) hi)
    rw [Nat.testBit_lt_two_pow (hlt u), Nat.testBit_lt_two_pow (hlt v)]

theorem length_flatMap_bits {α : Type*} (w : ℕ) (f : α → ℕ) (l : List α) :
    (l.flatMap fun a => bits w (f a)).length = w * l.length := by
  induction l with
  | nil => rfl
  | cons a l ih => rw [flatMap_cons, length_append, length_bits, ih, length_cons, Nat.mul_succ, add_comm]

/-- The bits of a list of bytes. -/
def bitsOf (bytes : List UInt8) : List Bool := bytes.flatMap fun b => bits 8 b.toNat

theorem length_bitsOf (bytes : List UInt8) : (bitsOf bytes).length = 8 * bytes.length := length_flatMap_bits 8 _ bytes

theorem bitsOf_injective : ∀ {u v : List UInt8}, bitsOf u = bitsOf v → u = v
  | [], [], _ => rfl
  | [], _ :: _, h => absurd (congrArg length h) (by simp [length_bitsOf])
  | _ :: _, [], h => absurd (congrArg length h) (by simp [length_bitsOf])
  | a :: u, b :: v, h => by
    obtain ⟨hhead, htail⟩ := append_inj h (by simp)
    rw [byte_eq_of_bits_eq hhead, bitsOf_injective htail]

/-! ### Text -/

/-- The value of a digit. -/
def value (c : UInt8) : Option ℕ :=
  if 65 ≤ c ∧ c ≤ 90 then some (c.toNat - 65)
  else if 97 ≤ c ∧ c ≤ 122 then some (c.toNat - 97 + 26)
  else if 48 ≤ c ∧ c ≤ 57 then some (c.toNat - 48 + 52)
  else if c = 43 then some 62
  else if c = 47 then some 63
  else none

/-- White space. -/
def isSpace (c : UInt8) : Bool := c = 32 ∨ c = 13 ∨ c = 10 ∨ c = 9

/-- `bytes` is what `text` says in base64. -/
def Decodes (text bytes : List UInt8) : Prop :=
  ∃ (digits : List UInt8) (values : List ℕ) (pad : ℕ) (rest : List Bool),
    text.filter (fun c => !isSpace c) = digits ++ replicate pad 61 ∧ pad ≤ 2 ∧
      digits.map value = values.map some ∧ rest.length < 6 ∧
      values.flatMap (bits 6) = bitsOf bytes ++ rest

theorem value_lt {c : UInt8} {d : ℕ} (h : value c = some d) : d < 64 := by
  simp only [value, UInt8.le_iff_toNat_le, UInt8.reduceToNat] at h
  split_ifs at h <;> simp only [Option.some.injEq] at h <;> omega

theorem isSome_value (h : digits.map value = values.map some) : ∀ c ∈ digits, (value c).isSome := by
  intro c hc
  have hmem : value c ∈ values.map some := h ▸ mem_map_of_mem hc
  obtain ⟨v, -, hv⟩ := mem_map.mp hmem
  rw [← hv]
  rfl

theorem pad_notMem (h : digits.map value = values.map some) :
    (61 : UInt8) ∉ digits := fun hmem => absurd (isSome_value h 61 hmem) (by decide)

/-- As many bits are in the digits as in the bytes and the rest. -/
theorem length_digits {digits bytes : List UInt8} {rest : List Bool}
    (hvalues : digits.map value = values.map some) (hbits : values.flatMap (bits 6) = bitsOf bytes ++ rest) :
    6 * digits.length = 8 * bytes.length + rest.length := by
  have hlen := congrArg length hbits
  have hsixes : (values.flatMap (bits 6)).length = 6 * values.length := length_flatMap_bits 6 id values
  rw [hsixes, length_append, length_bitsOf] at hlen
  have hdigits : digits.length = values.length := by simpa using congrArg length hvalues
  omega

/-- **There is at most one decoding.** -/
theorem Decodes.unique {text u v : List UInt8} (hu : Decodes text u) (hv : Decodes text v) : u = v := by
  obtain ⟨digits, values, pad, rest, htext, -, hvalues, hrest, hbits⟩ := hu
  obtain ⟨digits', values', pad', rest', htext', -, hvalues', hrest', hbits'⟩ := hv
  -- The digits end where the first `=` stands.
  have hstop : ∀ {l : List UInt8} (n : ℕ), (61 : UInt8) ∉ l → (l ++ replicate n 61).takeWhile (· != 61) = l := by
    intro l n hl
    have hpads : (replicate n (61 : UInt8)).takeWhile (· != 61) = [] := by
      cases n <;> simp [replicate_succ]
    have hall : ∀ c ∈ l, (c != 61) = true := fun c hc =>
      bne_iff_ne.mpr fun h => hl (h ▸ hc)
    rw [takeWhile_append_of_pos hall, hpads, append_nil]
  have hdigits : digits = digits' := by
    rw [← hstop pad (pad_notMem hvalues), ← htext, htext', hstop pad' (pad_notMem hvalues')]
  have heq : values = values' := by
    refine (map_injective_iff (f := some)).mpr (Option.some_injective ℕ) ?_
    rw [← hvalues, ← hvalues', hdigits]
  rw [heq, hbits'] at hbits
  have hlen := congrArg length hbits
  rw [length_append, length_append, length_bitsOf, length_bitsOf] at hlen
  refine (bitsOf_injective (append_inj hbits ?_).1).symm
  rw [length_bitsOf, length_bitsOf]
  omega

/-! ### Encoding -/

/-- The digit of a value. -/
def digit (v : ℕ) : UInt8 :=
  if v < 26 then UInt8.ofNat (65 + v)
  else if v < 52 then UInt8.ofNat (71 + v)
  else if v < 62 then UInt8.ofNat (v - 4)
  else if v = 62 then 43
  else 47

theorem value_digit : ∀ v < 64, value (digit v) = some v := by decide

/-- The values of the digits for the `6 * k` low bits of a number. -/
def sixes : ℕ → ℕ → List ℕ
  | 0, _ => []
  | k + 1, n => (n >>> (6 * k)) % 2 ^ 6 :: sixes k n

/-- The padded encoding, three bytes at a time; what is missing of the last digit is zero. -/
def encode : List UInt8 → List UInt8
  | [] => []
  | [a] => (sixes 2 (a.toNat * 2 ^ 4)).map digit ++ [61, 61]
  | [a, b] => (sixes 3 ((a.toNat * 2 ^ 8 + b.toNat) * 2 ^ 2)).map digit ++ [61]
  | a :: b :: c :: l => (sixes 4 ((a.toNat * 2 ^ 8 + b.toNat) * 2 ^ 8 + c.toNat)).map digit ++ encode l

theorem flatMap_sixes (k n : ℕ) : (sixes k n).flatMap (bits 6) = bits (6 * k) n := by
  induction k with
  | zero => rfl
  | succ k ih =>
    rw [sixes, flatMap_cons, ih, bits_mod _ le_rfl, Nat.mul_succ, add_comm, bits_add]

theorem value_sixes (k n : ℕ) : ((sixes k n).map digit).map value = (sixes k n).map some := by
  induction k with
  | zero => rfl
  | succ k ih => rw [sixes, map_cons, map_cons, map_cons, ih, value_digit (_ % 2 ^ 6) (Nat.mod_lt _ (by decide))]

/-- A byte with bits behind it. -/
theorem bits_byte {j n : ℕ} {b : UInt8} (h : n / 2 ^ j % 2 ^ 8 = b.toNat) :
    bits (8 + j) n = bits 8 b.toNat ++ bits j n := by
  rw [bits_add, ← bits_mod (n >>> j) (le_refl 8), Nat.shiftRight_eq_div_pow, h]

/-- **The padded encoding is a text in base64.** -/
theorem encode_spec : ∀ bytes : List UInt8, ∃ (digits : List UInt8) (values : List ℕ) (pad : ℕ) (rest : List Bool),
    encode bytes = digits ++ replicate pad 61 ∧ pad ≤ 2 ∧
      digits.map value = values.map some ∧ rest.length < 6 ∧ values.flatMap (bits 6) = bitsOf bytes ++ rest
  | [] => ⟨[], [], 0, [], rfl, by decide, rfl, by decide, rfl⟩
  | [a] => by
    have ha := a.toNat_lt
    refine ⟨_, _, 2, bits 4 (a.toNat * 2 ^ 4), rfl, le_rfl, value_sixes _ _, by rw [length_bits]; decide, ?_⟩
    rw [flatMap_sixes, show 6 * 2 = 8 + 4 from rfl, bits_byte (b := a) (by omega)]
    rfl
  | [a, b] => by
    have ha := a.toNat_lt
    have hb := b.toNat_lt
    refine ⟨_, _, 1, bits 2 ((a.toNat * 2 ^ 8 + b.toNat) * 2 ^ 2), rfl, by decide, value_sixes _ _,
      by rw [length_bits]; decide, ?_⟩
    rw [flatMap_sixes, show 6 * 3 = 8 + (8 + 2) from rfl, bits_byte (b := a) (by omega), bits_byte (b := b) (by omega)]
    rfl
  | a :: b :: c :: l => by
    have ha := a.toNat_lt
    have hb := b.toNat_lt
    have hc := c.toNat_lt
    obtain ⟨digits, values, pad, rest, hencode, hpad, hvalues, hrest, hbits⟩ := encode_spec l
    let group := sixes 4 ((a.toNat * 2 ^ 8 + b.toNat) * 2 ^ 8 + c.toNat)
    refine ⟨group.map digit ++ digits, group ++ values, pad, rest, ?_, hpad, ?_, hrest, ?_⟩
    · rw [encode, hencode, append_assoc]
    · rw [map_append, value_sixes, hvalues, map_append]
    · rw [flatMap_append, hbits, flatMap_sixes, show 6 * 4 = 8 + (8 + (8 + 0)) from rfl,
        bits_byte (b := a) (by omega), bits_byte (b := b) (by omega), bits_byte (b := c) (by omega)]
      simp [bitsOf, bits]

end Base64
