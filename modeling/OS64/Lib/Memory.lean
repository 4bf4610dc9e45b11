import Mathlib.Tactic.Ring

/-!
# Byte memories and little-endian words

A memory is a function from addresses to bytes. A word of `k` bytes is read by
`ByteMem.readLE` and written by `ByteMem.writeLE`, the least significant byte
first; both speak of natural numbers, so that a written value is truncated
modulo `256 ^ k` and a read one is always below it
(`ByteMem.readLE_writeLE_same`, `ByteMem.readLE_lt`).

Everything a program proof needs of such a memory is here: what a write leaves
alone, when two reads agree, and the two byte loops of every C program, the one
that fills a range (`ByteMem.fill`) and the one that copies it forwards
(`ByteMem.copy`).
-/

/-- A memory: one byte at every address. -/
abbrev ByteMem := ℕ → UInt8

namespace ByteMem

open List Function

/-! ### Words -/

variable {m : ByteMem} {a k n v x : ℕ}

/-- The little-endian word of `k` bytes at address `a`. -/
def readLE (m : ByteMem) : ℕ → ℕ → ℕ
  | 0, _ => 0
  | k + 1, a => (m a).toNat + 256 * readLE m k (a + 1)

/-- Writing the low `k` bytes of `v` at address `a`. -/
def writeLE (m : ByteMem) (k a v : ℕ) : ByteMem := fun x =>
  if a ≤ x ∧ x < a + k then UInt8.ofNat (v / 256 ^ (x - a)) else m x

/-- A write changes nothing outside its range. -/
theorem writeLE_of_notMem (m : ByteMem) (h : x < a ∨ a + k ≤ x) : writeLE m k a v x = m x := by
  rw [writeLE, if_neg (by omega)]

variable {m' : ByteMem}

/-- Two memories that agree on the bytes of a word agree on the word. -/
theorem readLE_congr (h : ∀ x, a ≤ x → x < a + k → m x = m' x) : readLE m k a = readLE m' k a := by
  induction k generalizing a with
  | zero => rfl
  | succ k ih =>
    rw [readLE, readLE, h a le_rfl (by omega), ih fun x hx hx' => h x (by omega) (by omega)]

/-- A word is unchanged by a write that does not overlap it. -/
theorem readLE_writeLE_of_disjoint (m : ByteMem) {j b : ℕ} (h : b + j ≤ a ∨ a + k ≤ b) :
    readLE (writeLE m k a v) j b = readLE m j b :=
  readLE_congr fun x hx hx' => writeLE_of_notMem m (by omega)

theorem readLE_lt (m : ByteMem) (k a : ℕ) : readLE m k a < 256 ^ k := by
  induction k generalizing a with
  | zero => simp [readLE]
  | succ k ih =>
    have hb : (m a).toNat < 256 := (m a).toNat_lt
    have hk := ih (a + 1)
    rw [readLE, pow_succ]
    omega

/-- A word of zero bytes is 0. -/
theorem readLE_eq_zero (h : ∀ x, a ≤ x → x < a + k → m x = 0) : readLE m k a = 0 := by
  induction k generalizing a with
  | zero => rfl
  | succ k ih =>
    rw [readLE, h a le_rfl (by omega), ih fun x hx hx' => h x (by omega) (by omega)]
    rfl

/-- The bytes of a value, read back in order, are the value's low bytes. -/
theorem readLE_of_digits
    (h : ∀ i, i < k → m (a + i) = UInt8.ofNat (v / 256 ^ i)) :
    readLE m k a = v % 256 ^ k := by
  induction k generalizing a v with
  | zero => simp [readLE, Nat.mod_one]
  | succ k ih =>
    have htail : readLE m k (a + 1) = v / 256 % 256 ^ k := by
      refine ih fun i hi => ?_
      rw [show a + 1 + i = a + (i + 1) by omega, h (i + 1) (by omega), pow_succ', Nat.div_div_eq_div_mul]
    have hhead : m a = UInt8.ofNat v := by simpa using h 0 (by omega)
    have hk : 256 ^ (k + 1) = 256 * 256 ^ k := pow_succ' 256 k
    rw [readLE, htail, hhead, UInt8.toNat_ofNat', hk, Nat.mod_mul]

/-- **Reading a written word back** gives the value, truncated to the word. -/
theorem readLE_writeLE_same (m : ByteMem) (k a v : ℕ) : readLE (writeLE m k a v) k a = v % 256 ^ k := by
  refine readLE_of_digits fun i hi => ?_
  rw [writeLE, if_pos (by omega), Nat.add_sub_cancel_left]

/-- Reading a written word back gives the value, when the value fits. -/
theorem readLE_writeLE_of_lt (m : ByteMem) (h : v < 256 ^ k) : readLE (writeLE m k a v) k a = v := by
  rw [readLE_writeLE_same, Nat.mod_eq_of_lt h]

/-! ### The byte loops -/

/-- `for (i = 0; i < n; i++) a[i] = v`. -/
def fill (m : ByteMem) (a : ℕ) (v : UInt8) : ℕ → ByteMem
  | 0 => m
  | n + 1 => update (fill m a v n) (a + n) v

/-- A filled range holds the byte, and nothing else has changed. -/
theorem fill_apply (m : ByteMem) (a : ℕ) (v : UInt8) (n x : ℕ) :
    fill m a v n x = if a ≤ x ∧ x < a + n then v else m x := by
  induction n with
  | zero => rw [fill, if_neg (by omega)]
  | succ n ih =>
    rw [fill, update_apply, ih]
    by_cases hx : x = a + n
    · rw [if_pos hx, if_pos (by omega)]
    · rw [if_neg hx]
      by_cases hin : a ≤ x ∧ x < a + n
      · rw [if_pos hin, if_pos (by omega)]
      · rw [if_neg hin, if_neg (by omega)]

/-- `for (i = 0; i < n; i++) d[i] = s[i]`. -/
def copy (m : ByteMem) (d s : ℕ) : ℕ → ByteMem
  | 0 => m
  | n + 1 => update (copy m d s n) (d + n) (copy m d s n (s + n))

/-- A copy changes nothing outside its destination. -/
theorem copy_of_notMem (m : ByteMem) {d s : ℕ} (h : x < d ∨ d + n ≤ x) : copy m d s n x = m x := by
  induction n with
  | zero => rfl
  | succ n ih =>
    rw [copy, update_of_ne (by omega)]
    exact ih (by omega)

/-- A copy reproduces the source, unless it writes over what it has not read yet. -/
theorem copy_apply_dest (m : ByteMem) {d s i : ℕ} (hds : d ≤ s ∨ s + n ≤ d) (hi : i < n) :
    copy m d s n (d + i) = m (s + i) := by
  induction n with
  | zero => omega
  | succ n ih =>
    rw [copy, update_apply]
    by_cases hin : i = n
    · subst hin
      rw [if_pos rfl]
      exact copy_of_notMem m (by omega)
    · rw [if_neg (by omega)]
      exact ih (by omega) (by omega)

/-! ### Ranges -/

/-- The `n` bytes from address `a` on. -/
def bytes (m : ByteMem) (a n : ℕ) : List UInt8 := (List.range n).map fun i => m (a + i)

@[simp] theorem length_bytes (m : ByteMem) (a n : ℕ) : (bytes m a n).length = n := by
  simp [bytes]

theorem bytes_eq_bytes {a' : ℕ} (h : ∀ i < n, m (a + i) = m' (a' + i)) :
    bytes m a n = bytes m' a' n := map_congr_left fun i hi => h i (mem_range.mp hi)

theorem bytes_congr (h : ∀ x, a ≤ x → x < a + n → m x = m' x) :
    bytes m a n = bytes m' a n := bytes_eq_bytes fun i hi => h (a + i) (by omega) (by omega)

/-- A filled range, read back. -/
theorem bytes_fill (m : ByteMem) (a : ℕ) (v : UInt8) (n : ℕ) : bytes (fill m a v n) a n = List.replicate n v := by
  refine eq_replicate_iff.mpr ⟨length_bytes _ _ _, fun x hx => ?_⟩
  obtain ⟨i, hi, rfl⟩ := mem_map.mp hx
  have hi' := mem_range.mp hi
  rw [fill_apply, if_pos (by omega)]

theorem take_bytes (m : ByteMem) (a n k : ℕ) : (bytes m a n).take k = bytes m a (min k n) := by
  rw [bytes, ← map_take, take_range, bytes]

theorem bytes_add (m : ByteMem) (a n k : ℕ) : bytes m a (n + k) = bytes m a n ++ bytes m (a + n) k := by
  rw [bytes, bytes, bytes, range_add, map_append, map_map]
  congr 1
  refine map_congr_left fun i _ => ?_
  rw [Function.comp_apply, add_assoc]

/-- A part of a range is where it stands. -/
theorem bytes_of_append {u v w : List UInt8} (h : bytes m a n = u ++ v ++ w) : bytes m (a + u.length) v.length = v := by
  have hlen : n = u.length + v.length + w.length := by
    rw [← length_bytes m a n, h, length_append, length_append]
  rw [hlen, bytes_add, bytes_add] at h
  have hfirst := (append_inj h (by simp)).1
  exact (append_inj hfirst (by simp)).2

/-- Writing the bytes `l` at address `a`. -/
def store (m : ByteMem) (a : ℕ) (l : List UInt8) : ByteMem := fun x =>
  if a ≤ x ∧ x < a + l.length then l.getD (x - a) 0 else m x

theorem store_of_notMem (m : ByteMem) {l : List UInt8} (h : x < a ∨ a + l.length ≤ x) : store m a l x = m x := by
  rw [store, if_neg (by omega)]

/-- What has been stored is read back. -/
theorem bytes_store (m : ByteMem) (a : ℕ) (l : List UInt8) : bytes (store m a l) a l.length = l := by
  refine ext_getElem (length_bytes _ _ _) fun i hi hi' => ?_
  simp only [bytes, getElem_map, getElem_range, store]
  rw [if_pos (by omega), Nat.add_sub_cancel_left, getD_eq_getElem?_getD, List.getElem?_eq_getElem hi', Option.getD_some]

end ByteMem
