import Mathlib.Data.List.Infix
import Mathlib.Algebra.Order.Ring.Nat

/-!
# Byte streams under 32-bit serial numbers

Two things every stream protocol argues about. A *slice* of a stream, the part
of it a segment carries (`Stream.slice`), and how slices that follow one another
build up prefixes. And *serial numbers*: an offset into the stream is named by a
32-bit word that wraps around, two of them are compared by the sign of their
difference (`Serial.signed`), and as long as the offsets in play stay within half
the circle the words compare as the offsets do.
-/

namespace Stream

open List

variable {α : Type*}

/-- The `n` elements of `S` from offset `k` on. -/
def slice (S : List α) (k n : ℕ) : List α := (S.drop k).take n

variable {S : List α}

theorem length_slice {k n : ℕ} (h : k + n ≤ S.length) : (slice S k n).length = n := by
  rw [slice, length_take, length_drop]
  omega

/-- A prefix followed by the slice after it is a longer prefix. -/
theorem take_append_slice (S : List α) (k n : ℕ) : S.take k ++ slice S k n = S.take (k + n) := (take_add ..).symm

/-- Reading a slice element by element. -/
theorem getElem?_slice {k n j : ℕ} (h : j < n) : (slice S k n)[j]? = S[k + j]? := by
  rw [slice, List.getElem?_take_of_lt h, List.getElem?_drop]

/-- Cutting to a capacity before more is appended and the whole is cut again
changes nothing. -/
theorem take_take_append (xs ys : List α) (n : ℕ) : (xs.take n ++ ys).take n = (xs ++ ys).take n := by
  rw [take_append, take_take, min_self, take_append, length_take]
  congr 2
  omega

end Stream

namespace Serial

/-- The two's complement reading of a 32-bit word. -/
def signed (x : UInt32) : ℤ := if x.toNat < 2 ^ 31 then x.toNat else (x.toNat : ℤ) - 2 ^ 32

/-- The serial number of the offset `k` after `base`. -/
def ofOffset (base : UInt32) (k : ℕ) : UInt32 := base + UInt32.ofNat k

section

variable (base : UInt32)

@[simp] theorem ofOffset_zero : ofOffset base 0 = base := by
  simp [ofOffset]

theorem ofOffset_add (k n : ℕ) : ofOffset base (k + n) = ofOffset base k + UInt32.ofNat n := by
  rw [ofOffset, ofOffset, UInt32.ofNat_add, ← UInt32.add_assoc]

variable {i j : ℕ}

theorem toNat_ofOffset_sub (hj : j < 2 ^ 32) :
    (ofOffset base i - ofOffset base j).toNat = (i + (2 ^ 32 - j)) % 2 ^ 32 := by
  rw [UInt32.toNat_sub, ofOffset, ofOffset, UInt32.toNat_add, UInt32.toNat_add, UInt32.toNat_ofNat',
    UInt32.toNat_ofNat']
  omega

/-- Offsets below the size of the circle are told apart by their serial
numbers. -/
theorem ofOffset_inj (hi : i < 2 ^ 32) (hj : j < 2 ^ 32) : ofOffset base i = ofOffset base j ↔ i = j := by
  refine ⟨fun h => ?_, fun h => by rw [h]⟩
  have hsub := toNat_ofOffset_sub base (i := i) hj
  rw [h, UInt32.sub_self] at hsub
  have hzero : (0 : UInt32).toNat = 0 := rfl
  omega

/-- **Serial numbers within half the circle compare as their offsets do.** -/
theorem signed_ofOffset_sub_nonneg (hi : i < 2 ^ 31) (hj : j < 2 ^ 31) :
    0 ≤ signed (ofOffset base i - ofOffset base j) ↔ j ≤ i := by
  have hsub := toNat_ofOffset_sub base (i := i) (j := j) (by omega)
  rw [signed, hsub]
  split
  · omega
  · omega

end

end Serial
