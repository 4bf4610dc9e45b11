import OS64.Lib.Memory
import Mathlib.Data.Nat.Bitwise

/-!
# Bitmaps

Bit `i` of a bitmap is bit `i % 8` of its byte `i / 8`. Setting and clearing it
are the usual byte operations with a shifted one; what they do to the bits is
`Bits.bit_setBit` and `Bits.bit_clearBit`.
-/

namespace Bits

open Function

/-- Bit `i`. -/
def bit (b : ByteMem) (i : ℕ) : Bool := (b (i / 8)).toNat.testBit (i % 8)

/-- `b[i >> 3] |= 1 << (i & 7)`. -/
def setBit (b : ByteMem) (i : ℕ) : ByteMem :=
  update b (i / 8) (b (i / 8) ||| 1 <<< UInt8.ofNat (i % 8))

/-- `b[i >> 3] &= ~(1 << (i & 7))`. -/
def clearBit (b : ByteMem) (i : ℕ) : ByteMem :=
  update b (i / 8) (b (i / 8) &&& ~~~(1 <<< UInt8.ofNat (i % 8)))

theorem testBit_or_shift (x : UInt8) {j k : ℕ} (hj : j < 8) (hk : k < 8) :
    (x ||| 1 <<< UInt8.ofNat k).toNat.testBit j = (x.toNat.testBit j || decide (j = k)) := by
  have hshift : ∀ j < 8, ∀ k < 8, ((1 : UInt8) <<< UInt8.ofNat k).toNat.testBit j = decide (j = k) := by
    decide
  rw [UInt8.toNat_or, Nat.testBit_or, hshift j hj k hk]

theorem testBit_and_shift (x : UInt8) {j k : ℕ} (hj : j < 8) (hk : k < 8) :
    (x &&& ~~~(1 <<< UInt8.ofNat k)).toNat.testBit j = (x.toNat.testBit j && decide (j ≠ k)) := by
  have hshift : ∀ j < 8, ∀ k < 8, (~~~((1 : UInt8) <<< UInt8.ofNat k)).toNat.testBit j = decide (j ≠ k) := by
    decide
  rw [UInt8.toNat_and, Nat.testBit_and, hshift j hj k hk]

/-- **Setting a bit** sets that bit and no other. -/
theorem bit_setBit (b : ByteMem) (i j : ℕ) : bit (setBit b i) j = if j = i then true else bit b j := by
  rw [bit, setBit, update_apply]
  have hi := Nat.mod_lt i (show 0 < 8 by decide)
  have hj := Nat.mod_lt j (show 0 < 8 by decide)
  split
  · rename_i hbyte
    rw [testBit_or_shift _ hj hi, bit, hbyte]
    by_cases h : j = i
    · rw [if_pos h, h]
      simp
    · rw [if_neg h, decide_eq_false (by omega), Bool.or_false]
  · rename_i hbyte
    rw [if_neg (fun h => hbyte (congrArg (· / 8) h)), bit]

/-- **Clearing a bit** clears that bit and no other. -/
theorem bit_clearBit (b : ByteMem) (i j : ℕ) : bit (clearBit b i) j = if j = i then false else bit b j := by
  rw [bit, clearBit, update_apply]
  have hi := Nat.mod_lt i (show 0 < 8 by decide)
  have hj := Nat.mod_lt j (show 0 < 8 by decide)
  split
  · rename_i hbyte
    rw [testBit_and_shift _ hj hi, bit, hbyte]
    by_cases h : j = i
    · rw [if_pos h, h]
      simp
    · rw [if_neg h, decide_eq_true (by omega : j % 8 ≠ i % 8), Bool.and_true]
  · rename_i hbyte
    rw [if_neg (fun h => hbyte (congrArg (· / 8) h)), bit]

end Bits
