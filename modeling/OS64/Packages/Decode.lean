import OS64.Lib.Base64
import OS64.Packages.Model

/-!
# Decoding packages

`package_decode` keeps the bits it has read and not yet put out in a number. What it has read at
any time is those bits and the bytes it has put out (`OS64.Packages.Reads`), whatever white
space is between the digits.
-/

namespace OS64.Packages

open List Function Base64

/-! ### What has been read -/

theorem base64Value_eq (c : UInt8) : base64Value c = value c := rfl

theorem bytes_update_succ (b : ByteMem) (n : ℕ) (v : UInt8) :
    ByteMem.bytes (update b n v) 0 (n + 1) = b.bytes 0 n ++ [v] := by
  rw [ByteMem.bytes, ByteMem.bytes, range_succ, map_append, map_singleton, zero_add, update_self]
  congr 1
  refine map_congr_left fun i hi => ?_
  rw [mem_range] at hi
  exact update_of_ne (by omega) ..

/-- What the decoder has read: all digits, in bytes that it has put out and bits
that it still keeps, and the padding. -/
def Reads (seen : List UInt8) (d : Decoder) : Prop :=
  ∃ (digits : List UInt8) (values : List ℕ),
    seen.filter (fun c => !isSpace c) = digits ++ replicate d.padding 61 ∧
      digits.map value = values.map some ∧
      values.flatMap (bits 6) = bitsOf (d.image.bytes 0 d.out) ++ bits d.bits d.value ∧ d.bits < 8

theorem Reads.initial (image : ByteMem) : Reads [] ⟨0, 0, 0, 0, image⟩ := ⟨[], [], rfl, rfl, rfl, Nat.succ_pos 7⟩

section

variable {seen : List UInt8} {d : Decoder}

variable {c : UInt8} {digit : ℕ}

section

variable (h : Reads seen d)
include h

theorem Reads.space (hc : isSpace c = true) : Reads (seen ++ [c]) d := by
  obtain ⟨digits, values, hseen, hrest⟩ := h
  refine ⟨digits, values, ?_, hrest⟩
  rw [filter_append, hseen, filter_singleton, hc]
  exact append_nil _

theorem Reads.pad (hlt : d.padding + 1 < 2 ^ 32) :
    Reads (seen ++ [61]) { d with padding := (d.padding + 1) % 2 ^ 32 } := by
  obtain ⟨digits, values, hseen, hrest⟩ := h
  refine ⟨digits, values, ?_, hrest⟩
  rw [filter_append, hseen, append_assoc]
  rw [Nat.mod_eq_of_lt hlt, replicate_succ']
  rfl

/-- A digit adds its six bits to those that are kept. -/
theorem Reads.shift (hpad : d.padding = 0) (hc : value c = some digit) (hspace : isSpace c = false) :
    ∃ (digits : List UInt8) (values : List ℕ), (seen ++ [c]).filter (fun c => !isSpace c) = digits ∧
      digits.map value = values.map some ∧
      values.flatMap (bits 6) = bitsOf (d.image.bytes 0 d.out) ++ bits (d.bits + 6) (d.shift digit).value := by
  obtain ⟨digits, values, hseen, hvalues, hbits, hlt⟩ := h
  refine ⟨digits ++ [c], values ++ [digit], ?_, ?_, ?_⟩
  · rw [filter_append, hseen, hpad, replicate_zero, append_nil, filter_singleton, hspace]
    rfl
  · rw [map_append, hvalues, map_append, map_singleton, map_singleton, hc]
  · have hlow : bits (d.bits + 6) ((d.value <<< 6) % 2 ^ 32 ||| digit) =
        bits (d.bits + 6) (d.value <<< 6 ||| digit) := by
      refine bits_congr fun i hi => ?_
      rw [Nat.testBit_or, Nat.testBit_or, Nat.testBit_mod_two_pow, decide_eq_true (by omega), Bool.true_and]
    rw [flatMap_append, hbits, Decoder.shift]
    rw [hlow, bits_shift _ _ _ (value_lt hc), append_assoc]
    simp

/-- With eight bits or more, a byte is put out. -/
theorem Reads.emit (hpad : d.padding = 0)
    (hc : value c = some digit) (hspace : isSpace c = false) (hfull : (d.shift digit).bits ≥ 8) :
    Reads (seen ++ [c]) (d.shift digit).emit := by
  obtain ⟨digits, values, hseen, hvalues, hbits⟩ := h.shift hpad hc hspace
  obtain ⟨-, -, -, -, -, hlt⟩ := h
  have hfull' : 8 ≤ d.bits + 6 := hfull
  refine ⟨digits, values, ?_, hvalues, ?_, ?_⟩
  · rw [hseen, Decoder.emit, Decoder.shift]
    rw [hpad, replicate_zero, append_nil]
  · rw [hbits, Decoder.emit]
    rw [bytes_update_succ, bitsOf, bitsOf, flatMap_append, append_assoc]
    rw [flatMap_singleton, ← bits_split, Decoder.shift]
    rw [show 8 + (d.bits + 6 - 8) = d.bits + 6 by omega]
  · change d.bits + 6 - 8 < 8
    omega

/-- With fewer, the digit is only kept. -/
theorem Reads.keep (hpad : d.padding = 0)
    (hc : value c = some digit) (hspace : isSpace c = false) (hfull : ¬(d.shift digit).bits ≥ 8) :
    Reads (seen ++ [c]) (d.shift digit) := by
  obtain ⟨digits, values, hseen, hvalues, hbits⟩ := h.shift hpad hc hspace
  refine ⟨digits, values, ?_, hvalues, hbits, not_le.mp hfull⟩
  rw [hseen, Decoder.shift]
  rw [hpad, replicate_zero, append_nil]

end

end

/-- **The decoder follows the definition**, as long as the `=` signs can be counted. By induction on
the input; the bits of the digits are always those put out and those kept. -/
theorem Reads.decodeLoop : ∀ {input seen : List UInt8} {d d' : Decoder}, Reads seen d →
    d.padding + input.count 61 < 2 ^ 32 → decodeLoop input d = (d', true) → Reads (seen ++ input) d'
  | [], seen, d, d', h, _, heq => by
    obtain ⟨rfl, -⟩ := Prod.mk.inj heq
    rwa [append_nil]
  | c :: input, seen, d, d', h, hcount, heq => by
    have hrest : input.count 61 ≤ (c :: input).count 61 := count_le_count_cons
    rw [show seen ++ c :: input = (seen ++ [c]) ++ input by simp]
    rw [Packages.decodeLoop] at heq
    by_cases hspace : c = 32 ∨ c = 13 ∨ c = 10 ∨ c = 9
    · rw [if_pos hspace] at heq
      exact Reads.decodeLoop (h.space (by simpa [isSpace] using hspace)) (by omega) heq
    have hspace' : isSpace c = false := by simpa [isSpace] using hspace
    rw [if_neg hspace] at heq
    by_cases hpad : c = 61
    · rw [if_pos hpad] at heq
      subst hpad
      rw [count_cons_self] at hcount
      refine Reads.decodeLoop (h.pad (by omega)) ?_ heq
      change (d.padding + 1) % 2 ^ 32 + _ < _
      omega
    rw [if_neg hpad] at heq
    by_cases hnone : d.padding = 0
    swap
    · rw [if_pos hnone] at heq
      exact absurd (congrArg Prod.snd heq) (by simp)
    rw [if_neg (not_not.mpr hnone)] at heq
    split at heq
    · exact absurd (congrArg Prod.snd heq) (by simp)
    rename_i digit hdigit
    split at heq
    · rename_i hfull
      split at heq
      · exact absurd (congrArg Prod.snd heq) (by simp)
      · exact Reads.decodeLoop (h.emit hnone hdigit hspace' hfull) (show d.padding + _ < _ by omega) heq
    · rename_i hfull
      exact Reads.decodeLoop (h.keep hnone hdigit hspace' hfull) (show d.padding + _ < _ by omega) heq

/-- What `package_decode` leaves in the buffer is the decoding of its input. -/
theorem decodes_of_packageDecode {input : List UInt8} {image image' : ByteMem} {size : ℕ}
    (hcount : input.count 61 < 2 ^ 32) (h : packageDecode input image = (image', some size)) : Decodes input (image'.bytes 0 size) := by
  rw [packageDecode] at h
  rcases hloop : decodeLoop input ⟨0, 0, 0, 0, image⟩ with ⟨d, _ | _⟩
  · rw [hloop] at h
    exact absurd (congrArg Prod.snd h) (by simp)
  rw [hloop] at h
  obtain ⟨himage, hsize⟩ := Prod.mk.inj h
  split_ifs at hsize with hbad
  rw [← himage, ← Option.some.inj hsize]
  obtain ⟨digits, values, hseen, hvalues, hbits, -⟩ := (Reads.initial image).decodeLoop
    (by rw [zero_add]; exact hcount) hloop
  refine ⟨digits, values, d.padding, bits d.bits d.value, hseen, by omega, hvalues, ?_, hbits⟩
  rw [length_bits]
  omega

/-! ### Texts that are accepted -/

/-- **The loop gets to the end of digits and `=` signs**, with white space anywhere, unless the image
does not fit. By induction on the text; no bit is lost. -/
theorem decodeLoop_completes : ∀ {text digits : List UInt8} {pad : ℕ} {d : Decoder}, d.bits < 8 → d.padding < 2 ^ 32 →
    text.filter (fun c => !isSpace c) = digits ++ replicate pad 61 → (∀ c ∈ digits, (value c).isSome) →
    (digits ≠ [] → d.padding = 0) → 8 * d.out + d.bits + 6 * digits.length < 8 * (imageSize + 1) →
    ∃ d', decodeLoop text d = (d', true) ∧ d'.padding = (d.padding + pad) % 2 ^ 32 ∧
      8 * d'.out + d'.bits = 8 * d.out + d.bits + 6 * digits.length ∧ d'.bits < 8
  | [], digits, pad, d, hbits, hlt, htext, _, _, _ => by
    obtain ⟨rfl, hpad⟩ := append_eq_nil_iff.mp htext.symm
    obtain rfl : pad = 0 := by simpa using hpad
    exact ⟨d, rfl, (Nat.mod_eq_of_lt hlt).symm, rfl, hbits⟩
  | c :: text, digits, pad, d, hbits, hlt, htext, hvalid, hpadding, hroom => by
    rw [decodeLoop]
    by_cases hspace : c = 32 ∨ c = 13 ∨ c = 10 ∨ c = 9
    · have hc : isSpace c = true := by simpa [isSpace] using hspace
      rw [filter_cons_of_neg (by simp [hc])] at htext
      rw [if_pos hspace]
      exact decodeLoop_completes hbits hlt htext hvalid hpadding hroom
    have hc : isSpace c = false := by simpa [isSpace] using hspace
    rw [filter_cons_of_pos (by simp [hc])] at htext
    rw [if_neg hspace]
    cases digits with
    | nil =>
      obtain ⟨pad, rfl⟩ : ∃ k, pad = k + 1 := Nat.exists_eq_succ_of_ne_zero (by rintro rfl; cases htext)
      obtain ⟨rfl, htail⟩ := cons.inj htext
      rw [if_pos rfl]
      have hpadding : (d.padding + 1) % 2 ^ 32 < 2 ^ 32 := Nat.mod_lt _ (by decide)
      obtain ⟨d', hloop, hpad, hout⟩ := decodeLoop_completes (d := { d with padding := (d.padding + 1) % 2 ^ 32 })
        hbits hpadding (show _ = [] ++ replicate pad 61 from htail) hvalid (fun h => absurd rfl h) hroom
      refine ⟨d', hloop, hpad.trans ?_, hout⟩
      change ((d.padding + 1) % 2 ^ 32 + pad) % 2 ^ 32 = _
      omega
    | cons x digits =>
      obtain ⟨rfl, htail⟩ := cons.inj htext
      obtain ⟨v, hv⟩ := Option.isSome_iff_exists.mp (hvalid c mem_cons_self)
      have hpad : c ≠ 61 := by
        rintro rfl
        cases hv
      have hnone := hpadding (cons_ne_nil _ _)
      rw [length_cons] at hroom
      rw [if_neg hpad, if_neg (not_not.mpr hnone), base64Value_eq, hv]
      -- whether a byte is put out or not, there are six bits more
      have hstep : ∀ d₁ : Decoder, d₁.bits < 8 → d₁.padding = d.padding → 8 * d₁.out + d₁.bits = 8 * d.out + d.bits + 6 →
          ∃ d', decodeLoop text d₁ = (d', true) ∧ d'.padding = (d.padding + pad) % 2 ^ 32 ∧
            8 * d'.out + d'.bits = 8 * d.out + d.bits + 6 * (c :: digits).length ∧ d'.bits < 8 := by
        intro d₁ hbits₁ hpad₁ hout₁
        obtain ⟨d', hloop, hpad', hout, hbits'⟩ := decodeLoop_completes hbits₁ (hpad₁ ▸ hlt) htail
          (fun y hy => hvalid y (mem_cons_of_mem c hy)) (fun _ => hpad₁.trans hnone) (by omega)
        refine ⟨d', hloop, by rw [hpad', hpad₁], ?_, hbits'⟩
        rw [hout, hout₁, length_cons]
        omega
      dsimp only
      split
      · rename_i hfull
        have hfull' : d.bits + 6 ≥ 8 := hfull
        rw [if_neg (show ¬d.out ≥ imageSize by omega)]
        refine hstep _ ?_ rfl ?_
        · change d.bits + 6 - 8 < 8
          omega
        · change 8 * (d.out + 1) + (d.bits + 6 - 8) = _
          omega
      · rename_i hfew
        exact hstep _ (Nat.lt_of_not_le hfew) rfl rfl

/-- What `package_decode` makes of digits and `=` signs. -/
theorem packageDecode_of_digits {text digits : List UInt8} {pad : ℕ} (image : ByteMem)
    (htext : text.filter (fun c => !isSpace c) = digits ++ replicate pad 61)
    (hvalid : ∀ c ∈ digits, (value c).isSome) (hpad : pad % 2 ^ 32 ≤ 2) (hrest : 6 * digits.length % 8 < 6)
    (hlong : 20 ≤ 6 * digits.length / 8) (hroom : 6 * digits.length / 8 ≤ imageSize) :
    ∃ image', packageDecode text image = (image', some (6 * digits.length / 8)) := by
  obtain ⟨d, hloop, hpadding, hout, hbits⟩ := decodeLoop_completes (d := ⟨0, 0, 0, 0, image⟩) (Nat.succ_pos 7)
    (Nat.two_pow_pos 32) htext hvalid (fun _ => rfl) (show 8 * 0 + 0 + 6 * digits.length < _ by omega)
  have hpadding' : d.padding = pad % 2 ^ 32 := by rw [hpadding]; exact congrArg (· % 2 ^ 32) (zero_add pad)
  have hout' : 8 * d.out + d.bits = 6 * digits.length := hout.trans (zero_add _)
  refine ⟨d.image, ?_⟩
  rw [packageDecode, hloop]
  dsimp only
  rw [if_neg (by omega), show d.out = 6 * digits.length / 8 by omega]

/-- **`package_decode` is the decoding of base64.** What has been encoded and then broken up with
white space is decoded. What is accepted of the texts that `package_install` can pass, which come
out of `http_output`, is digits and at most two `=` signs, and has as many bytes as there are bits
for. -/
theorem packageDecode_base64 (text : List UInt8) (image : ByteMem) :
    (∀ b : List UInt8, 20 ≤ b.length → b.length ≤ 262144 → text.filter (fun c => !isSpace c) = encode b →
      ∃ image', packageDecode text image = (image', some b.length) ∧ image'.bytes 0 b.length = b) ∧
    (text.length ≤ capacity → ∀ image' size, packageDecode text image = (image', some size) →
      ∃ (digits : List UInt8) (pad : ℕ), text.filter (fun c => !isSpace c) = digits ++ replicate pad 61 ∧
        (∀ c ∈ digits, (value c).isSome) ∧ pad ≤ 2 ∧ size = 6 * digits.length / 8) := by
  refine ⟨fun b hlong hroom htext => ?_, fun hlength image' size h => ?_⟩
  · obtain ⟨digits, values, pad, rest, hencode, hpad, hvalues, hrest, hbits⟩ := encode_spec b
    rw [hencode] at htext
    have hlen := length_digits hvalues hbits
    obtain ⟨image', hdecode⟩ := packageDecode_of_digits image htext (isSome_value hvalues) (by omega) (by omega)
      (by omega) (show _ ≤ 262144 by omega)
    rw [show 6 * digits.length / 8 = b.length by omega] at hdecode
    have hcount : text.count 61 < 2 ^ 32 := by
      rw [← count_filter (p := fun c => !isSpace c) (by decide), htext, count_append,
        count_eq_zero.mpr (pad_notMem hvalues), count_replicate_self]
      omega
    exact ⟨image', hdecode, (decodes_of_packageDecode hcount hdecode).unique
      ⟨digits, values, pad, rest, htext, hpad, hvalues, hrest, hbits⟩⟩
  · rw [capacity] at hlength
    have hcount : text.count 61 < 2 ^ 32 := count_le_length.trans_lt (by omega)
    obtain ⟨digits, values, pad, rest, htext, hpad, hvalues, hrest, hbits⟩ := decodes_of_packageDecode hcount h
    have hlen := length_digits hvalues hbits
    rw [ByteMem.length_bytes] at hlen
    exact ⟨digits, pad, htext, isSome_value hvalues, hpad, by omega⟩

/-- Twenty bytes that are zero, and what their encoding is made of. -/
theorem packageDecode_zeros : (∃ image', packageDecode (encode (replicate 20 0)) (fun _ => 0) = (image', some 20) ∧
      image'.bytes 0 20 = replicate 20 0) ∧
    ∃ (digits : List UInt8) (pad : ℕ), (encode (replicate 20 0)).filter (fun c => !isSpace c) =
      digits ++ replicate pad 61 ∧ pad ≤ 2 ∧ 20 = 6 * digits.length / 8 := by
  obtain ⟨hdecodes, honly⟩ := packageDecode_base64 (encode (replicate 20 0)) fun _ => 0
  obtain ⟨image', hdecode, hbytes⟩ := hdecodes (replicate 20 0) (by decide) (by decide) (by decide +kernel)
  obtain ⟨digits, pad, htext, -, hpad, hsize⟩ := honly (by decide +kernel) image' 20 hdecode
  exact ⟨⟨image', hdecode, hbytes⟩, digits, pad, htext, hpad, hsize⟩

end OS64.Packages
