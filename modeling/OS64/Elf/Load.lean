import OS64.Elf.Model

/-!
# What the loader writes

Programs live in a window of memory. The loader is meant to write nothing else,
and to start a program only if all its segments lie in the window and come from
the image: `Safe`. Its checks compare sums that are taken modulo `2 ^ 64`, though,
and the fields that are added are the image's own. `elf_safe_iff` says exactly how
far that matters: the loader is safe unless one of the sums it goes by has wrapped
around.

As long as all stores are in the window, the image and with it the headers are
what they were (`Inside`), although every field is read again and again. A segment
whose end has wrapped around has to leave the window at some point, whatever
happens later (`segment_escapes`).
-/

namespace OS64.Elf

open Function ByteMem

/-! ### The window -/

variable {a fuel i n x : ℕ}

/-- The addresses of programs. -/
def InWindow (x : ℕ) : Prop := 0x800000 ≤ x ∧ x < 0x1000000

/-- The image is a part of memory beside the window. -/
structure Placed (img size : ℕ) : Prop where
  fits : img + size ≤ 2 ^ 64
  beside : img + size ≤ 0x800000 ∨ 0x1000000 ≤ img

/-- Only the window has been written. -/
structure Inside (m : ByteMem) (s : Machine) : Prop where
  mem : ∀ x, ¬InWindow x → s.mem x = m x
  stored : ∀ x, s.stored x = true → InWindow x

theorem Inside.initial (m : ByteMem) : Inside m ⟨m, fun _ => false⟩ :=
  ⟨fun _ _ => rfl, fun _ h => absurd h Bool.false_ne_true⟩

theorem InWindow.mod (h : InWindow x) : x % 2 ^ 64 = x := Nat.mod_eq_of_lt (by have := h.2; omega)

theorem Machine.store_of_inWindow (s : Machine) (h : InWindow a) (v : UInt8) :
    s.store a v = ⟨update s.mem a v, update s.stored a true⟩ := by
  rw [Machine.store, h.mod]

theorem Machine.stored_store (s : Machine) (a : ℕ) (v : UInt8)
    (h : s.stored x = true ∨ x = a % 2 ^ 64) : (s.store a v).stored x = true := by
  by_cases hx : x = a % 2 ^ 64
  · rw [hx]
    exact update_self ..
  · exact (update_of_ne hx ..).trans (h.resolve_right hx)

variable {m : ByteMem} {s : Machine} {img size : ℕ}

theorem Inside.store (h : Inside m s) (ha : InWindow a) (v : UInt8) : Inside m (s.store a v) := by
  rw [s.store_of_inWindow ha]
  refine ⟨fun x hx => ?_, fun x hx => ?_⟩
  · have hne : x ≠ a := fun heq => hx (heq ▸ ha)
    exact (update_of_ne hne ..).trans (h.mem x hx)
  · by_cases hxa : x = a
    · rwa [hxa]
    · exact h.stored x ((update_of_ne hxa ..).symm.trans hx)

/-! ### The image stays -/

section

variable (hp : Placed img size)
include hp

theorem Placed.wrapped_eq (h : Inside m s) (hlo : img ≤ x)
    (hhi : x < img + size) : wrapped s.mem x = wrapped m x := by
  have hfits := hp.fits
  have hmod : x % 2 ^ 64 = x := Nat.mod_eq_of_lt (by omega)
  refine h.mem _ ?_
  rintro ⟨hlo', hhi'⟩
  rcases hp.beside with hb | hb
  · omega
  · omega

theorem Placed.field_eq (h : Inside m s) {k : ℕ} (hlo : img ≤ a)
    (hhi : a + k ≤ img + size) : field s.mem k a = field m k a :=
  readLE_congr fun _ hx hx' => hp.wrapped_eq h (by omega) (by omega)

theorem Placed.ehdr_eq (h : Inside m s) (hsize : 64 ≤ size) : ehdr s.mem img = ehdr m img := by
  have hident : (wrapped s.mem).bytes img 5 = (wrapped m).bytes img 5 :=
    bytes_congr fun _ hx hx' => hp.wrapped_eq h hx (by omega)
  rw [ehdr, ehdr, hident]
  simp only [Ehdr.mk.injEq, true_and]
  refine ⟨?_, ?_, ?_, ?_, ?_, ?_⟩ <;> exact hp.field_eq h (by omega) (by omega)

theorem Placed.phdr_eq (h : Inside m s) {p : ℕ} (hlo : img ≤ p)
    (hhi : p + 56 ≤ img + size) : phdr s.mem p = phdr m p := by
  simp only [phdr, Phdr.mk.injEq]
  refine ⟨?_, ?_, ?_, ?_, ?_⟩ <;> exact hp.field_eq h (by omega) (by omega)

end

theorem phdr_lt (m : ByteMem) (p : ℕ) : (phdr m p).offset < 2 ^ 64 ∧ (phdr m p).vaddr < 2 ^ 64 ∧
    (phdr m p).filesz < 2 ^ 64 ∧ (phdr m p).memsz < 2 ^ 64 := by
  have h8 : (256 : ℕ) ^ 8 = 2 ^ 64 := by norm_num
  exact ⟨readLE_lt .., readLE_lt .., readLE_lt .., readLE_lt ..⟩

/-! ### One segment -/

section Segment

variable {bound : Machine → ℕ} {value : ℕ → Machine → UInt8} {B d : ℕ}

/-- The addresses of a segment. -/
def Phdr.Covers (q : Phdr) (x : ℕ) : Prop := q.vaddr ≤ x ∧ x < q.vaddr + q.memsz

/-- The byte that a segment has at an address: from the file, or zero. -/
def Phdr.byteAt (q : Phdr) (m : ByteMem) (img x : ℕ) : UInt8 :=
  if x < q.vaddr + q.filesz then m (img + (q.offset + (x - q.vaddr))) else 0

/-- What has been stored to stays so. -/
theorem stored_forUp (h : s.stored x = true) :
    (Loops.forUp bound (fun n s => s.store (d + n) (value n s)) fuel n s).stored x = true :=
  Loops.forUp_keeps (I := fun t : Machine => t.stored x = true)
    (fun _ t ht _ => t.stored_store _ _ (.inl ht)) h

theorem stored_storeLoop (h : s.stored x = true) : (storeLoop bound value d n s).stored x = true := stored_forUp h

section

variable (hbound : ∀ s, Inside m s → bound s = B)
include hbound

/-- A loop of stores in the window stays inside. -/
theorem inside_storeLoop (hlo : 0x800000 ≤ d) (hhi : ∀ k < B, d + k < 0x1000000) (n : ℕ) (h : Inside m s) :
    Inside m (storeLoop bound value d n s) := by
  refine Loops.forUp_keeps (fun n s hs hlt => hs.store ⟨?_, ?_⟩ _) h
  · omega
  · rw [hbound s hs] at hlt
    exact hhi n hlt

/-- What such a loop writes, if the values do not depend on what is in the window. -/
theorem mem_storeLoop {byte : ℕ → UInt8}
    (hvalue : ∀ s n, Inside m s → n < B → value n s = byte n) (hlo : 0x800000 ≤ d)
    (hhi : d + B ≤ 0x1000000) (hn : n ≤ B) (h : Inside m s) (x : ℕ) :
    (storeLoop bound value d n s).mem x = if d + n ≤ x ∧ x < d + B then byte (x - d) else s.mem x := by
  have hfuel : B - n ≤ 2 ^ 64 := by omega
  refine (Loops.forUp_of_bound (I := fun k (t : Machine) => Inside m t ∧
    (∀ y, t.mem y = if d + n ≤ y ∧ y < d + k then byte (y - d) else s.mem y) ∧ n ≤ k)
    (fun k t ht => hbound t ht.1) ?_ hn hfuel ⟨h, fun y => ?_, le_rfl⟩).2.1 x
  · rintro k t hk ⟨ht, hmem, hnk⟩
    have hwin : InWindow (d + k) := ⟨by omega, by omega⟩
    refine ⟨ht.store hwin _, fun y => ?_, by omega⟩
    rw [t.store_of_inWindow hwin, hvalue t k ht hk]
    dsimp only
    by_cases hy : y = d + k
    · rw [hy, update_self, if_pos ⟨by omega, by omega⟩, Nat.add_sub_cancel_left]
    · rw [update_of_ne hy, hmem y]
      exact if_congr ⟨fun h => ⟨h.1, by omega⟩, fun h => ⟨h.1, by omega⟩⟩ rfl rfl
  · rw [if_neg (by omega)]

/-- A loop of stores that goes beyond the window leaves it. -/
theorem storeLoop_escapes (hlo : 0x800000 ≤ d) {K : ℕ}
    (hin : ∀ k < K, d + k < 0x1000000) (hmem : d + K < 2 ^ 64) (hn : n ≤ K) (hK : K < B)
    (h : Inside m s) : (storeLoop bound value d n s).stored (d + K) = true := by
  have hstep : ∀ k t, k < K → Inside m t → k < bound t ∧ Inside m (t.store (d + k) (value k t)) := by
    intro k t hk ht
    refine ⟨?_, ht.store ⟨by omega, hin k hk⟩ _⟩
    rw [hbound t ht]
    omega
  have hfuel : K - n ≤ 2 ^ 64 := by omega
  obtain ⟨t, ht, heq⟩ := Loops.forUp_reaches hstep hn hfuel h
  obtain ⟨fuel, hfuel'⟩ : ∃ fuel, 2 ^ 64 - (K - n) = fuel + 1 := ⟨2 ^ 64 - (K - n) - 1, by omega⟩
  rw [storeLoop, heq, hfuel', Loops.forUp, if_pos (by rw [hbound t ht]; exact hK)]
  exact stored_forUp (t.stored_store _ _ (.inr (Nat.mod_eq_of_lt hmem).symm))

end

variable {p : ℕ} {q : Phdr}

theorem Phdr.fits_iff : q.fits size = true ↔ (q.offset + q.filesz) % 2 ^ 64 ≤ size ∧
    q.filesz ≤ q.memsz ∧ 0x800000 ≤ q.vaddr ∧ (q.vaddr + q.memsz) % 2 ^ 64 ≤ 0x1000000 := by
  simp only [Phdr.fits, decide_eq_true_eq]
  omega

variable (hq : ∀ t, Inside m t → phdr t.mem p = q)

include hq

/-- A segment in the window is loaded inside. -/
theorem inside_segment (hfits : q.fits size = true) (hend : q.vaddr + q.memsz < 2 ^ 64) (h : Inside m s) :
    Inside m (copyFile img p q.vaddr s) ∧ Inside m (zeroRest p q.vaddr (copyFile img p q.vaddr s)) := by
  obtain ⟨-, hle, hlo, hhi⟩ := Phdr.fits_iff.mp hfits
  have hcopy : Inside m (copyFile img p q.vaddr s) :=
    inside_storeLoop (fun t ht => congrArg Phdr.filesz (hq t ht)) hlo (fun k hk => by omega) 0 h
  exact ⟨hcopy, inside_storeLoop (fun t ht => congrArg Phdr.memsz (hq t ht)) hlo (fun k hk => by omega) _ hcopy⟩

/-- **What loading a segment writes**: its bytes from the image, then zeros. -/
theorem mem_segment (hp : Placed img size) (hfits : q.fits size = true) (hend : q.vaddr + q.memsz < 2 ^ 64)
    (hfile : q.offset + q.filesz < 2 ^ 64) (h : Inside m s) (x : ℕ) :
    (q.Covers x → (zeroRest p q.vaddr (copyFile img p q.vaddr s)).mem x = q.byteAt m img x) ∧
      (¬q.Covers x → (zeroRest p q.vaddr (copyFile img p q.vaddr s)).mem x = s.mem x) := by
  obtain ⟨hcopy, -⟩ := inside_segment hq hfits hend h
  obtain ⟨hfile', hle, hlo, hhi⟩ := Phdr.fits_iff.mp hfits
  rw [Nat.mod_eq_of_lt hend] at hhi
  have hin := hp.fits
  have hbyte : ∀ t n, Inside m t → n < q.filesz →
      wrapped t.mem (img + ((phdr t.mem p).offset + n)) = m (img + (q.offset + n)) := by
    intro t n ht hn
    rw [hq t ht, hp.wrapped_eq ht (by omega) (by omega), wrapped, Nat.mod_eq_of_lt (by omega)]
  have hcopied := mem_storeLoop (fun t ht => congrArg Phdr.filesz (hq t ht)) hbyte hlo (by omega) (Nat.zero_le _) h x
  have hrest : (zeroRest p q.vaddr (copyFile img p q.vaddr s)).mem x =
      if q.vaddr + q.filesz ≤ x ∧ x < q.vaddr + q.memsz then 0 else (copyFile img p q.vaddr s).mem x := by
    rw [zeroRest, hq _ hcopy]
    exact mem_storeLoop (fun t ht => congrArg Phdr.memsz (hq t ht)) (fun _ _ _ _ => rfl) hlo hhi hle hcopy x
  rw [hrest, copyFile, hcopied, Phdr.Covers, Phdr.byteAt]
  constructor
  · rintro ⟨hge, hlt⟩
    split_ifs
    all_goals first | rfl | omega
  · intro hno
    rw [if_neg (by omega), if_neg (by omega)]

/-- **A segment whose end wraps around leaves the window.** -/
theorem segment_escapes (hfits : q.fits size = true) (hwrap : 2 ^ 64 ≤ q.vaddr + q.memsz) (h : Inside m s) :
    ∃ x, (zeroRest p q.vaddr (copyFile img p q.vaddr s)).stored x = true ∧ ¬InWindow x := by
  obtain ⟨-, -, hlo, -⟩ := Phdr.fits_iff.mp hfits
  obtain ⟨-, hv, hf, hm⟩ := phdr_lt s.mem p
  rw [hq s h] at hv hf hm
  -- The first address from the segment's start on that is beyond the window.
  obtain ⟨K, hin, hout, hmem⟩ : ∃ K, (∀ k < K, q.vaddr + k < 0x1000000) ∧
      0x1000000 ≤ q.vaddr + K ∧ q.vaddr + K < 2 ^ 64 :=
    ⟨0x1000000 - q.vaddr, fun k hk => by omega, by omega, by omega⟩
  refine ⟨q.vaddr + K, ?_, fun hwin => absurd hwin.2 (by omega)⟩
  rcases lt_or_ge K q.filesz with hK | hK
  · rw [zeroRest]
    refine stored_storeLoop ?_
    rw [copyFile]
    exact storeLoop_escapes (fun t ht => congrArg Phdr.filesz (hq t ht)) hlo hin hmem (Nat.zero_le K) hK h
  · have hcopy : Inside m (copyFile img p q.vaddr s) :=
      inside_storeLoop (fun t ht => congrArg Phdr.filesz (hq t ht)) hlo (fun k hk => hin k (hk.trans_le hK)) 0 h
    rw [zeroRest, hq _ hcopy]
    exact storeLoop_escapes (fun t ht => congrArg Phdr.memsz (hq t ht)) hlo hin hmem hK (by omega) hcopy

end Segment

/-! ### The table -/

/-- The `i`th program header of an image. -/
def segment (m : ByteMem) (img i : ℕ) : Phdr :=
  phdr m (img + (ehdr m img).phoff + i * (ehdr m img).phentsize)

/-- Loading the `i`th segment. -/
def loadAt (m : ByteMem) (img i : ℕ) (s : Machine) : Machine :=
  zeroRest (img + (ehdr m img).phoff + i * (ehdr m img).phentsize) (segment m img i).vaddr
    (copyFile img (img + (ehdr m img).phoff + i * (ehdr m img).phentsize) (segment m img i).vaddr s)

/-- The loop goes on behind the `i`th program header. -/
def Passes (m : ByteMem) (img size i : ℕ) : Prop :=
  (segment m img i).type = 1 → (segment m img i).fits size = true

/-- No segment that the loop gets to, from the `i`th header on, has an end that
wraps around. -/
def EndsFit (m : ByteMem) (img size i : ℕ) : Prop :=
  ∀ j, i ≤ j → j < (ehdr m img).phnum → (∀ l, i ≤ l → l < j → Passes m img size l) →
    (segment m img j).type = 1 → (segment m img j).fits size = true →
    (segment m img j).vaddr + (segment m img j).memsz < 2 ^ 64

theorem EndsFit.succ (h : EndsFit m img size i) (hpass : Passes m img size i) : EndsFit m img size (i + 1) := by
  intro j hij hj hall
  refine h j (by omega) hj fun l hil hlj => ?_
  rcases hil.eq_or_lt with rfl | hil
  · exact hpass
  · exact hall l hil hlj

theorem forall_passes_succ (hpass : Passes m img size i) :
    (∀ j, i + 1 ≤ j → j < (ehdr m img).phnum → Passes m img size j) ↔
      ∀ j, i ≤ j → j < (ehdr m img).phnum → Passes m img size j := by
  refine ⟨fun hall j hij hj => ?_, fun hall j hij => hall j (by omega)⟩
  rcases hij.eq_or_lt with rfl | hij
  · exact hpass
  · exact hall j hij hj

/-- Memory holds the first `n` segments, later ones over earlier ones, and is
otherwise as before. -/
structure Overlaid (m : ByteMem) (img n : ℕ) (mem : ByteMem) : Prop where
  loaded : ∀ i < n, (segment m img i).type = 1 → ∀ x, (segment m img i).Covers x →
    (∀ j, i < j → j < n → (segment m img j).type = 1 → ¬(segment m img j).Covers x) →
    mem x = (segment m img i).byteAt m img x
  rest : ∀ x, (∀ i < n, (segment m img i).type = 1 → ¬(segment m img i).Covers x) → mem x = m x

theorem Overlaid.zero (m : ByteMem) (img : ℕ) : Overlaid m img 0 m :=
  ⟨fun i hi => absurd hi (Nat.not_lt_zero i), fun _ _ => rfl⟩

/-- A header that is no segment changes nothing. -/
theorem Overlaid.skip {mem : ByteMem} (h : Overlaid m img n mem)
    (hn : (segment m img n).type ≠ 1) : Overlaid m img (n + 1) mem := by
  refine ⟨fun i hi htype x hx hlast => ?_, fun x hx => h.rest x fun i hi => hx i (by omega)⟩
  rcases Nat.lt_succ_iff_lt_or_eq.mp hi with hi | rfl
  · exact h.loaded i hi htype x hx fun j hij hj => hlast j hij (by omega)
  · exact absurd htype hn

/-- A further segment lies over the ones before. -/
theorem Overlaid.load {mem mem' : ByteMem} (h : Overlaid m img n mem)
    (hn : (segment m img n).type = 1)
    (hmem : ∀ x, ((segment m img n).Covers x → mem' x = (segment m img n).byteAt m img x) ∧
      (¬(segment m img n).Covers x → mem' x = mem x)) : Overlaid m img (n + 1) mem' := by
  refine ⟨fun i hi htype x hx hlast => ?_, fun x hx => ?_⟩
  · rcases Nat.lt_succ_iff_lt_or_eq.mp hi with hi | rfl
    · rw [(hmem x).2 (hlast n hi (Nat.lt_succ_self n) hn)]
      exact h.loaded i hi htype x hx fun j hij hj => hlast j hij (by omega)
    · exact (hmem x).1 hx
  · rw [(hmem x).2 (hx n (Nat.lt_succ_self n) hn)]
    exact h.rest x fun i hi => hx i (by omega)

/-- A table of program headers in the image. -/
structure TableIn (m : ByteMem) (img size : ℕ) : Prop extends Placed img size where
  header : 64 ≤ size
  table : (ehdr m img).phoff + (ehdr m img).phnum * (ehdr m img).phentsize ≤ size
  entry : 56 ≤ (ehdr m img).phentsize

/-- No end of a segment in the file wraps around. -/
def FilesFit (m : ByteMem) (img : ℕ) : Prop :=
  ∀ i < (ehdr m img).phnum, (segment m img i).type = 1 → (segment m img i).offset + (segment m img i).filesz < 2 ^ 64

section Table

variable (ht : TableIn m img size)

include ht

section

variable (hi : i < (ehdr m img).phnum)
include hi

theorem TableIn.segment_in_image : (ehdr m img).phoff + i * (ehdr m img).phentsize + 56 ≤ size := by
  have hle : (i + 1) * (ehdr m img).phentsize ≤ (ehdr m img).phnum * (ehdr m img).phentsize := Nat.mul_le_mul_right _ hi
  have htable := ht.table
  have hent := ht.entry
  rw [Nat.add_mul, Nat.one_mul] at hle
  omega

/-- The headers stay as they are. -/
theorem TableIn.segment_eq : ∀ t, Inside m t →
    phdr t.mem (img + (ehdr m img).phoff + i * (ehdr m img).phentsize) = segment m img i := by
  have hin := ht.segment_in_image hi
  exact fun t h => ht.phdr_eq h (by omega) (by omega)

/-- One turn of the loop, as long as the image is there. -/
theorem loadSegments_step (h : Inside m s) :
    loadSegments img size (fuel + 1) i s =
      if (segment m img i).type ≠ 1 then loadSegments img size fuel (i + 1) s
      else if (segment m img i).fits size then
        loadSegments img size fuel (i + 1) (loadAt m img i s)
      else (s, false) := by
  rw [loadSegments, ht.ehdr_eq h ht.header, if_pos hi, loadSegment, ht.segment_eq hi s h]
  split_ifs <;> rfl

end

theorem loadSegments_end (hi : (ehdr m img).phnum ≤ i) (h : Inside m s) :
    loadSegments img size (fuel + 1) i s = (s, true) := by
  rw [loadSegments, ht.ehdr_eq h ht.header, if_neg (not_lt.mpr hi)]

/-- The loop from the `i`th header on, if no segment it gets to has an end that
wraps around: all stores are inside, and it gets to the end if all headers pass. If
moreover no segment has an end in the file that wraps around, memory holds the segments
afterwards. -/
theorem loadSegments_spec : ∀ {fuel i : ℕ} {s : Machine}, (ehdr m img).phnum - i < fuel →
    i ≤ (ehdr m img).phnum → EndsFit m img size i → Inside m s →
    Inside m (loadSegments img size fuel i s).1 ∧
      ((loadSegments img size fuel i s).2 = true ↔ ∀ j, i ≤ j → j < (ehdr m img).phnum → Passes m img size j) ∧
      (FilesFit m img → Overlaid m img i s.mem → (loadSegments img size fuel i s).2 = true →
        Overlaid m img (ehdr m img).phnum (loadSegments img size fuel i s).1.mem)
  | fuel + 1, i, s, hfuel, hile, hends, h => by
    rcases hile.lt_or_eq with hi | rfl
    swap
    · rw [loadSegments_end ht le_rfl h]
      exact ⟨h, iff_of_true rfl fun j hij hj => absurd hj (by omega), fun _ hover _ => hover⟩
    have hfuel' : (ehdr m img).phnum - (i + 1) < fuel := by omega
    rw [loadSegments_step ht hi h]
    split_ifs with htype hfits
    · have hpass : Passes m img size i := fun h1 => absurd h1 htype
      rw [← forall_passes_succ hpass]
      obtain ⟨hin, hdone, hover⟩ := loadSegments_spec hfuel' hi (hends.succ hpass) h
      exact ⟨hin, hdone, fun hfiles hbefore => hover hfiles (hbefore.skip htype)⟩
    · have hpass : Passes m img size i := fun _ => hfits
      rw [not_not] at htype
      have hend := hends i le_rfl hi (fun l hil hli => absurd hli (by omega)) htype hfits
      rw [← forall_passes_succ hpass]
      obtain ⟨hin, hdone, hover⟩ := loadSegments_spec hfuel' hi (hends.succ hpass)
        (inside_segment (ht.segment_eq hi) hfits hend h).2
      refine ⟨hin, hdone, fun hfiles hbefore => hover hfiles (hbefore.load htype ?_)⟩
      exact mem_segment (ht.segment_eq hi) ht.toPlaced hfits hend (hfiles i hi htype) h
    · refine ⟨h, iff_of_false (by simp) fun hall => ?_, fun _ _ hno => nomatch hno⟩
      exact hfits (hall i le_rfl hi (not_not.mp htype))

omit ht in
theorem stored_loadSegments : ∀ {fuel i : ℕ} {s : Machine}, s.stored x = true →
    (loadSegments img size fuel i s).1.stored x = true
  | 0, _, _, h => h
  | fuel + 1, i, s, h => by
    rw [loadSegments]
    split
    · split
      · exact h
      · rename_i s' hsome
        refine stored_loadSegments ?_
        rw [loadSegment] at hsome
        split_ifs at hsome
        · rwa [← Option.some.inj hsome]
        · rw [← Option.some.inj hsome, zeroRest, copyFile]
          exact stored_storeLoop (stored_storeLoop h)
    · exact h

/-- **A segment whose end wraps around makes the loop leave the window.** -/
theorem loadSegments_escapes : ∀ {fuel i : ℕ} {s : Machine}, (ehdr m img).phnum - i < fuel →
    ¬EndsFit m img size i → Inside m s →
    ∃ x, (loadSegments img size fuel i s).1.stored x = true ∧ ¬InWindow x
  | fuel + 1, i, s, hfuel, hends, h => by
    rw [EndsFit] at hends
    push Not at hends
    obtain ⟨j, hij, hj, hall, htypej, hfitsj, hwrap⟩ := hends
    have hi : i < (ehdr m img).phnum := by omega
    have hlater : i ≠ j → ¬EndsFit m img size (i + 1) := fun hne hends' =>
      absurd (hends' j (by omega) hj (fun l hil hlj => hall l (by omega) hlj) htypej hfitsj) (by omega)
    rw [loadSegments_step ht hi h]
    split_ifs with htype hfits
    · refine loadSegments_escapes (by omega) (hlater fun heq => ?_) h
      exact htype (heq ▸ htypej)
    · rcases lt_or_ge ((segment m img i).vaddr + (segment m img i).memsz) (2 ^ 64) with hend | hend
      · refine loadSegments_escapes (by omega) (hlater fun heq => ?_)
          (inside_segment (ht.segment_eq hi) hfits hend h).2
        exact absurd hend (by rw [heq]; omega)
      · obtain ⟨x, hx, hout⟩ := segment_escapes (ht.segment_eq hi) hfits hend h
        rw [← loadAt] at hx
        exact ⟨x, stored_loadSegments hx, hout⟩
    · have hpass : Passes m img size i := by
        rcases hij.eq_or_lt with rfl | hij
        · exact fun _ => hfitsj
        · exact hall i le_rfl hij
      exact absurd (hpass (not_not.mp htype)) hfits

end Table

/-! ### The whole of it -/

/-- What is meant to be there when a program is started: headers and segments from
the image, in the window, with the rest of memory as it was. -/
structure Loaded (m : ByteMem) (img size : ℕ) (mem : ByteMem) (entry : ℕ) : Prop where
  headers : ∀ i < (ehdr m img).phnum, (ehdr m img).phoff + i * (ehdr m img).phentsize + 56 ≤ size
  window : ∀ i < (ehdr m img).phnum, (segment m img i).type = 1 →
    0x800000 ≤ (segment m img i).vaddr ∧
      (segment m img i).vaddr + (segment m img i).memsz ≤ 0x1000000
  file : ∀ i < (ehdr m img).phnum, (segment m img i).type = 1 →
    (segment m img i).filesz ≤ (segment m img i).memsz ∧
      (segment m img i).offset + (segment m img i).filesz ≤ size
  overlaid : Overlaid m img (ehdr m img).phnum mem
  entry_eq : entry = (ehdr m img).entry
  entry_mem : InWindow entry

/-- Nothing but the window is written, a program is started only if it is loaded,
and everything else is rejected. -/
def Safe (m : ByteMem) (img size : ℕ) : Prop :=
  Inside m (elfExecute img size m).1 ∧
    match (elfExecute img size m).2 with
    | .rejected code => code < 0
    | .jump entry => Loaded m img size (elfExecute img size m).1.mem entry

/-- No sum that the loader goes by has wrapped around: not the end of the table, no
end of a segment in memory that it gets to, and no end of a segment in the file if
it gets to the end. -/
def NoWrap (m : ByteMem) (img size : ℕ) : Prop :=
  64 ≤ size → (ehdr m img).isElf = true → (ehdr m img).tableFits size = true →
    (ehdr m img).phoff + (ehdr m img).phnum * (ehdr m img).phentsize < 2 ^ 64 ∧ EndsFit m img size 0 ∧
      ((∀ i < (ehdr m img).phnum, Passes m img size i) → InWindow (ehdr m img).entry →
        ∀ i < (ehdr m img).phnum, (segment m img i).type = 1 →
          (segment m img i).offset + (segment m img i).filesz < 2 ^ 64)

theorem ehdr_lt (m : ByteMem) (img : ℕ) : (ehdr m img).phnum < 65536 ∧
    (ehdr m img).phentsize < 65536 ∧ (ehdr m img).phoff < 2 ^ 64 := by
  have h2 : (256 : ℕ) ^ 2 = 65536 := by norm_num
  have h8 : (256 : ℕ) ^ 8 = 2 ^ 64 := by norm_num
  exact ⟨readLE_lt .., readLE_lt .., readLE_lt ..⟩

theorem Ehdr.tableFits_iff {h : Ehdr} : h.tableFits size = true ↔
    (h.phoff + h.phnum * h.phentsize) % 2 ^ 64 ≤ size ∧ 56 ≤ h.phentsize := by
  simp only [Ehdr.tableFits, decide_eq_true_eq]
  omega

/-- An image that is rejected before its segments are looked at is safe. -/
theorem safe_of_header (h : ¬(64 ≤ size ∧ (ehdr m img).isElf = true ∧
    (ehdr m img).tableFits size = true)) : Safe m img size := by
  rw [Safe, elfExecute]
  split_ifs with h₁ h₂ h₃
  · exact ⟨.initial m, Int.negSucc_lt_zero 0⟩
  · exact ⟨.initial m, Int.negSucc_lt_zero 1⟩
  · exact ⟨.initial m, Int.negSucc_lt_zero 2⟩
  · exact absurd ⟨not_lt.mp h₁, by simpa using h₂, by simpa using h₃⟩ h

section Header

variable (hsize : 64 ≤ size) (helf : (ehdr m img).isElf = true)
  (hfits : (ehdr m img).tableFits size = true)

include hsize helf hfits

theorem elfExecute_of_false (h : loadSegments img size 65536 0 ⟨m, fun _ => false⟩ = (s, false)) :
    elfExecute img size m = (s, .rejected (-4)) := by
  rw [elfExecute, if_neg (not_lt.mpr hsize), if_neg (by simp [helf]), if_neg (by simp [hfits]), h]

theorem elfExecute_of_true (h : loadSegments img size 65536 0 ⟨m, fun _ => false⟩ = (s, true)) :
    elfExecute img size m =
      if (ehdr s.mem img).entry < 0x800000 ∨ (ehdr s.mem img).entry ≥ 0x1000000 then
        (s, .rejected (-5))
      else (s, .jump (ehdr s.mem img).entry) := by
  rw [elfExecute, if_neg (not_lt.mpr hsize), if_neg (by simp [helf]), if_neg (by simp [hfits]), h]

theorem elfExecute_fst : (elfExecute img size m).1 = (loadSegments img size 65536 0 ⟨m, fun _ => false⟩).1 := by
  rcases h : loadSegments img size 65536 0 ⟨m, fun _ => false⟩ with ⟨s, _ | _⟩
  · rw [elfExecute_of_false hsize helf hfits h]
  · rw [elfExecute_of_true hsize helf hfits h]
    split_ifs
    · rfl
    · rfl

omit hsize helf hfits in
/-- With a table that wraps around, some header does not come from the image. -/
theorem safe_iff_of_table (hp : Placed img size)
    (hwrap : 2 ^ 64 ≤ (ehdr m img).phoff + (ehdr m img).phnum * (ehdr m img).phentsize) :
    Safe m img size ↔ Inside m (elfExecute img size m).1 ∧ ∃ code < 0, (elfExecute img size m).2 = .rejected code := by
  obtain ⟨-, hent, hoff⟩ := ehdr_lt m img
  refine and_congr_right fun _ => ?_
  rcases (elfExecute img size m).2 with code | entry
  · constructor
    · exact fun h => ⟨code, h, rfl⟩
    · rintro ⟨code', h, heq⟩
      rwa [Outcome.rejected.inj heq]
  · refine iff_of_false (fun h => ?_) ?_
    · have hfits' := hp.fits
      have hbeside := hp.beside
      rcases Nat.eq_zero_or_pos (ehdr m img).phnum with h0 | hpos
      · rw [h0, Nat.zero_mul] at hwrap
        omega
      · have hlast := h.headers ((ehdr m img).phnum - 1) (by omega)
        have hsplit : (ehdr m img).phnum * (ehdr m img).phentsize =
            ((ehdr m img).phnum - 1) * (ehdr m img).phentsize + (ehdr m img).phentsize := by
          rw [← Nat.succ_mul, Nat.succ_eq_add_one, Nat.sub_add_cancel hpos]
        omega
    · rintro ⟨code, -, heq⟩
      exact Outcome.noConfusion heq

end Header

/-- When the loop gets to the end and nothing has wrapped around, the program is
loaded. -/
theorem loaded_of_passes (ht : TableIn m img size) (hends : EndsFit m img size 0)
    (hpass : ∀ i < (ehdr m img).phnum, Passes m img size i) (hfiles : FilesFit m img) {mem : ByteMem}
    (hover : Overlaid m img (ehdr m img).phnum mem)
    (hentry : InWindow (ehdr m img).entry) : Loaded m img size mem (ehdr m img).entry := by
  have hfit := fun i hi htype => Phdr.fits_iff.mp (hpass i hi htype)
  refine ⟨fun i hi => ht.segment_in_image hi, fun i hi htype => ?_, fun i hi htype => ?_, hover, rfl, hentry⟩
  · obtain ⟨-, -, hlo, hhi⟩ := hfit i hi htype
    rw [Nat.mod_eq_of_lt (hends i (Nat.zero_le i) hi (fun l _ hl => hpass l (hl.trans hi)) htype
      (hpass i hi htype))] at hhi
    exact ⟨hlo, hhi⟩
  · obtain ⟨hfile, hle, -, -⟩ := hfit i hi htype
    rw [Nat.mod_eq_of_lt (hfiles i hi htype)] at hfile
    exact ⟨hle, hfile⟩

/-- With a table in the image, all depends on the segments. -/
theorem safe_iff_of_segments (ht : TableIn m img size)
    (helf : (ehdr m img).isElf = true) (hfits : (ehdr m img).tableFits size = true) :
    Safe m img size ↔ EndsFit m img size 0 ∧
      ((∀ i < (ehdr m img).phnum, Passes m img size i) → InWindow (ehdr m img).entry → FilesFit m img) := by
  have hsize := ht.header
  obtain ⟨hnum, -, -⟩ := ehdr_lt m img
  have hfuel : (ehdr m img).phnum - 0 < 65536 := by omega
  by_cases hends : EndsFit m img size 0
  swap
  · -- A store outside of the window has been made.
    refine iff_of_false (fun hsafe => ?_) fun h => hends h.1
    obtain ⟨x, hx, hout⟩ := loadSegments_escapes ht hfuel hends (.initial m)
    refine hout (hsafe.1.stored x ?_)
    rwa [elfExecute_fst hsize helf hfits]
  obtain ⟨hinside, hdone, hover⟩ := loadSegments_spec ht hfuel (Nat.zero_le _) hends (.initial m)
  rcases hload : loadSegments img size 65536 0 ⟨m, fun _ => false⟩ with ⟨s, _ | _⟩
  · rw [hload] at hinside hdone
    rw [Safe, elfExecute_of_false hsize helf hfits hload]
    refine iff_of_true ⟨hinside, Int.negSucc_lt_zero 3⟩ ⟨hends, fun hpass => ?_⟩
    exact absurd (hdone.mpr fun j _ hj => hpass j hj) (by simp)
  rw [hload] at hinside hdone hover
  have hpass : ∀ i < (ehdr m img).phnum, Passes m img size i := fun i hi =>
    hdone.mp rfl i (Nat.zero_le i) hi
  rw [Safe, elfExecute_of_true hsize helf hfits hload, ht.ehdr_eq hinside hsize]
  by_cases hentry : InWindow (ehdr m img).entry
  swap
  · rw [if_pos (by rw [InWindow] at hentry; omega)]
    exact iff_of_true ⟨hinside, Int.negSucc_lt_zero 4⟩ ⟨hends, fun _ h => absurd h hentry⟩
  rw [if_neg (by have := hentry.1; have := hentry.2; omega)]
  have hlt : size < 2 ^ 64 := by
    have hle := ht.fits
    have hbeside := ht.beside
    omega
  constructor
  · rintro ⟨-, hloaded⟩
    exact ⟨hends, fun _ _ i hi htype => lt_of_le_of_lt (hloaded.file i hi htype).2 hlt⟩
  · rintro ⟨-, hfiles⟩
    have hfiles' := hfiles hpass hentry
    exact ⟨hinside, loaded_of_passes ht hends hpass hfiles' (hover hfiles' (.zero m img) rfl) hentry⟩

/-- **The loader is safe unless a sum wraps around.** Nothing but the window is
written, and a program is started only with its segments in place, if none of the sums
that the loader compares has wrapped around modulo `2 ^ 64`, and for a table that has not
wrapped around only then. With a table that has, no program that is started is loaded
from the image: the headers are read in front of it, and what is found there, which an
earlier turn of the loop may have written, is no matter of the image
(`OS64.Elf.bytes_in_front_decide`). -/
theorem elf_safe_iff (hp : Placed img size) : (NoWrap m img size → Safe m img size) ∧
    if (ehdr m img).phoff + (ehdr m img).phnum * (ehdr m img).phentsize < 2 ^ 64 then
      Safe m img size → NoWrap m img size
    else ∀ entry, (elfExecute img size m).2 = .jump entry → ¬Safe m img size := by
  by_cases hheader : 64 ≤ size ∧ (ehdr m img).isElf = true ∧ (ehdr m img).tableFits size = true
  swap
  · have hsafe := safe_of_header hheader
    refine ⟨fun _ => hsafe, ?_⟩
    split_ifs with htable
    · exact fun _ h₁ h₂ h₃ => absurd ⟨h₁, h₂, h₃⟩ hheader
    · intro entry hjump _
      obtain ⟨-, code, -, hrejected⟩ := (safe_iff_of_table hp (not_lt.mp htable)).mp hsafe
      exact Outcome.noConfusion (hjump.symm.trans hrejected)
  obtain ⟨hsize, helf, hfits⟩ := hheader
  have hwhen : NoWrap m img size ↔ _ := ⟨fun h => h hsize helf hfits, fun h _ _ _ => h⟩
  rw [hwhen]
  split_ifs with htable
  · obtain ⟨hle, hent⟩ := Ehdr.tableFits_iff.mp hfits
    rw [Nat.mod_eq_of_lt htable] at hle
    have hiff := safe_iff_of_segments ⟨hp, hsize, hle, hent⟩ helf hfits
    exact ⟨fun h => hiff.mpr h.2, fun h => ⟨htable, hiff.mp h⟩⟩
  · refine ⟨fun h => absurd h.1 htable, fun entry hjump hsafe => ?_⟩
    obtain ⟨-, code, -, hrejected⟩ := (safe_iff_of_table hp (not_lt.mp htable)).mp hsafe
    exact Outcome.noConfusion (hjump.symm.trans hrejected)

/-! ### Two images -/

/-- The bytes of a field. -/
def fieldBytes (k v : ℕ) : List UInt8 := (List.range k).map fun i => UInt8.ofNat (v / 256 ^ i)

/-- An image of 121 bytes with one segment, and one byte behind the headers. -/
def oneSegment (offset filesz memsz : ℕ) : List UInt8 :=
  [0x7f, 69, 76, 70, 2] ++ List.replicate 11 0 ++ fieldBytes 2 2 ++ fieldBytes 2 62 ++ fieldBytes 4 1 ++
    fieldBytes 8 0x800000 ++ fieldBytes 8 64 ++ fieldBytes 8 0 ++ fieldBytes 4 0 ++ fieldBytes 2 64 ++
    fieldBytes 2 56 ++ fieldBytes 2 1 ++ List.replicate 6 0 ++
    fieldBytes 4 1 ++ fieldBytes 4 5 ++ fieldBytes 8 offset ++ fieldBytes 8 0x800000 ++ fieldBytes 8 0 ++
    fieldBytes 8 filesz ++ fieldBytes 8 memsz ++ fieldBytes 8 0 ++ [0xc3]

/-- The image in a memory of `0x90`s. -/
def imageAt (img : ℕ) (image : List UInt8) : ByteMem := ByteMem.store (fun _ => 0x90) img image

/-- The last byte and a zero are loaded. -/
theorem elf_safe_oneSegment : Safe (imageAt 0x200000 (oneSegment 120 1 2)) 0x200000 121 :=
  (elf_safe_iff ⟨by decide, .inl (by decide)⟩).1 (by
    have hnum : (ehdr (imageAt 0x200000 (oneSegment 120 1 2)) 0x200000).phnum = 1 := by decide +kernel
    intro _ _ _
    rw [EndsFit, hnum]
    refine ⟨by decide +kernel, fun j _ hj _ _ _ => ?_, fun _ _ i hi _ => ?_⟩
    · obtain rfl : j = 0 := by omega
      decide +kernel
    · obtain rfl : i = 0 := by omega
      decide +kernel)

/-- A segment at offset `2 ^ 64 - 1` of the file, of one byte: its end is 0, and the
byte before the image is loaded and started. -/
theorem elf_loads_byte_before_image :
    Placed 0x200000 121 ∧
      (elfExecute 0x200000 121 (imageAt 0x200000 (oneSegment (2 ^ 64 - 1) 1 1))).2 = .jump 0x800000 ∧
      (elfExecute 0x200000 121 (imageAt 0x200000 (oneSegment (2 ^ 64 - 1) 1 1))).1.mem 0x800000 = 0x90 ∧
      ¬Safe (imageAt 0x200000 (oneSegment (2 ^ 64 - 1) 1 1)) 0x200000 121 := by
  have hjump : (elfExecute 0x200000 121 (imageAt 0x200000 (oneSegment (2 ^ 64 - 1) 1 1))).2 =
      .jump 0x800000 := by decide +kernel
  refine ⟨⟨by decide, .inl (by decide)⟩, hjump, by decide +kernel, fun hsafe => ?_⟩
  rw [Safe, hjump] at hsafe
  obtain ⟨-, hloaded⟩ := hsafe
  have hfile := (hloaded.file 0 (by decide +kernel) (by decide +kernel)).2
  exact absurd hfile (by decide +kernel)

/-- An image of 64 bytes whose table begins 56 bytes in front of it, where its end is 0. -/
def tableInFront : List UInt8 :=
  (oneSegment 0 0 0).take 32 ++ fieldBytes 8 (2 ^ 64 - 56) ++ ((oneSegment 0 0 0).drop 40).take 24

/-- With a table in front of the image the bytes there decide: one and the same image is
started where no header is found, and rejected where one of the type `PT_LOAD` is. -/
theorem bytes_in_front_decide : ¬Safe (imageAt 0x200000 tableInFront) 0x200000 64 ∧
    Safe (ByteMem.store (imageAt 0x200000 tableInFront) 0x1fffc8 [1, 0, 0, 0]) 0x200000 64 := by
  have hp : Placed 0x200000 64 := ⟨by decide, .inl (by decide)⟩
  refine ⟨fun hsafe => ?_, ?_⟩
  · obtain ⟨-, code, -, hcode⟩ := (safe_iff_of_table hp (by decide +kernel)).mp hsafe
    have hjump : (elfExecute 0x200000 64 (imageAt 0x200000 tableInFront)).2 = .jump 0x800000 := by decide +kernel
    exact Outcome.noConfusion (hjump.symm.trans hcode)
  · generalize hm : ByteMem.store (imageAt 0x200000 tableInFront) 0x1fffc8 [1, 0, 0, 0] = m
    have hload : loadSegments 0x200000 64 65536 0 ⟨m, fun _ => false⟩ = (⟨m, fun _ => false⟩, false) := by
      subst hm
      rw [loadSegments, if_pos (by decide +kernel), loadSegment, if_neg (by decide +kernel), if_neg (by decide +kernel)]
    have hrun := elfExecute_of_false (m := m) (by decide) (by subst hm; decide +kernel) (by subst hm; decide +kernel) hload
    rw [Safe, hrun]
    exact ⟨.initial m, Int.negSucc_lt_zero 3⟩

end OS64.Elf
