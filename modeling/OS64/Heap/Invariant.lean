import OS64.Heap.Ops

/-!
# The heap invariant

`OS64.Heap.Rep P s bs` says that the state `s` of the allocator represents the
list of blocks `bs`: the memory holds the list, the list fills the heap, its
sizes are multiples of 16, no two neighbouring blocks are both free, and the two
counters are the totals of the list. For each entry point of the allocator one
theorem says what it returns and which list the state represents afterwards.
-/

namespace OS64.Heap

open BlockList

variable {P : Placement} {s s' : State} {bs l r : List Block} {b : Block}

/-- A size a block can have: a positive multiple of 16. -/
def Aligned (n : ℕ) : Prop := 16 ∣ n ∧ 0 < n

theorem Aligned.merge (m n : ℕ) (hm : Aligned m) (hn : Aligned n) : Aligned (m + (headerBytes + n)) :=
  ⟨Nat.dvd_add hm.1 (Nat.dvd_add (by decide) hn.1), Nat.add_pos_left hm.2 _⟩

theorem Aligned.split {m n : ℕ} (hm : Aligned m) (hn : Aligned n)
    (h : m + headerBytes + minPayload ≤ n) : Aligned (n - m - headerBytes) := by
  have hmin : minPayload = 16 := rfl
  exact ⟨Nat.dvd_sub (Nat.dvd_sub hn.1 hm.1) (by decide), by omega⟩

/-- **The representation invariant** of the allocator. -/
structure Rep (P : Placement) (s : State) (bs : List Block) : Prop where
  first : s.first = P.heap
  heapBytes_gt : headerBytes + minPayload < s.heapBytes
  heapBytes_le : s.heapBytes ≤ heapMaxBytes
  seg : Seg s.mem (P.heap + s.heapBytes) 0 P.heap bs
  extent_eq : extent bs = s.heapBytes
  aligned : ∀ b ∈ bs, Aligned b.size
  separated : Separated bs
  used : s.used = usedBytes bs
  allocations : s.allocations = usedCount bs

theorem Placement.heap_add_lt (P : Placement) (h : s.heapBytes ≤ heapMaxBytes) : P.heap + s.heapBytes < 2 ^ 64 := by
  have := P.heap_fits
  omega

section

variable (h : Rep P s bs)
include h

/-- The pointer to the first block is the link to the front of the list. -/
theorem Rep.first_eq_link : s.first = link (P.heap + s.heapBytes) P.heap := by
  have := h.heapBytes_gt
  rw [h.first, link_of_ne (by omega)]

/-- The loops have fuel for every block. -/
theorem Rep.length_lt_fuel : bs.length < s.fuel := by
  have hlen : bs.length ≤ span headerBytes bs := length_le_span (by decide) bs
  have hext : span headerBytes bs = s.heapBytes := h.extent_eq
  rw [State.fuel]
  omega

theorem Rep.first_ne_zero : s.first ≠ 0 := by
  have := P.heap_pos
  rw [h.first]
  omega

theorem Rep.size_le (hb : b ∈ bs) : headerBytes + b.size ≤ s.heapBytes := by
  obtain ⟨l, r, rfl⟩ := List.append_of_mem hb
  have := h.extent_eq
  simp only [extent_append, extent_cons] at this
  omega

theorem Rep.usedBytes_lt : usedBytes bs < 2 ^ 64 := by
  have hle : usedBytes bs ≤ span headerBytes bs := usedBytes_le_span bs
  have hext : span headerBytes bs = s.heapBytes := h.extent_eq
  have := h.heapBytes_le
  have : heapMaxBytes = 2097152 := rfl
  omega

theorem Rep.usedCount_lt : usedCount bs < s.fuel := lt_of_le_of_lt (usedCount_le_length bs) h.length_lt_fuel

end

/-! ### `memory_init` -/

theorem initialHeapBytes_le (available : ℕ) : initialHeapBytes available ≤ heapMaxBytes := by
  simp only [initialHeapBytes]
  split <;> omega

theorem dvd_initialHeapBytes (available : ℕ) : 16 ∣ initialHeapBytes available := by
  exact Nat.dvd_sub_mod _

variable {m : ByteMem} {available n : ℕ}

/-- A heap is set up exactly when it can hold more than a header and a least
payload. -/
theorem memoryInit_first_ne_zero :
    (memoryInit P m available).first ≠ 0 ↔ headerBytes + minPayload < initialHeapBytes available := by
  have := P.heap_pos
  simp only [memoryInit]
  split
  · simp only [ne_eq, not_true_eq_false, false_iff]
    omega
  · simp only [ne_eq]
    omega

/-- `memory_init` sets up one free block. -/
theorem rep_memoryInit (h : (memoryInit P m available).first ≠ 0) :
    Rep P (memoryInit P m available) [⟨initialHeapBytes available - headerBytes, true⟩] := by
  have hgt := memoryInit_first_ne_zero.mp h
  have hle := initialHeapBytes_le available
  have hfits := P.heap_fits
  have haligned : Aligned (initialHeapBytes available - headerBytes) :=
    ⟨Nat.dvd_sub (dvd_initialHeapBytes available) (by decide), by omega⟩
  rw [memoryInit, if_neg (by omega)]
  constructor
  case seg =>
    refine ⟨?_, trivial⟩
    have hend : P.heap + headerBytes + (initialHeapBytes available - headerBytes) =
        P.heap + initialHeapBytes available := by omega
    simp only [hend, link_self]
    exact headerAt_of_writes (by omega) (by omega) (by omega)
  case extent_eq =>
    simp only [extent_cons, extent_nil]
    omega
  case aligned => simpa using haligned
  case separated => exact List.isChain_singleton _
  case heapBytes_gt => exact hgt
  case heapBytes_le => exact hle
  all_goals rfl

/-! ### `kmalloc` -/

/-- A request rounded up to the alignment. -/
def roundUp (n : ℕ) : ℕ := (n + 15) / 16 * 16

theorem alignUp_eq (hn : n < 2 ^ 64) : alignUp n = if roundUp n < 2 ^ 64 then roundUp n else 0 := by
  have h16 : alignment = 16 := rfl
  rw [alignUp, roundUp, h16]
  split <;> split <;> omega

/-- What `kmalloc` does to a represented list. -/
inductive KmallocOutcome (P : Placement) (s : State) (bs : List Block) (n : ℕ) : State → ℕ → Prop
  /-- Nothing fits: null is returned and nothing has changed. -/
  | null (h : n = 0 ∨ ∀ c ∈ bs, ¬(c.free = true ∧ roundUp n ≤ c.size)) :
      KmallocOutcome P s bs n s 0
  /-- The block `b` fits and is carved. -/
  | taken {s' : State} (l : List Block) (b : Block) (r : List Block) (hn : 0 < n)
      (hbs : bs = l ++ b :: r) (hfree : b.free = true) (hfit : roundUp n ≤ b.size)
      (hrep : Rep P s' (l ++ (carve headerBytes minPayload (roundUp n) b ++ r)))
      (hbytes : s'.heapBytes = s.heapBytes)
      (hframe : ∀ x, ¬InHeader P.heap bs x → ¬(P.heap + extent l + headerBytes ≤ x ∧
        x < P.heap + extent l + headerBytes + b.size) → s'.mem x = s.mem x) :
      KmallocOutcome P s bs n s' (P.heap + extent l + headerBytes)

/-- Carving a block keeps the invariant. -/
theorem Rep.take {wanted : ℕ} (h : Rep P s (l ++ b :: r)) (hfree : b.free = true)
    (hfit : wanted ≤ b.size) (hwanted : Aligned wanted) :
    Rep P (take s (P.heap + extent l) wanted)
        (l ++ (carve headerBytes minPayload wanted b ++ r)) ∧
      ∀ x, ¬InHeader P.heap (l ++ b :: r) x → ¬(P.heap + extent l + headerBytes ≤ x ∧
        x < P.heap + extent l + headerBytes + b.size) →
        (take s (P.heap + extent l) wanted).mem x = s.mem x := by
  have hsize := h.size_le (b := b) (by simp)
  have hle := h.heapBytes_le
  have he64 := P.heap_add_lt h.heapBytes_le
  have hext := h.extent_eq
  obtain ⟨hl, hbr⟩ := seg_append.mp h.seg
  simp only [extent_append] at hext
  obtain ⟨hseg, hframe, hused⟩ := take_spec wanted hbr (by omega)
    (by have := P.heap_pos; omega) he64 hfit (by omega)
  refine ⟨⟨h.first, h.heapBytes_gt, h.heapBytes_le, ?_, ?_, ?_, h.separated.carve hfree, ?_, ?_⟩, ?_⟩
  · refine seg_append.mpr ⟨hl.congr fun x _ hx => hframe x (fun hin => ?_) (by omega), hseg⟩
    exact absurd hin.le (by omega)
  · have hcarve : extent (carve headerBytes minPayload wanted b) = headerBytes + b.size := span_carve
    simp only [extent_append, hcarve]
    rw [extent_cons] at hext
    change _ = s.heapBytes
    omega
  · intro c hc
    simp only [List.mem_append] at hc
    rcases hc with hc | hc | hc
    · exact h.aligned c (by simp [hc])
    · have hb := h.aligned b (by simp)
      exact size_of_mem_carve hwanted hb (hwanted.split hb) c hc
    · exact h.aligned c (by simp [hc])
  · have hcarved : usedBytes (carve headerBytes minPayload wanted b) ≤ b.size := by
      rw [usedBytes_carve]
      split <;> omega
    have hmax : heapMaxBytes = 2097152 := rfl
    have htotal := h.used
    have hused' : usedBytes (l ++ b :: r) ≤ span headerBytes (l ++ b :: r) := usedBytes_le_span _
    have hspan : span headerBytes (l ++ b :: r) = s.heapBytes := h.extent_eq
    rw [hused, Nat.mod_eq_of_lt (by omega), htotal]
    simp only [usedBytes_append, usedBytes, hfree, if_true]
    omega
  · have hcount := h.usedCount_lt
    have hfuel : s.fuel ≤ heapMaxBytes + 1 := by
      rw [State.fuel]
      omega
    have hmax : heapMaxBytes = 2097152 := rfl
    have htotal := h.allocations
    change (s.allocations + 1) % 2 ^ 64 = _
    rw [Nat.mod_eq_of_lt (by omega), htotal]
    simp only [usedCount_append, usedCount_carve, usedCount, hfree, if_true]
    omega
  · intro x hx hx'
    rw [inHeader_append, not_or] at hx
    exact hframe x hx.2 hx'

/-- **`kmalloc` on a represented list.** -/
theorem kmalloc_spec (h : Rep P s bs) (hn : n < 2 ^ 64) :
    ∃ s' q, kmalloc s n = some (s', q) ∧ KmallocOutcome P s bs n s' q := by
  by_cases h0 : n = 0
  · exact ⟨s, 0, by rw [kmalloc, if_pos (.inl h0)], .null (.inl h0)⟩
  rw [kmalloc, if_neg (not_or.mpr ⟨h0, h.first_ne_zero⟩)]
  have halign := alignUp_eq hn
  have hround : 0 < roundUp n := by
    rw [roundUp]
    omega
  have hmax : heapMaxBytes = 2097152 := rfl
  have hle := h.heapBytes_le
  by_cases hlt : roundUp n < 2 ^ 64
  · rw [if_pos hlt] at halign
    simp only [halign, if_neg hround.ne', h.first_eq_link]
    have hsearch := findFit_of_seg (roundUp n) h.seg P.heap_pos
      (by rw [h.extent_eq]) h.length_lt_fuel
    rcases hsearch with ⟨l, b, r, rfl, ⟨hfree, hfit⟩, hhit⟩ | ⟨hnone, hmiss⟩
    · rw [hhit]
      obtain ⟨hrep, hframe⟩ := h.take hfree hfit ⟨Dvd.intro_left _ rfl, hround⟩
      exact ⟨_, _, rfl, .taken l b r (by omega) rfl hfree hfit hrep rfl hframe⟩
    · rw [hmiss]
      exact ⟨s, 0, rfl, .null (.inr hnone)⟩
  · rw [if_neg hlt] at halign
    simp only [halign, if_true]
    refine ⟨s, 0, rfl, .null (.inr fun c hc hcon => ?_)⟩
    have := h.size_le hc
    omega

/-! ### `kfree` -/

/-- What `kfree` does to a represented list. -/
inductive KfreeOutcome (P : Placement) (s : State) (bs : List Block) (q : ℕ) : State → Prop
  /-- The pointer is no allocated payload: nothing has changed. -/
  | ignored (h : ∀ n, ¬AllocAt P.heap bs q n) : KfreeOutcome P s bs q s
  /-- The pointer is the payload of `b`, which is given back. -/
  | freed {s' : State} (l : List Block) (b : Block) (r : List Block) (hbs : bs = l ++ b :: r)
      (hfree : b.free = false) (hq : q = P.heap + extent l + headerBytes)
      (hrep : Rep P s' (BlockList.release headerBytes l b r))
      (hbytes : s'.heapBytes = s.heapBytes)
      (hframe : ∀ x, ¬InHeader P.heap bs x → s'.mem x = s.mem x) : KfreeOutcome P s bs q s'

/-- Giving a block back keeps the invariant. -/
theorem Rep.release (h : Rep P s (l ++ b :: r)) (hfree : b.free = false) :
    Rep P (Heap.release s (P.heap + extent l)) (BlockList.release headerBytes l b r) ∧
      ∀ x, ¬InHeader P.heap (l ++ b :: r) x → (Heap.release s (P.heap + extent l)).mem x = s.mem x := by
  have he64 := P.heap_add_lt h.heapBytes_le
  obtain ⟨hseg, hframe, hused⟩ := release_spec h.seg (by rw [h.extent_eq]) P.heap_pos he64
  refine ⟨⟨?_, ?_, ?_, ?_, ?_, ?_, h.separated.release, ?_, ?_⟩, hframe⟩
  · rw [release_first, h.first]
  · rw [release_heapBytes]
    exact h.heapBytes_gt
  · rw [release_heapBytes]
    exact h.heapBytes_le
  · rw [release_heapBytes]
    exact hseg
  · rw [release_heapBytes]
    exact span_release.trans h.extent_eq
  · exact size_of_mem_release Aligned.merge h.aligned
  · have htotal := usedBytes_release (h := headerBytes) (l := l) (r := r) hfree
    have hlt := h.usedBytes_lt
    rw [hused, h.used]
    omega
  · have htotal := usedCount_release (h := headerBytes) (l := l) (r := r) hfree
    have hcount := h.allocations
    have hne : s.allocations ≠ 0 := by omega
    rw [release_allocations, if_pos hne]
    omega

/-- A block of the list in memory, found by its place in the list. -/
theorem Rep.header (h : Rep P s (l ++ b :: r)) :
    HeaderAt s.mem (P.heap + extent l) (lastAddr 0 P.heap l)
      (link (P.heap + s.heapBytes) (P.heap + extent l + headerBytes + b.size)) b :=
  (seg_append.mp h.seg).2.1

/-- The payload at a pointer that the search finds in an allocated block. -/
theorem allocAt_self (hb : b.free = false) {a : ℕ} : AllocAt a (l ++ b :: r) (a + extent l + headerBytes) b.size :=
  allocAt_append.mpr (.inr (.inl ⟨hb, rfl, rfl⟩))

/-- An allocated payload belongs to a block of the list. -/
theorem AllocAt.exists_append {a q n : ℕ} (h : AllocAt a bs q n) :
    ∃ l b r, bs = l ++ b :: r ∧ b.free = false ∧ q = a + extent l + headerBytes ∧ n = b.size := by
  induction bs generalizing a with
  | nil => exact h.elim
  | cons c bs ih =>
    rcases h with ⟨hc, hq, hn⟩ | h
    · exact ⟨[], c, bs, rfl, hc, by simpa using hq, hn⟩
    · obtain ⟨l, b, r, rfl, hb, hq, hn⟩ := ih h
      exact ⟨c :: l, b, r, rfl, hb, by rw [hq, extent_cons]; omega, hn⟩

/-- Two blocks of a list at the same address are the same one. -/
theorem append_cons_unique {l' r' : List Block} {b' : Block} (h : l ++ b :: r = l' ++ b' :: r')
    (hext : extent l = extent l') : l = l' ∧ b = b' ∧ r = r' := by
  induction l generalizing l' with
  | nil =>
    rcases l' with _ | ⟨c, l'⟩
    · simpa using h
    · rw [extent_nil, extent_cons, headerBytes_eq] at hext
      omega
  | cons c l ih =>
    rcases l' with _ | ⟨c', l'⟩
    · rw [extent_nil, extent_cons, headerBytes_eq] at hext
      omega
    · obtain ⟨rfl, htail⟩ : c = c' ∧ l ++ b :: r = l' ++ b' :: r' := by simpa using h
      obtain ⟨rfl, rfl, rfl⟩ := ih htail (by
        simp only [extent_cons] at hext
        omega)
      exact ⟨rfl, rfl, rfl⟩

/-- **`kfree` on a represented list.** -/
theorem kfree_spec (h : Rep P s bs) (q : ℕ) : ∃ s', kfree P s q = some s' ∧ KfreeOutcome P s bs q s' := by
  have h48 := headerBytes_eq
  have hext := h.extent_eq
  by_cases h0 : q = 0
  · refine ⟨s, by rw [kfree, if_pos h0], .ignored fun n hn => ?_⟩
    have := hn.bounds
    omega
  rw [kfree, if_neg h0]
  by_cases hrange : q < P.heap + headerBytes ∨ q ≥ P.heap + s.heapBytes
  · refine ⟨s, by rw [if_pos hrange], .ignored fun n hn => ?_⟩
    obtain ⟨l, b, r, rfl, -, -, rfl⟩ := hn.exists_append
    have hpos := (h.aligned b (by simp)).2
    have := hn.bounds
    omega
  rw [if_neg hrange, h.first_eq_link]
  have hsearch := findBlock_of_seg q h.seg P.heap_pos (by rw [hext]) h.length_lt_fuel
  rcases hsearch with ⟨l, b, r, rfl, hq, hhit⟩ | ⟨hnone, hmiss⟩
  · rw [hhit]
    have hheader := h.header
    cases hfree : b.free with
    | true =>
      refine ⟨s, if_pos (.inr (hheader.free_ne_zero.mpr hfree)), .ignored fun n hn => ?_⟩
      obtain ⟨l', b', r', hsplit, hb', hq', -⟩ := hn.exists_append
      obtain ⟨rfl, rfl, rfl⟩ := append_cons_unique hsplit (by omega)
      rw [hfree] at hb'
      exact Bool.noConfusion hb'
    | false =>
      obtain ⟨hrep, hframe⟩ := h.release hfree
      refine ⟨_, if_neg ?_, .freed l b r rfl hfree hq.symm hrep (release_heapBytes s _) hframe⟩
      rintro (hmagic | hz)
      · exact hmagic hheader.magic
      · exact absurd (hheader.free_ne_zero.mp hz) (by simp [hfree])
  · rw [hmiss]
    refine ⟨s, rfl, .ignored fun n hn => ?_⟩
    obtain ⟨l, b, r, rfl, -, hq, -⟩ := hn.exists_append
    exact hnone l b r rfl hq.symm

end OS64.Heap
