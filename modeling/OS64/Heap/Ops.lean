import OS64.Heap.Layout

/-!
# Carving and merging, in memory

What the stores of `kmalloc` and `kfree` do to a represented list of blocks.
Each of the four memory operations of the allocator – `OS64.Heap.split`,
`OS64.Heap.take`, `OS64.Heap.mergeNext`, `OS64.Heap.mergePrevious` – is shown to
lead from a memory that represents one list to a memory that represents the
list the abstract operation of `BlockList` gives, and to change no byte outside
the headers of the old list; `take`, which writes the header of a remainder
into what was free payload, none outside the headers and that payload.
-/

namespace OS64.Heap

open List BlockList

variable {x : ℕ}

variable {m m' : ByteMem} {e p a v prev nxt : ℕ} {b : Block} {bs l r : List Block}

/-! ### Writing header fields -/

/-- Writing the five fields in turn makes a header, whatever was there. -/
theorem headerAt_of_writes (hp : prev < 2 ^ 64) (hn : nxt < 2 ^ 64) (hv : v < 2 ^ 64) :
    HeaderAt
      (setFree (setNext (setPrevious (setSize (setMagic m a blockMagic) a v) a prev) a nxt) a 1)
      a prev nxt ⟨v, true⟩ := by
  have hmagic : blockMagic < 2 ^ 64 := by decide
  constructor <;> simp (disch := omega) only [magic, size, previous, next, free, setMagic, setSize,
    setPrevious, setNext, setFree, ByteMem.readLE_writeLE_of_disjoint,
    ByteMem.readLE_writeLE_of_lt, if_true]

section

variable (h : x < a ∨ a + headerBytes ≤ x)
include h

/-- A field write stays inside the header. -/
theorem setNext_of_notMem : setNext m a v x = m x := ByteMem.writeLE_of_notMem m (by have := headerBytes_eq; omega)

theorem setSize_of_notMem : setSize m a v x = m x := ByteMem.writeLE_of_notMem m (by have := headerBytes_eq; omega)

theorem setFree_of_notMem : setFree m a v x = m x := ByteMem.writeLE_of_notMem m (by have := headerBytes_eq; omega)

theorem setPrevious_of_notMem : setPrevious m a v x = m x :=
  ByteMem.writeLE_of_notMem m (by have := headerBytes_eq; omega)

theorem setMagic_of_notMem : setMagic m a v x = m x := ByteMem.writeLE_of_notMem m (by have := headerBytes_eq; omega)

end

/-! ### The bytes of the headers -/

/-- The byte at `x` belongs to a header of the list laid out from `a` on. -/
def InHeader : ℕ → List Block → ℕ → Prop
  | _, [], _ => False
  | a, b :: bs, x => (a ≤ x ∧ x < a + headerBytes) ∨ InHeader (a + headerBytes + b.size) bs x

theorem inHeader_append : InHeader a (l ++ r) x ↔ InHeader a l x ∨ InHeader (a + extent l) r x := by
  induction l generalizing a with
  | nil => simp [InHeader]
  | cons b l ih =>
    rw [cons_append, InHeader, InHeader, ih, or_assoc, extent_cons]
    simp only [add_assoc]

/-- Header bytes do not lie before the list. -/
theorem InHeader.le (h : InHeader a bs x) : a ≤ x := by
  induction bs generalizing a with
  | nil => exact h.elim
  | cons b bs ih =>
    rcases h with h | h
    · exact h.1
    · have := ih h
      omega

/-! ### Carving -/

/-- Splitting a block leaves it with the bytes wanted, followed by a free block
with the rest. -/
theorem split_spec {wanted : ℕ}
    (hb : HeaderAt m a p (link e (a + headerBytes + b.size)) b)
    (hr : Seg m e a (a + headerBytes + b.size) r) (he : a + headerBytes + b.size + extent r = e)
    (ha : 0 < a) (he64 : e < 2 ^ 64) (hw : wanted + headerBytes + minPayload ≤ b.size) :
    Seg (split m a wanted) e p a
        (⟨wanted, b.free⟩ :: ⟨b.size - wanted - headerBytes, true⟩ :: r) ∧
      ∀ x, ¬InHeader a (b :: r) x → ¬(a + headerBytes ≤ x ∧ x < a + headerBytes + b.size) →
        split m a wanted x = m x := by
  have h48 := headerBytes_eq
  set rem := a + headerBytes + wanted with hrem
  set n := link e (a + headerBytes + b.size) with hn
  have hn64 : n < 2 ^ 64 := by
    rw [hn, link]
    split <;> omega
  -- the remainder's header is written first
  set m₅ := setFree (setNext (setPrevious (setSize (setMagic m rem blockMagic) rem
    (b.size - wanted - headerBytes)) rem a) rem n) rem 1 with hm₅
  have hout₅ : ∀ x, x < rem ∨ rem + headerBytes ≤ x → m₅ x = m x := fun x hx => by
    rw [hm₅, setFree_of_notMem hx, setNext_of_notMem hx, setPrevious_of_notMem hx,
      setSize_of_notMem hx, setMagic_of_notMem hx]
  have hrem₅ : HeaderAt m₅ rem a n ⟨b.size - wanted - headerBytes, true⟩ :=
    headerAt_of_writes (by omega) hn64 (by omega)
  have ha₅ : HeaderAt m₅ a p n b := hb.congr fun x _ hx => hout₅ x (.inl (by omega))
  have hr₅ : Seg m₅ e a (a + headerBytes + b.size) r := hr.congr fun x hx _ => hout₅ x (.inr (by omega))
  -- then the block after it is linked back, and the front part shortened
  obtain ⟨hr₆, hout₆⟩ := linkBack_spec hrem₅.next (by omega) (by omega) hr₅ he
  have hsplit : split m a wanted = setSize (setNext (linkBack m₅ rem) a rem) a wanted := by
    have hsize : size (setMagic m rem blockMagic) a = b.size := by
      rw [← hb.size]
      exact ByteMem.readLE_writeLE_of_disjoint m (by omega)
    have hnext : next (setPrevious (setSize (setMagic m rem blockMagic) rem
        (b.size - wanted - headerBytes)) rem a) a = n := by
      rw [← hb.next]
      simp (disch := omega) only [next, setPrevious, setSize, setMagic, ByteMem.readLE_writeLE_of_disjoint]
    simp only [split, ← hrem, hsize, hnext, ← hm₅]
  rw [hsplit]
  have ha₆ : HeaderAt (linkBack m₅ rem) a p n b := ha₅.congr fun x _ hx => hout₆ x (.inr (.inl (by omega)))
  have hrem₆ : HeaderAt (linkBack m₅ rem) rem a n ⟨b.size - wanted - headerBytes, true⟩ :=
    hrem₅.congr fun x _ hx => hout₆ x (.inr (.inl (by omega)))
  have hout₇ : ∀ x, x < a ∨ a + headerBytes ≤ x →
      setSize (setNext (linkBack m₅ rem) a rem) a wanted x = linkBack m₅ rem x := fun x hx => by
    rw [setSize_of_notMem hx, setNext_of_notMem hx]
  have hend : a + headerBytes + wanted + headerBytes + (b.size - wanted - headerBytes) =
      a + headerBytes + b.size := by omega
  refine ⟨⟨?_, ?_, ?_⟩, fun x hx hx' => ?_⟩
  · have hlink : link e rem = rem := link_of_ne (by omega)
    have hhead := (ha₆.writes.2.2.1 rem (by omega)).writes.1 wanted (by omega)
    simpa only [← hrem, hlink] using hhead
  · rw [hend]
    exact hrem₆.congr fun x hx _ => hout₇ x (.inr (by omega))
  · rw [hend]
    exact hr₆.congr fun x hx _ => hout₇ x (.inr (by omega))
  · simp only [InHeader, not_or] at hx
    rw [hout₇ x (by omega), hout₆ x, hout₅ x (by omega)]
    rcases r with _ | ⟨c, r⟩
    · exact .inl rfl
    · simp only [InHeader, not_or] at hx
      omega

/-- **Taking a free block** carves the bytes wanted out of it. -/
theorem take_spec {s : State} (wanted : ℕ) (hseg : Seg s.mem e p a (b :: r))
    (he : a + extent (b :: r) = e) (ha : 0 < a) (he64 : e < 2 ^ 64)
    (hw : wanted ≤ b.size) (hmax : b.size ≤ heapMaxBytes) :
    Seg (take s a wanted).mem e p a (carve headerBytes minPayload wanted b ++ r) ∧
      (∀ x, ¬InHeader a (b :: r) x → ¬(a + headerBytes ≤ x ∧ x < a + headerBytes + b.size) →
        (take s a wanted).mem x = s.mem x) ∧
      (take s a wanted).used = (s.used + usedBytes (carve headerBytes minPayload wanted b)) % 2 ^ 64 := by
  have h48 := headerBytes_eq
  have hmin : minPayload = 16 := rfl
  have hmaxval : heapMaxBytes = 2097152 := rfl
  obtain ⟨hb, hr⟩ := hseg
  rw [extent_cons] at he
  have hcond : size s.mem a ≥ (wanted + headerBytes + minPayload) % 2 ^ 64 ↔
      wanted + headerBytes + minPayload ≤ b.size := by
    rw [hb.size, Nat.mod_eq_of_lt (by omega)]
  by_cases hfit : wanted + headerBytes + minPayload ≤ b.size
  · obtain ⟨hseg, hout⟩ := split_spec hb hr (by omega) ha he64 hfit
    have hmem : (take s a wanted).mem = setFree (split s.mem a wanted) a 0 := by
      simp only [take, if_pos (hcond.mpr hfit)]
    obtain ⟨hhead, hrest⟩ := hseg
    have hhead' := hhead.writes.2.2.2 false
    rw [hmem, usedBytes_carve, if_pos hfit, carve, if_pos hfit]
    refine ⟨⟨hhead', hrest.congr fun x hx _ => setFree_of_notMem (.inr (by omega))⟩, fun x hx hx' => ?_, ?_⟩
    · have hxa := hx
      simp only [InHeader, not_or] at hxa
      rw [setFree_of_notMem (by omega), hout x hx hx']
    · have hsize := hhead'.size
      simp only [Bool.false_eq_true, if_false] at hsize
      simp only [take, if_pos (hcond.mpr hfit), hsize]
  · have hmem : (take s a wanted).mem = setFree s.mem a 0 := by
      simp only [take, if_neg (mt hcond.mp hfit)]
    have hhead' := hb.writes.2.2.2 false
    rw [hmem, usedBytes_carve, if_neg hfit, carve, if_neg hfit]
    refine ⟨⟨hhead', hr.congr fun x hx _ => setFree_of_notMem (.inr (by omega))⟩, fun x hx hx' => ?_, ?_⟩
    · simp only [InHeader, not_or] at hx
      exact setFree_of_notMem (by omega)
    · have hsize := hhead'.size
      simp only [Bool.false_eq_true, if_false] at hsize
      simp only [take, if_neg (mt hcond.mp hfit), hsize]

/-! ### Merging -/

/-- What both merges do: the block at `a` swallows the one at `c`. -/
def swallow (m : ByteMem) (a c : ℕ) : ByteMem :=
  let m := setSize m a ((size m a + (headerBytes + size m c)) % 2 ^ 64)
  linkBack (setNext m a (next m c)) a

theorem swallow_spec {c : Block} (h : Seg m e p a (b :: c :: r)) (he : a + extent (b :: c :: r) = e)
    (he64 : e < 2 ^ 64) :
    Seg (swallow m a (a + headerBytes + b.size)) e p a (⟨b.size + (headerBytes + c.size), b.free⟩ :: r) ∧
      ∀ x, ¬InHeader a (b :: c :: r) x → swallow m a (a + headerBytes + b.size) x = m x := by
  have h48 := headerBytes_eq
  obtain ⟨hb, hc, hr⟩ := h
  simp only [extent_cons] at he
  set c' := a + headerBytes + b.size with hc'
  have hsum : (size m a + (headerBytes + size m c')) % 2 ^ 64 = b.size + (headerBytes + c.size) := by
    rw [hb.size, hc.size, Nat.mod_eq_of_lt (by omega)]
  set m₁ := setSize m a (b.size + (headerBytes + c.size)) with hm₁
  set n := link e (c' + headerBytes + c.size) with hn
  have hn64 : n < 2 ^ 64 := by
    rw [hn, link]
    split <;> omega
  have hout₂ : ∀ x, x < a ∨ a + headerBytes ≤ x → setNext m₁ a n x = m x := fun x hx => by
    rw [setNext_of_notMem hx, hm₁, setSize_of_notMem hx]
  have hnextc : next m₁ c' = n := by
    rw [← hc.next]
    exact ByteMem.readLE_writeLE_of_disjoint m (by omega)
  have ha₂ := (hb.writes.1 (b.size + (headerBytes + c.size)) (by omega)).writes.2.2.1 n hn64
  have hr₂ : Seg (setNext m₁ a n) e c' (c' + headerBytes + c.size) r := hr.congr fun x hx _ => hout₂ x (.inr (by omega))
  obtain ⟨hr₃, hout₃⟩ := linkBack_spec ha₂.next (by omega) (by omega) hr₂ (by omega)
  have hmerge : swallow m a c' = linkBack (setNext m₁ a n) a := by
    simp only [swallow, hsum, ← hm₁, hnextc]
  have hend : a + headerBytes + (b.size + (headerBytes + c.size)) = c' + headerBytes + c.size := by
    omega
  rw [hmerge]
  refine ⟨⟨?_, ?_⟩, fun x hx => ?_⟩
  · simp only [hend, ← hn]
    exact ha₂.congr fun x _ hx => hout₃ x (.inr (.inl (by omega)))
  · simp only [hend]
    exact hr₃
  · simp only [InHeader, not_or] at hx
    rw [hout₃ x, hout₂ x (by omega)]
    rcases r with _ | ⟨d, r⟩
    · exact .inl rfl
    · simp only [InHeader, not_or] at hx
      omega

/-- Merging a free block with the one after it. -/
theorem mergeNext_spec (hseg : Seg m e p a (b :: r)) (hfree : b.free = true)
    (he : a + extent (b :: r) = e) (ha : 0 < a) (he64 : e < 2 ^ 64) :
    Seg (mergeNext m a) e p a ((mergeRight headerBytes b r).1 :: (mergeRight headerBytes b r).2) ∧
      ∀ x, ¬InHeader a (b :: r) x → mergeNext m a x = m x := by
  obtain ⟨hb, hr⟩ := hseg
  rcases r with _ | ⟨c, r⟩
  · have hend : a + headerBytes + b.size = e := by simpa [add_assoc] using he
    have hsame : mergeNext m a = m := by
      rw [mergeNext, if_neg]
      rintro ⟨hnext, -⟩
      exact hnext (by rw [hb.next, hend, link_self])
    rw [hsame]
    exact ⟨⟨hb, trivial⟩, fun x _ => rfl⟩
  have hc := hr.1
  have hnext : next m a = a + headerBytes + b.size := by
    rw [hb.next]
    exact link_front (by simpa [add_assoc] using he)
  by_cases hcfree : c.free = true
  · have hmerge : mergeNext m a = swallow m a (a + headerBytes + b.size) := by
      rw [mergeNext, hnext, if_pos ⟨by omega, hc.magic, hc.free_ne_zero.mpr hcfree⟩]
      rfl
    rw [hmerge, mergeRight_of_free hcfree, ← hfree]
    exact swallow_spec ⟨hb, hr⟩ he he64
  · have hsame : mergeNext m a = m := by
      rw [mergeNext, if_neg]
      rintro ⟨-, -, hcf⟩
      rw [hnext] at hcf
      exact hcfree (hc.free_ne_zero.mp hcf)
    rw [hsame, mergeRight_of_not_free hcfree]
    exact ⟨⟨hb, hr⟩, fun x _ => rfl⟩

/-- Merging a free block with the one before it. -/
theorem mergePrevious_spec (hseg : Seg m e 0 a (l ++ b :: r))
    (he : a + extent (l ++ b :: r) = e) (ha : 0 < a) (he64 : e < 2 ^ 64) :
    Seg (mergePrevious m (a + extent l)) e 0 a (mergeLeft headerBytes l b r) ∧
      ∀ x, ¬InHeader a (l ++ b :: r) x → mergePrevious m (a + extent l) x = m x := by
  rcases eq_nil_or_concat l with rfl | ⟨l, c, rfl⟩
  · obtain ⟨hb, hr⟩ := hseg
    have hsame : mergePrevious m (a + extent []) = m := by
      rw [mergePrevious, if_neg]
      rintro ⟨hprevious, -⟩
      exact hprevious hb.previous
    rw [hsame]
    exact ⟨⟨hb, hr⟩, fun x _ => rfl⟩
  rw [concat_eq_append, append_assoc, singleton_append] at *
  obtain ⟨hl, hcb⟩ := seg_append.mp hseg
  have hc := hcb.1
  have hb := hcb.2.1
  have hb' : a + extent (l ++ [c]) = a + extent l + headerBytes + c.size := by
    simp only [extent_append, extent_cons, extent_nil]
    omega
  rw [hb']
  by_cases hcfree : c.free = true
  · have hmerge : mergePrevious m (a + extent l + headerBytes + c.size) =
        swallow m (a + extent l) (a + extent l + headerBytes + c.size) := by
      rw [mergePrevious, hb.previous, if_pos ⟨by omega, hc.magic, hc.free_ne_zero.mpr hcfree⟩]
      rfl
    obtain ⟨hseg', hout⟩ := swallow_spec hcb (by rw [← he, extent_append, add_assoc]) he64
    rw [hmerge, mergeLeft_of_free hcfree, ← hcfree]
    refine ⟨seg_append.mpr ⟨hl.congr fun x _ hx => hout x fun h => absurd h.le (by omega), hseg'⟩, fun x hx => ?_⟩
    rw [inHeader_append, not_or] at hx
    exact hout x hx.2
  · have hsame : mergePrevious m (a + extent l + headerBytes + c.size) = m := by
      rw [mergePrevious, if_neg]
      rintro ⟨-, -, hcf⟩
      rw [hb.previous] at hcf
      exact hcfree (hc.free_ne_zero.mp hcf)
    rw [hsame, mergeLeft_of_not_free hcfree, append_assoc, singleton_append]
    exact ⟨hseg, fun x _ => rfl⟩

/-- The headers after a merge to the right are headers from before. -/
theorem inHeader_of_mergeRight
    (h : InHeader a ((mergeRight headerBytes b r).1 :: (mergeRight headerBytes b r).2) x) :
    InHeader a (b :: r) x := by
  rcases r with _ | ⟨c, r⟩
  · exact h
  · by_cases hc : c.free = true
    · rw [mergeRight_of_free hc] at h
      rcases h with h | h
      · exact .inl h
      · refine .inr (.inr ?_)
        rwa [show a + headerBytes + b.size + headerBytes + c.size =
          a + headerBytes + (b.size + (headerBytes + c.size)) by omega]
    · rwa [mergeRight_of_not_free hc] at h

theorem release_mem (s : State) (block : ℕ) : (release s block).mem =
    mergePrevious (mergeNext (setFree s.mem block 1) block) block := by
  simp only [Heap.release]

@[simp] theorem release_first (s : State) (block : ℕ) : (release s block).first = s.first := by
  simp only [Heap.release]

@[simp] theorem release_heapBytes (s : State) (block : ℕ) : (release s block).heapBytes = s.heapBytes := by
  simp only [Heap.release]

theorem release_allocations (s : State) (block : ℕ) : (release s block).allocations =
    if s.allocations ≠ 0 then s.allocations - 1 else s.allocations := by
  simp only [Heap.release]

theorem release_used (s : State) (block : ℕ) : (release s block).used =
    (s.used + 2 ^ 64 - size (setFree s.mem block 1) block) % 2 ^ 64 := by
  simp only [Heap.release]

/-- **Giving a block back** merges it with its free neighbours. -/
theorem release_spec {s : State} (hseg : Seg s.mem e 0 a (l ++ b :: r))
    (he : a + extent (l ++ b :: r) = e) (ha : 0 < a) (he64 : e < 2 ^ 64) :
    Seg (release s (a + extent l)).mem e 0 a (BlockList.release headerBytes l b r) ∧
      (∀ x, ¬InHeader a (l ++ b :: r) x → (release s (a + extent l)).mem x = s.mem x) ∧
      (release s (a + extent l)).used = (s.used + 2 ^ 64 - b.size) % 2 ^ 64 := by
  obtain ⟨hl, hb, hr⟩ := seg_append.mp hseg
  set b' := a + extent l with hb'
  set m₁ := setFree s.mem b' 1 with hm₁
  have hout₁ : ∀ x, x < b' ∨ b' + headerBytes ≤ x → m₁ x = s.mem x := fun x hx =>
    setFree_of_notMem hx
  have hb₁ : HeaderAt m₁ b' (lastAddr 0 a l) (link e (b' + headerBytes + b.size)) ⟨b.size, true⟩ := hb.writes.2.2.2 true
  have hr₁ : Seg m₁ e b' (b' + headerBytes + b.size) r := hr.congr fun x hx _ => hout₁ x (.inr (by omega))
  simp only [extent_append, extent_cons] at he
  -- merging with the block after it touches no byte of the blocks before it
  obtain ⟨hseg₂, hout₂⟩ := mergeNext_spec (b := ⟨b.size, true⟩) ⟨hb₁, hr₁⟩ rfl
    (by simp only [extent_cons]; omega) (by omega) he64
  set b₂ := (mergeRight headerBytes ⟨b.size, true⟩ r).1 with hb₂
  set r₂ := (mergeRight headerBytes ⟨b.size, true⟩ r).2 with hr₂
  have hl₂ : Seg (mergeNext m₁ b') e 0 a l := hl.congr fun x _ hx => by
    rw [hout₂ x (fun h => absurd h.le (by omega)), hout₁ x (.inl (by omega))]
  have hspan : headerBytes + b₂.size + extent r₂ = headerBytes + b.size + extent r :=
    span_mergeRight (h := headerBytes) (b := ⟨b.size, true⟩) (r := r)
  obtain ⟨hseg₃, hout₃⟩ := mergePrevious_spec (seg_append.mpr ⟨hl₂, hseg₂⟩)
    (by simp only [extent_append, extent_cons]; omega) ha he64
  rw [release_mem, release_used, BlockList.release]
  refine ⟨hseg₃, fun x hx => ?_, ?_⟩
  · have hx' := hx
    rw [inHeader_append] at hx'
    have hxb : ¬InHeader b' (b :: r) x := fun h => hx' (.inr h)
    have hx₃ : ¬InHeader a (l ++ b₂ :: r₂) x := by
      rw [inHeader_append]
      exact not_or.mpr ⟨fun h => hx' (.inl h), fun h => hxb (inHeader_of_mergeRight (b := ⟨b.size, true⟩) h)⟩
    have hx₁ : x < b' ∨ b' + headerBytes ≤ x := by
      simp only [InHeader, not_or] at hxb
      omega
    exact (hout₃ x hx₃).trans ((hout₂ x hxb).trans (hout₁ x hx₁))
  · rw [hb₁.size]

/-! ### Allocated payloads -/

/-- The list laid out from `a` on has an allocated block with its payload at
`q`, `n` bytes long. -/
def AllocAt : ℕ → List Block → ℕ → ℕ → Prop
  | _, [], _, _ => False
  | a, b :: bs, q, n =>
    (b.free = false ∧ q = a + headerBytes ∧ n = b.size) ∨ AllocAt (a + headerBytes + b.size) bs q n

variable {q n q' n' : ℕ}

theorem allocAt_append : AllocAt a (l ++ r) q n ↔ AllocAt a l q n ∨ AllocAt (a + extent l) r q n := by
  induction l generalizing a with
  | nil => simp [AllocAt]
  | cons b l ih =>
    rw [cons_append, AllocAt, AllocAt, ih, or_assoc, extent_cons]
    simp only [add_assoc]

section

variable (h : AllocAt a bs q n)
include h

/-- An allocated payload lies inside the list, after its header. -/
theorem AllocAt.bounds : a + headerBytes ≤ q ∧ q + n ≤ a + extent bs := by
  induction bs generalizing a with
  | nil => exact h.elim
  | cons b bs ih =>
    rw [extent_cons]
    rcases h with ⟨-, rfl, rfl⟩ | h
    · omega
    · have hbounds := ih h
      omega

/-- A payload address determines the payload. -/
theorem AllocAt.size_unique (h' : AllocAt a bs q n') : n = n' := by
  induction bs generalizing a with
  | nil => exact h.elim
  | cons b bs ih =>
    have h48 := headerBytes_eq
    rcases h with ⟨-, hq, rfl⟩ | h <;> rcases h' with ⟨-, hq', rfl⟩ | h'
    · rfl
    · have := h'.bounds
      omega
    · have := h.bounds
      omega
    · exact ih h h'

/-- Two allocated payloads are disjoint, with a header between them. -/
theorem AllocAt.disjoint (h' : AllocAt a bs q' n') (hlt : q < q') : q + n + headerBytes ≤ q' := by
  induction bs generalizing a with
  | nil => exact h.elim
  | cons b bs ih =>
    rcases h with ⟨-, rfl, rfl⟩ | h <;> rcases h' with ⟨-, rfl, rfl⟩ | h'
    · omega
    · have := h'.bounds
      omega
    · have := h.bounds
      omega
    · exact ih h h'

/-- A byte of an allocated payload belongs to no header. -/
theorem AllocAt.not_inHeader (hx : q ≤ x) (hx' : x < q + n) : ¬InHeader a bs x := by
  induction bs generalizing a with
  | nil => exact h.elim
  | cons b bs ih =>
    rintro (hin | hin)
    · rcases h with ⟨-, rfl, -⟩ | h
      · omega
      · have := h.bounds
        omega
    · rcases h with ⟨-, rfl, rfl⟩ | h
      · have := InHeader.le hin
        omega
      · exact ih h hin

end

section

variable (hb : b.free = true)
include hb

theorem allocAt_cons_of_free : AllocAt a (b :: r) q n ↔ AllocAt (a + headerBytes + b.size) r q n := by
  simp [AllocAt, hb]

/-- Carving adds one payload to those of the list. -/
theorem allocAt_carve {wanted : ℕ} :
    AllocAt a (l ++ (carve headerBytes minPayload wanted b ++ r)) q n ↔
      AllocAt a (l ++ b :: r) q n ∨ q = a + extent l + headerBytes ∧
        n = usedBytes (carve headerBytes minPayload wanted b) := by
  have hcarve : AllocAt (a + extent l) (carve headerBytes minPayload wanted b ++ r) q n ↔
      AllocAt (a + extent l + headerBytes + b.size) r q n ∨ q = a + extent l + headerBytes ∧
        n = usedBytes (carve headerBytes minPayload wanted b) := by
    rw [usedBytes_carve, carve]
    split
    · have hend : a + extent l + headerBytes + wanted + headerBytes +
          (b.size - wanted - headerBytes) = a + extent l + headerBytes + b.size := by omega
      simp only [cons_append, nil_append, AllocAt, true_and, Bool.true_eq_false, false_and, false_or, hend]
      exact or_comm
    · simp only [cons_append, nil_append, AllocAt, true_and]
      exact or_comm
  rw [allocAt_append, hcarve, allocAt_append (r := b :: r), allocAt_cons_of_free hb, or_assoc]

theorem allocAt_mergeRight :
    AllocAt a ((mergeRight headerBytes b r).1 :: (mergeRight headerBytes b r).2) q n ↔
      AllocAt (a + headerBytes + b.size) r q n := by
  rw [allocAt_cons_of_free (mergeRight_free hb)]
  rcases r with _ | ⟨c, r⟩
  · rfl
  · by_cases hc : c.free = true
    · rw [mergeRight_of_free hc, allocAt_cons_of_free hc]
      simp only [add_assoc]
    · rw [mergeRight_of_not_free hc]

theorem allocAt_mergeLeft : AllocAt a (mergeLeft headerBytes l b r) q n ↔ AllocAt a (l ++ b :: r) q n := by
  rcases eq_nil_or_concat l with rfl | ⟨l, c, rfl⟩
  · rfl
  · rw [concat_eq_append]
    by_cases hc : c.free = true
    · rw [mergeLeft_of_free hc, append_assoc, allocAt_append, allocAt_append,
        allocAt_cons_of_free rfl, cons_append, nil_append, allocAt_cons_of_free hc,
        allocAt_cons_of_free hb]
      simp only [add_assoc]
    · rw [mergeLeft_of_not_free hc]

end

/-- Giving a block back takes its payload, and no other, from those of the
list. -/
theorem allocAt_release : AllocAt a (BlockList.release headerBytes l b r) q n ↔
    AllocAt a (l ++ b :: r) q n ∧ q ≠ a + extent l + headerBytes := by
  have h48 := headerBytes_eq
  rw [BlockList.release, allocAt_mergeLeft (mergeRight_free rfl), allocAt_append, allocAt_append,
    allocAt_mergeRight rfl]
  constructor
  · rintro (h | h)
    · have := h.bounds
      exact ⟨.inl h, by omega⟩
    · have := h.bounds
      exact ⟨.inr (.inr h), by omega⟩
  · rintro ⟨h | ⟨-, hq, -⟩ | h, hne⟩
    · exact .inl h
    · exact absurd hq hne
    · exact .inr h

end OS64.Heap
