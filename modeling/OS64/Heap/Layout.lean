import OS64.Heap.Model
import OS64.Lib.Blocks

/-!
# The block list in memory

A memory *represents* a list of blocks from an address on when the headers found
there, one after another, carry the sizes and the marks of the list and the
links of a doubly linked list laid end to end. This is
`OS64.Heap.Seg`; the successor of a block is not a free choice but
the address where its payload ends, or null where that is the end `e` of the
heap (`OS64.Heap.link`).

The three loops of the allocator, run from the front of a represented
list, are then searches of the list (`OS64.Heap.findFit_of_seg`,
`OS64.Heap.findBlock_of_seg`, `OS64.Heap.freeBytesFrom_of_seg`), and they
end within the fuel because there is one round for each block.
-/

namespace OS64.Heap

open List BlockList

/-! ### Headers -/

/-- The header at address `a`: an intact magic number, the links, and the size
and mark of the block `b`. -/
structure HeaderAt (m : ByteMem) (a prev nxt : ℕ) (b : Block) : Prop where
  magic : Heap.magic m a = blockMagic
  size : Heap.size m a = b.size
  previous : Heap.previous m a = prev
  next : Heap.next m a = nxt
  free : Heap.free m a = if b.free then 1 else 0

variable {m m' : ByteMem} {e p a v prev nxt : ℕ} {b : Block} {bs l r : List Block}

section

variable (hm : HeaderAt m a prev nxt b)
include hm

/-- A header survives any change outside its fields. -/
theorem HeaderAt.congr (h : ∀ x, a ≤ x → x < a + headerBytes → m' x = m x) : HeaderAt m' a prev nxt b := by
  have hword : ∀ k o, o + k ≤ 48 → m'.readLE k (a + o) = m.readLE k (a + o) := fun k o hko =>
    ByteMem.readLE_congr fun x hx hx' => h x (by omega) (by unfold headerBytes; omega)
  constructor
  · rw [← hm.magic]
    exact hword 8 0 (by omega)
  · rw [← hm.size]
    exact hword 8 8 (by omega)
  · rw [← hm.previous]
    exact hword 8 16 (by omega)
  · rw [← hm.next]
    exact hword 8 24 (by omega)
  · rw [← hm.free]
    exact hword 4 32 (by omega)

theorem HeaderAt.free_ne_zero : Heap.free m a ≠ 0 ↔ b.free = true := by
  rw [hm.free]
  split <;> simp_all

/-- **Writing a field** of a header leaves the others. -/
theorem HeaderAt.writes : (∀ v < 2 ^ 64, HeaderAt (Heap.setSize m a v) a prev nxt ⟨v, b.free⟩) ∧
      (∀ v < 2 ^ 64, HeaderAt (Heap.setPrevious m a v) a v nxt b) ∧
      (∀ v < 2 ^ 64, HeaderAt (Heap.setNext m a v) a prev v b) ∧
      ∀ f : Bool, HeaderAt (Heap.setFree m a (if f then 1 else 0)) a prev nxt ⟨b.size, f⟩ := by
  obtain ⟨hmagic, hsize, hprevious, hnext, hfree⟩ := hm
  have hbit : ∀ f : Bool, (if f then 1 else 0) < 256 ^ 4 := by decide
  simp only [Heap.magic, Heap.size, Heap.previous, Heap.next, Heap.free]
    at hmagic hsize hprevious hnext hfree
  refine ⟨fun v hv => ?_, fun v hv => ?_, fun v hv => ?_, fun f => ?_⟩
  all_goals constructor
  all_goals simp (disch := first | omega | apply hbit) only [Heap.magic, Heap.size, Heap.previous, Heap.next,
    Heap.free, Heap.setSize, Heap.setPrevious, Heap.setNext, Heap.setFree,
    ByteMem.readLE_writeLE_of_disjoint, ByteMem.readLE_writeLE_of_lt, *]

end

/-! ### Segments -/

/-- The pointer to a block at `x`: null where `x` is the end of the heap. -/
def link (e x : ℕ) : ℕ := if x = e then 0 else x

/-- The memory holds, from address `a` on, the blocks of a list end to end; `p`
is the back link of the first one. -/
def Seg (m : ByteMem) (e : ℕ) : ℕ → ℕ → List Block → Prop
  | _, _, [] => True
  | p, a, b :: bs =>
    HeaderAt m a p (link e (a + headerBytes + b.size)) b ∧ Seg m e a (a + headerBytes + b.size) bs

/-- The address of the last block of a list laid out from `a` on, `p` for the
empty list. -/
def lastAddr : ℕ → ℕ → List Block → ℕ
  | p, _, [] => p
  | _, a, b :: bs => lastAddr a (a + headerBytes + b.size) bs

/-- The bytes a list of blocks covers, with the headers of this allocator. -/
def extent (bs : List Block) : ℕ := span headerBytes bs

@[simp] theorem extent_nil : extent [] = 0 := rfl

@[simp] theorem extent_cons (b : Block) (bs : List Block) : extent (b :: bs) = headerBytes + b.size + extent bs := rfl

@[simp] theorem extent_append (l r : List Block) : extent (l ++ r) = extent l + extent r := span_append l r

/-- The value of `sizeof(block_t)`, for arithmetic. -/
theorem headerBytes_eq : headerBytes = 48 := rfl

theorem seg_append : Seg m e p a (l ++ r) ↔ Seg m e p a l ∧ Seg m e (lastAddr p a l) (a + extent l) r := by
  induction l generalizing p a with
  | nil => simp [Seg, lastAddr]
  | cons b l ih =>
    rw [cons_append, Seg, Seg, ih, and_assoc, lastAddr, extent_cons]
    simp only [add_assoc]

/-- A segment survives any change outside the bytes it covers. -/
theorem Seg.congr (h : Seg m e p a bs) (hm : ∀ x, a ≤ x → x < a + extent bs → m' x = m x) : Seg m' e p a bs := by
  induction bs generalizing p a with
  | nil => trivial
  | cons b bs ih =>
    obtain ⟨hb, hbs⟩ := h
    rw [extent_cons] at hm
    exact ⟨hb.congr fun x hx hx' => hm x hx (by omega), ih hbs fun x hx hx' => hm x (by omega) (by omega)⟩

theorem link_of_ne {x : ℕ} (h : x ≠ e) : link e x = x := if_neg h

theorem link_self : link e e = 0 := if_pos rfl

/-- The link to a block that is there. -/
theorem link_front (he : a + extent (b :: bs) = e) : link e a = a := by
  have := headerBytes_eq
  rw [extent_cons] at he
  exact link_of_ne (by omega)

/-- `block->next->previous = block` gives the segment after a block a new back
link, and changes no other byte than those of that link. -/
theorem linkBack_spec {block : ℕ} (hnext : next m block = link e a) (ha : 0 < a)
    (hblock : block < 2 ^ 64) (h : Seg m e p a bs) (he : a + extent bs = e) :
    Seg (linkBack m block) e block a bs ∧ ∀ x, (bs = [] ∨ x < a + 16 ∨ a + 24 ≤ x) → linkBack m block x = m x := by
  cases bs with
  | nil =>
    have hae : a = e := by simpa using he
    have hsame : linkBack m block = m := by rw [linkBack, hnext, hae, link_self, if_neg (by simp)]
    exact ⟨trivial, fun x _ => by rw [hsame]⟩
  | cons b bs =>
    obtain ⟨hb, hbs⟩ := h
    have hlink : linkBack m block = setPrevious m a block := by
      rw [linkBack, hnext, link_front he, if_pos (by omega)]
    have hout : ∀ x, x < a + 16 ∨ a + 24 ≤ x → setPrevious m a block x = m x := fun x hx =>
      ByteMem.writeLE_of_notMem m (by omega)
    rw [hlink]
    refine ⟨⟨hb.writes.2.1 block hblock, hbs.congr fun x hx _ => hout x (.inr ?_)⟩, fun x hx => hout x ?_⟩
    · unfold headerBytes at hx
      omega
    · simpa using hx

/-! ### The loops -/

/-- **The search of `kmalloc`** finds the first block of the list that is free
and large enough, or runs to the end of the list when there is none. -/
theorem findFit_of_seg (wanted : ℕ) {fuel : ℕ} (h : Seg m e p a bs) (ha : 0 < a)
    (he : a + extent bs = e) (hfuel : bs.length < fuel) :
    (∃ l b r, bs = l ++ b :: r ∧ (b.free = true ∧ wanted ≤ b.size) ∧
      findFit m wanted fuel (link e a) = .hit (a + extent l)) ∨
    ((∀ c ∈ bs, ¬(c.free = true ∧ wanted ≤ c.size)) ∧ findFit m wanted fuel (link e a) = .miss) := by
  induction bs generalizing p a fuel with
  | nil =>
    have hae : a = e := by simpa using he
    obtain ⟨fuel, rfl⟩ := Nat.exists_eq_add_of_lt hfuel
    simp [hae, link_self, findFit]
  | cons b bs ih =>
    obtain ⟨hb, hbs⟩ := h
    rw [length_cons] at hfuel
    obtain ⟨fuel, rfl⟩ := Nat.exists_eq_add_of_lt hfuel
    rw [link_front he, findFit, if_neg (by omega), if_neg (by simpa using hb.magic), hb.size, hb.next]
    by_cases hfit : b.free = true ∧ wanted ≤ b.size
    · left
      refine ⟨[], b, bs, rfl, hfit, ?_⟩
      rw [if_neg, extent_nil, add_zero]
      rintro (hfree | hlt)
      · exact hb.free_ne_zero.mpr hfit.1 hfree
      · omega
    · have hskip : free m a = 0 ∨ b.size < wanted := by
        by_cases hlt : b.size < wanted
        · exact .inr hlt
        · exact .inl (of_not_not fun hz => hfit ⟨hb.free_ne_zero.mp hz, by omega⟩)
      rw [if_pos hskip]
      rw [extent_cons] at he
      rcases ih hbs (by omega) (by omega) (show bs.length < bs.length + 1 + fuel by omega) with
        ⟨l, c, r, rfl, hc, hhit⟩ | ⟨hnone, hmiss⟩
      · left
        refine ⟨b :: l, c, r, rfl, hc, ?_⟩
        rw [hhit, extent_cons]
        congr 1
        omega
      · right
        refine ⟨fun c hc => ?_, hmiss⟩
        rcases mem_cons.mp hc with rfl | hc
        · exact hfit
        · exact hnone c hc

/-- **The search of `kfree`** finds the block whose payload starts at the
pointer, or runs to the end of the list when the pointer is no such start. -/
theorem findBlock_of_seg (pointer : ℕ) {fuel : ℕ} (h : Seg m e p a bs) (ha : 0 < a)
    (he : a + extent bs = e) (hfuel : bs.length < fuel) :
    (∃ l b r, bs = l ++ b :: r ∧ a + extent l + headerBytes = pointer ∧
      findBlock m pointer fuel (link e a) = .hit (a + extent l)) ∨
    ((∀ l b r, bs = l ++ b :: r → a + extent l + headerBytes ≠ pointer) ∧
      findBlock m pointer fuel (link e a) = .miss) := by
  induction bs generalizing p a fuel with
  | nil =>
    have hae : a = e := by simpa using he
    obtain ⟨fuel, rfl⟩ := Nat.exists_eq_add_of_lt hfuel
    simp [hae, link_self, findBlock]
  | cons b bs ih =>
    obtain ⟨hb, hbs⟩ := h
    rw [length_cons] at hfuel
    obtain ⟨fuel, rfl⟩ := Nat.exists_eq_add_of_lt hfuel
    rw [link_front he, findBlock, if_neg (by omega)]
    by_cases hhere : a + headerBytes = pointer
    · left
      exact ⟨[], b, bs, rfl, by simpa using hhere, by rw [if_pos hhere, extent_nil, add_zero]⟩
    · rw [if_neg hhere, if_neg (by simpa using hb.magic), hb.next]
      rw [extent_cons] at he
      rcases ih hbs (by omega) (by omega) (show bs.length < bs.length + 1 + fuel by omega) with
        ⟨l, c, r, rfl, hc, hhit⟩ | ⟨hnone, hmiss⟩
      · left
        refine ⟨b :: l, c, r, rfl, ?_, ?_⟩
        · rw [extent_cons]
          omega
        · rw [hhit, extent_cons]
          congr 1
          omega
      · right
        refine ⟨fun l c r hsplit => ?_, hmiss⟩
        rcases l with _ | ⟨d, l⟩
        · simpa using hhere
        · obtain ⟨rfl, rfl⟩ : b = d ∧ bs = l ++ c :: r := by simpa using hsplit
          have hlater := hnone l c r rfl
          rw [extent_cons]
          omega

/-- The loop of `memory_free_bytes` adds up the sizes of the free blocks. -/
theorem freeBytesFrom_of_seg {fuel acc : ℕ} (h : Seg m e p a bs) (ha : 0 < a)
    (he : a + extent bs = e) (hfuel : bs.length < fuel) (hacc : acc + extent bs < 2 ^ 64) :
    freeBytesFrom m fuel (link e a) acc = some (acc + freeBytes bs) := by
  induction bs generalizing p a fuel acc with
  | nil =>
    have hae : a = e := by simpa using he
    obtain ⟨fuel, rfl⟩ := Nat.exists_eq_add_of_lt hfuel
    simp [hae, link_self, freeBytesFrom, freeBytes]
  | cons b bs ih =>
    obtain ⟨hb, hbs⟩ := h
    rw [length_cons] at hfuel
    obtain ⟨fuel, rfl⟩ := Nat.exists_eq_add_of_lt hfuel
    rw [link_front he, freeBytesFrom, if_neg (by omega), if_neg (by simpa using hb.magic), hb.size, hb.next, freeBytes]
    rw [extent_cons] at he hacc
    by_cases hfree : b.free = true
    · rw [if_pos (hb.free_ne_zero.mpr hfree), if_pos hfree, Nat.mod_eq_of_lt (by omega),
        ih hbs (by omega) (by omega) (by omega) (by omega)]
      congr 1
      omega
    · rw [if_neg (fun hz => hfree (hb.free_ne_zero.mp hz)), if_neg hfree,
        ih hbs (by omega) (by omega) (by omega) (by omega), zero_add]

end OS64.Heap
