import OS64.Heap.Calls

/-!
# Runs of the allocator

A run starts from `memory_init` and goes on by allocator calls with arbitrary
arguments and by clients storing bytes into payloads they own
(`OS64.Heap.Run`). Beside the state, a run keeps the table of live requests:
the pointers returned and not given back since, each with the number of bytes
asked for.

Two results hold of every state of every run. The block list that starts at
`first`, as the memory has it (`OS64.Heap.State.blocks`), is well formed: it
tiles the heap, its links are mutually inverse, its counters are right
(`OS64.Heap.Run.heap_wellFormed`). And the live requests have payloads of
their own that no call for another pointer touches
(`OS64.Heap.Run.live_payloads`).
-/

namespace OS64.Heap

open List BlockList

/-! ### The block list as the memory has it -/

variable {c : Call} {n q : ℕ}

/-- A block of the list: where its header is, and what the header says. -/
structure Entry where
  addr : ℕ
  size : ℕ
  previous : ℕ
  next : ℕ
  free : Bool
  deriving DecidableEq

/-- The blocks met by following `next` from `block` to the null pointer. -/
def blocksFrom (m : ByteMem) : ℕ → ℕ → List Entry
  | 0, _ => []
  | fuel + 1, block =>
    if block = 0 then []
    else ⟨block, size m block, previous m block, next m block, free m block ≠ 0⟩ ::
      blocksFrom m fuel (next m block)

/-- The block list of a state. -/
def State.blocks (s : State) : List Entry := blocksFrom s.mem s.fuel s.first

/-- A client may store at `x`: the address lies in the payload of a block that
is not free. -/
def State.Owned (s : State) (x : ℕ) : Prop :=
  ∃ b ∈ s.blocks, b.free = false ∧ b.addr + headerBytes ≤ x ∧ x < b.addr + headerBytes + b.size

/-! ### Runs -/

/-- The table of live requests after a call: the pointer it has taken away is
struck, the pointer it has returned is entered. -/
def Call.live (c : Call) (result : ℕ) (L : List (ℕ × ℕ)) : List (ℕ × ℕ) :=
  (if result = 0 then [] else [(result, c.requested)]) ++
    L.filter fun request => some request.1 ≠ c.dropped result

/-- The states of the runs from `memory_init` on, each with its live
requests. -/
inductive Run (P : Placement) (m : ByteMem) (available : ℕ) : State → List (ℕ × ℕ) → Prop
  | init : Run P m available (memoryInit P m available) []
  | call {s s' : State} {L : List (ℕ × ℕ)} {q : ℕ} (c : Call) (h : Run P m available s L)
      (hc : c.run P s = some (s', q)) : Run P m available s' (c.live q L)
  | store {s : State} {L : List (ℕ × ℕ)} (x : ℕ) (v : UInt8) (h : Run P m available s L)
      (hx : s.Owned x) : Run P m available { s with mem := Function.update s.mem x v } L

/-! ### The represented list, block by block -/

/-- The blocks of a list laid out from `a` on, as they stand in memory. -/
def place (e : ℕ) : ℕ → ℕ → List Block → List Entry
  | _, _, [] => []
  | p, a, b :: bs => ⟨a, b.size, p, link e (a + headerBytes + b.size), b.free⟩ ::
      place e a (a + headerBytes + b.size) bs

variable {P : Placement} {s s' : State} {bs : List Block} {m : ByteMem} {e p a : ℕ}

theorem blocksFrom_of_seg {fuel : ℕ} (h : Seg m e p a bs) (ha : 0 < a) (he : a + extent bs = e)
    (hfuel : bs.length < fuel) : blocksFrom m fuel (link e a) = place e p a bs := by
  induction bs generalizing p a fuel with
  | nil =>
    have hae : a = e := by simpa using he
    obtain ⟨fuel, rfl⟩ := Nat.exists_eq_add_of_lt hfuel
    simp [hae, link_self, blocksFrom, place]
  | cons b bs ih =>
    obtain ⟨hb, hbs⟩ := h
    rw [extent_cons] at he
    rw [length_cons] at hfuel
    obtain ⟨fuel, rfl⟩ := Nat.exists_eq_add_of_lt hfuel
    have hne : a ≠ e := by
      have := headerBytes_eq
      omega
    have hfree : decide (free m a ≠ 0) = b.free := by
      rw [hb.free]
      cases b.free <;> rfl
    rw [link_of_ne hne, blocksFrom, if_neg (by omega), place, hfree, hb.size, hb.previous, hb.next,
      ih hbs (by omega) (by omega) (by omega)]

theorem Rep.blocks_eq (h : Rep P s bs) : s.blocks = place (P.heap + s.heapBytes) 0 P.heap bs := by
  rw [State.blocks, h.first_eq_link]
  exact blocksFrom_of_seg h.seg P.heap_pos (by rw [h.extent_eq]) h.length_lt_fuel

theorem allocAt_iff_mem_place : AllocAt a bs q n ↔
    ∃ c ∈ place e p a bs, c.free = false ∧ c.addr + headerBytes = q ∧ c.size = n := by
  induction bs generalizing p a with
  | nil => simp [AllocAt, place]
  | cons b bs ih =>
    simp only [AllocAt, place, mem_cons, exists_eq_or_imp, ih (p := a)]
    refine or_congr_left ?_
    constructor
    · rintro ⟨hb, rfl, rfl⟩
      exact ⟨hb, rfl, rfl⟩
    · rintro ⟨hb, rfl, rfl⟩
      exact ⟨hb, rfl, rfl⟩

/-- The blocks of a list satisfy a property of size and mark when its entries
do. -/
theorem forall_mem_place {Q : ℕ → Bool → Prop} :
    (∀ c ∈ place e p a bs, Q c.size c.free) ↔ ∀ b ∈ bs, Q b.size b.free := by
  induction bs generalizing p a with
  | nil => simp [place]
  | cons b bs ih => simp [place, ih]

theorem inHeader_of_mem_place {c : Entry} (hc : c ∈ place e p a bs) {x : ℕ} (hx : c.addr ≤ x)
    (hx' : x < c.addr + headerBytes) : InHeader a bs x := by
  induction bs generalizing p a with
  | nil => simp [place] at hc
  | cons b bs ih =>
    simp only [place, mem_cons] at hc
    rcases hc with rfl | hc
    · exact .inl ⟨hx, hx'⟩
    · exact .inr (ih hc)

/-- A relation between neighbours holds along the list when it holds of every
two blocks laid out next to each other. -/
theorem isChain_place {R : Entry → Entry → Prop}
    (h : ∀ (p a : ℕ) (b c : Block), a + headerBytes + b.size ≠ e →
      (∃ l r, bs = l ++ b :: c :: r) →
      R ⟨a, b.size, p, a + headerBytes + b.size, b.free⟩
        ⟨a + headerBytes + b.size, c.size, a, link e (a + headerBytes + b.size + headerBytes + c.size), c.free⟩)
    (he : a + extent bs = e) : (place e p a bs).IsChain R := by
  have h48 := headerBytes_eq
  induction bs generalizing p a with
  | nil => exact isChain_nil
  | cons b bs ih =>
    rcases bs with _ | ⟨c, bs⟩
    · exact isChain_singleton _
    · simp only [extent_cons] at he
      have hne : a + headerBytes + b.size ≠ e := by omega
      have htail := ih (p := a) (a := a + headerBytes + b.size)
        (fun p' a' b' c' hne' => fun ⟨l, r, hsplit⟩ => h p' a' b' c' hne' ⟨b :: l, r, by
          rw [hsplit, cons_append]⟩)
        (by simp only [extent_cons]; omega)
      simp only [place, link_of_ne hne] at htail ⊢
      exact isChain_cons_cons.mpr ⟨h p a b c hne ⟨[], bs, rfl⟩, htail⟩

theorem place_getLast? (he : a + extent bs = e) (hbs : bs ≠ []) :
    ∃ c, (place e p a bs).getLast? = some c ∧ c.addr + headerBytes + c.size = e ∧ c.next = 0 := by
  induction bs generalizing p a with
  | nil => exact absurd rfl hbs
  | cons b bs ih =>
    rcases bs with _ | ⟨c, bs⟩
    · simp only [extent_cons, extent_nil] at he
      refine ⟨⟨a, b.size, p, link e (a + headerBytes + b.size), b.free⟩, rfl, ?_, ?_⟩
      · change a + headerBytes + b.size = e
        omega
      · rw [show a + headerBytes + b.size = e by omega, link_self]
    · rw [extent_cons] at he
      obtain ⟨d, hlast, hd⟩ := ih (p := a) (a := a + headerBytes + b.size) (by omega) (by simp)
      refine ⟨d, ?_, hd⟩
      rwa [place] at hlast

theorem sum_size_place : (((place e p a bs).filter fun c => !c.free).map Entry.size).sum = usedBytes bs := by
  induction bs generalizing p a with
  | nil => rfl
  | cons b bs ih =>
    rw [place, usedBytes]
    cases b.free <;> simp [ih]

theorem length_filter_place : ((place e p a bs).filter fun c => !c.free).length = usedCount bs := by
  induction bs generalizing p a with
  | nil => rfl
  | cons b bs ih =>
    rw [place, usedCount]
    cases b.free <;> simp [ih, add_comm]

theorem length_place : (place e p a bs).length = bs.length := by
  induction bs generalizing p a with
  | nil => rfl
  | cons b bs ih => rw [place, length_cons, length_cons, ih]

/-! ### Well-formedness -/

/-- The block list that starts at `first` is in order. -/
structure WellFormed (P : Placement) (s : State) : Prop where
  /-- The list starts at the front of the heap. -/
  head : ∃ b, s.blocks.head? = some b ∧ b.addr = s.first ∧ b.addr = P.heap ∧ b.previous = 0
  /-- Each payload ends where the next header starts. -/
  tiles : s.blocks.IsChain fun b c => b.addr + 48 + b.size = c.addr
  /-- The last payload ends with the heap, and its block has no successor. -/
  last : ∃ b, s.blocks.getLast? = some b ∧ b.addr + 48 + b.size = P.heap + s.heapBytes ∧ b.next = 0
  /-- Following a link and its reverse leads back. -/
  links : s.blocks.IsChain fun b c => b.next = c.addr ∧ c.previous = b.addr
  aligned : ∀ b ∈ s.blocks, 16 ∣ b.size
  /-- No two neighbours are both free. -/
  separated : s.blocks.IsChain fun b c => ¬(b.free = true ∧ c.free = true)
  used : s.used = ((s.blocks.filter fun b => !b.free).map Entry.size).sum
  allocations : s.allocations = (s.blocks.filter fun b => !b.free).length
  /-- The statistics add up. -/
  total : ∃ freeBytes, memoryFreeBytes s = some freeBytes ∧
    memoryUsedBytes s + freeBytes + 48 * (s.blocks.length - 1) = memoryHeapBytes s

theorem Rep.ne_nil (h : Rep P s bs) : bs ≠ [] := by
  rintro rfl
  have hext := h.extent_eq
  have := h.heapBytes_gt
  rw [extent_nil] at hext
  omega

/-- **A represented heap is well formed.** -/
theorem Rep.wellFormed (h : Rep P s bs) : WellFormed P s := by
  have h48 := headerBytes_eq
  have hblocks := h.blocks_eq
  have he : P.heap + extent bs = P.heap + s.heapBytes := by rw [h.extent_eq]
  constructor
  case head =>
    obtain ⟨b, bs, rfl⟩ := exists_cons_of_ne_nil h.ne_nil
    exact ⟨_, by rw [hblocks, place, List.head?_cons], h.first.symm, rfl, rfl⟩
  case tiles =>
    rw [hblocks]
    exact isChain_place (fun _ _ _ _ _ _ => rfl) he
  case last =>
    rw [hblocks]
    exact place_getLast? he h.ne_nil
  case links =>
    rw [hblocks]
    exact isChain_place (fun _ _ _ _ _ _ => ⟨rfl, rfl⟩) he
  case aligned =>
    rw [hblocks]
    exact (forall_mem_place (Q := fun size _ => 16 ∣ size)).mpr fun b hb => (h.aligned b hb).1
  case separated =>
    rw [hblocks]
    refine isChain_place (fun _ _ b c _ => ?_) he
    rintro ⟨l, r, rfl⟩
    have hsep := (separated_append.mp h.separated).2.1
    exact (separated_cons.mp hsep).1 c (by simp)
  case used => rw [hblocks, sum_size_place, h.used]
  case allocations => rw [hblocks, length_filter_place, h.allocations]
  case total =>
    have hmax : heapMaxBytes = 2097152 := rfl
    have hle := h.heapBytes_le
    have hgt := h.heapBytes_gt
    have hspan : BlockList.span headerBytes bs = usedBytes bs + freeBytes bs + headerBytes * bs.length := span_eq bs
    have hspan' : BlockList.span headerBytes bs = s.heapBytes := h.extent_eq
    obtain ⟨b, bs', rfl⟩ := exists_cons_of_ne_nil h.ne_nil
    refine ⟨freeBytes (b :: bs'), ?_, ?_⟩
    · rw [memoryFreeBytes, h.first_eq_link, freeBytesFrom_of_seg h.seg P.heap_pos he h.length_lt_fuel
        (by omega), Nat.zero_add]
    · rw [memoryUsedBytes, memoryHeapBytes, if_pos (by omega), hblocks, length_place, h.used,
        length_cons, Nat.add_sub_cancel]
      have hmul : headerBytes * (b :: bs').length = 48 * bs'.length + 48 := by
        rw [length_cons, headerBytes_eq, Nat.mul_succ]
      omega

/-! ### Live requests -/

/-- The table of live requests matches the allocated payloads. -/
structure Live (P : Placement) (bs : List Block) (L : List (ℕ × ℕ)) : Prop where
  mem_iff : ∀ q, (∃ n, (q, n) ∈ L) ↔ ∃ n, AllocAt P.heap bs q n
  le : ∀ q n k, (q, n) ∈ L → AllocAt P.heap bs q k → n ≤ k
  nodup : (L.map Prod.fst).Nodup

variable {L : List (ℕ × ℕ)}

theorem Call.mem_live {result : ℕ} : (q, n) ∈ c.live result L ↔
      (result ≠ 0 ∧ q = result ∧ n = c.requested) ∨ ((q, n) ∈ L ∧ c.dropped result ≠ some q) := by
  rw [Call.live, mem_append, mem_filter]
  refine or_congr ?_ (and_congr_right fun _ => ?_)
  · by_cases h : result = 0 <;> simp [h]
  · rw [decide_eq_true_iff]
    exact ne_comm

/-- The table stays right across a call with an effect. -/
theorem Live.call {bs' : List Block} {size : ℕ} (h : Live P bs L) (hsize : q ≠ 0 → c.requested ≤ size)
    (heff : Effect P s bs (c.dropped q) (Call.added q size) s' bs') : Live P bs' (c.live q L) := by
  have hadd : ∀ p k, Call.added q size = some (p, k) ↔ q ≠ 0 ∧ p = q ∧ k = size := by
    intro p k
    by_cases hq : q = 0
    · simp [Call.added, hq]
    · simp [Call.added, hq, eq_comm]
  constructor
  · intro p
    simp only [Call.mem_live, heff.allocAt, hadd]
    constructor
    · rintro ⟨n, ⟨hq, rfl, -⟩ | ⟨hp, hdrop⟩⟩
      · exact ⟨size, .inr ⟨hq, rfl, rfl⟩⟩
      · obtain ⟨k, hk⟩ := (h.mem_iff p).mp ⟨n, hp⟩
        exact ⟨k, .inl ⟨hk, hdrop⟩⟩
    · rintro ⟨k, ⟨hk, hdrop⟩ | ⟨hq, rfl, -⟩⟩
      · obtain ⟨n, hn⟩ := (h.mem_iff p).mpr ⟨k, hk⟩
        exact ⟨n, .inr ⟨hn, hdrop⟩⟩
      · exact ⟨c.requested, .inl ⟨hq, rfl, rfl⟩⟩
  · intro p n k hp hk
    rw [Call.mem_live] at hp
    rw [heff.allocAt, hadd] at hk
    rcases hp with ⟨hq, rfl, rfl⟩ | ⟨hp, hdrop⟩ <;> rcases hk with ⟨hk, hdrop'⟩ | ⟨hq', hpq, rfl⟩
    · exact absurd hk (heff.fresh p size k ((hadd p size).mpr ⟨hq, rfl, rfl⟩) hdrop')
    · exact hsize hq
    · exact h.le p n k hp hk
    · obtain ⟨k', hk'⟩ := (h.mem_iff p).mp ⟨n, hp⟩
      exact absurd hk' (heff.fresh p k k' ((hadd p k).mpr ⟨hq', hpq, rfl⟩) hdrop)
  · rw [Call.live]
    by_cases hq : q = 0
    · rw [if_pos hq, nil_append]
      exact h.nodup.sublist (filter_sublist.map _)
    · rw [if_neg hq, singleton_append, map_cons]
      refine nodup_cons.mpr ⟨fun hmem => ?_, h.nodup.sublist (filter_sublist.map _)⟩
      obtain ⟨⟨p, n⟩, hpn, rfl⟩ := mem_map.mp hmem
      obtain ⟨hp, hdrop⟩ := mem_filter.mp hpn
      obtain ⟨k, hk⟩ := (h.mem_iff p).mp ⟨n, hp⟩
      refine heff.fresh p size k ((hadd p size).mpr ⟨hq, rfl, rfl⟩) ?_ hk
      exact ne_comm.mp (of_decide_eq_true hdrop)

/-! ### The invariant of runs -/

theorem Call.run_of_first_eq_zero (h : s.first = 0) (c : Call) : c.run P s = some (s, 0) := by
  have hkmalloc : ∀ n, Heap.kmalloc s n = some (s, 0) := fun n => if_pos (.inr h)
  have hfind : ∀ q, findBlock s.mem q s.fuel s.first = .miss := fun q => by
    rw [h, State.fuel, findBlock, if_pos rfl]
  have hkfree : ∀ q, Heap.kfree P s q = some s := fun q => by
    rw [Heap.kfree, hfind q]
    split
    · rfl
    · split <;> rfl
  cases c with
  | kmalloc size => exact hkmalloc _
  | kcalloc count size =>
    simp only [Call.run, Heap.kcalloc, hkmalloc, if_true, ite_self]
  | krealloc pointer size =>
    rw [Call.run, Heap.krealloc, hkmalloc, hkfree, hfind]
    split
    · rfl
    · split <;> rfl
  | kfree pointer => rw [Call.run, hkfree, Option.map_some]

/-- Every state of a run represents a list whose allocated blocks are the live
requests; or there is no heap at all, and no request either. -/
theorem Run.exists_rep {available : ℕ} (h : Run P m available s L) :
    (s.first = 0 ∧ L = [] ∧ s = memoryInit P m available) ∨
      ∃ bs, Rep P s bs ∧ Live P bs L ∧ (memoryInit P m available).first ≠ 0 ∧
        s.heapBytes = (memoryInit P m available).heapBytes := by
  induction h with
  | init =>
    by_cases hfirst : (memoryInit P m available).first = 0
    · exact .inl ⟨hfirst, rfl, rfl⟩
    · refine .inr ⟨_, rep_memoryInit hfirst, ⟨fun q => ?_, by simp, by simp⟩, hfirst, rfl⟩
      simp [AllocAt]
  | @call s s' L q c _ hc ih =>
    rcases ih with ⟨hfirst, rfl, hs⟩ | ⟨bs, hrep, hlive, hfirst, hbytes⟩
    · rw [Call.run_of_first_eq_zero hfirst] at hc
      obtain ⟨rfl, rfl⟩ : s = s' ∧ 0 = q := by simpa using hc
      exact .inl ⟨hfirst, rfl, hs⟩
    · obtain ⟨s₁, q₁, size, bs', hrun, hsize, heff⟩ := Call.exists_effect hrep c
      obtain ⟨rfl, rfl⟩ : s₁ = s' ∧ q₁ = q := by simpa [hrun] using hc
      exact .inr ⟨bs', heff.rep, hlive.call hsize heff, hfirst, heff.heapBytes.trans hbytes⟩
  | @store s L x v _ hx ih =>
    obtain ⟨b, hb, hfree, hlo, hhi⟩ := hx
    rcases ih with ⟨hfirst, -, -⟩ | ⟨bs, hrep, hlive, hfirst, hbytes⟩
    · rw [State.blocks, hfirst, State.fuel, blocksFrom, if_pos rfl] at hb
      simp at hb
    · refine .inr ⟨bs, hrep.congr_mem fun y hy => ?_, hlive, hfirst, hbytes⟩
      rw [hrep.blocks_eq] at hb
      have halloc : AllocAt P.heap bs (b.addr + headerBytes) b.size :=
        allocAt_iff_mem_place.mpr ⟨b, hb, hfree, rfl, rfl⟩
      refine Function.update_of_ne (fun hcon => ?_) _ _
      exact halloc.not_inHeader hlo hhi (hcon ▸ hy)

/-! ### Every state of every run -/

variable {available : ℕ} {L : List (ℕ × ℕ)}

/-- A represented heap with no allocated block is one free block. -/
theorem Rep.blocks_eq_singleton (h : Rep P s bs) (hnone : ∀ q n, ¬AllocAt P.heap bs q n) :
    s.blocks = [⟨P.heap, s.heapBytes - headerBytes, 0, 0, true⟩] := by
  have hcount : usedCount bs = 0 := by
    refine usedCount_eq_zero.mpr fun b hb => ?_
    obtain ⟨l, r, rfl⟩ := append_of_mem hb
    by_contra hfree
    exact hnone _ _ (allocAt_self (Bool.eq_false_iff.mpr hfree))
  have hlen := length_le_one_of_usedCount_eq_zero h.separated hcount
  have hext := h.extent_eq
  have hblocks := h.blocks_eq
  rcases bs with _ | ⟨b, _ | ⟨c, bs⟩⟩
  · exact absurd rfl h.ne_nil
  · have hfree : b.free = true := usedCount_eq_zero.mp hcount b (by simp)
    simp only [extent_cons, extent_nil] at hext
    have hsize : b.size = s.heapBytes - headerBytes := by omega
    have hend : P.heap + headerBytes + b.size = P.heap + s.heapBytes := by omega
    rw [hblocks, place, place, hend, link_self, hfree, hsize]
  · simp only [length_cons] at hlen
    omega

/-- **The heap is well formed in every state of every run**: the block list
tiles the heap, its links are mutually inverse, sizes are multiples of 16, no
two neighbours are both free, and the counters are the totals of the list. Once
every allocation has been freed, in whatever order, the heap is again the one
free block it started as. -/
theorem Run.heap_wellFormed (h : Run P m available s L)
    (hinit : (memoryInit P m available).first ≠ 0) :
    WellFormed P s ∧ s.heapBytes = (memoryInit P m available).heapBytes ∧
      (L = [] → s.blocks = [⟨P.heap, s.heapBytes - 48, 0, 0, true⟩]) := by
  rcases h.exists_rep with ⟨hfirst, -, rfl⟩ | ⟨bs, hrep, hlive, -, hbytes⟩
  · exact absurd hfirst hinit
  · refine ⟨hrep.wellFormed, hbytes, fun hL => hrep.blocks_eq_singleton fun q n hq => ?_⟩
    obtain ⟨k, hk⟩ := (hlive.mem_iff q).mpr ⟨n, hq⟩
    rw [hL] at hk
    exact not_mem_nil hk

/-- A place for the array, for running the model. -/
def placementAtMiB : Placement := ⟨0x100000, by decide, by decide, by decide⟩

/-- The state and the live requests after calls. -/
def afterCalls (P : Placement) : List Call → State × List (ℕ × ℕ) → Option (State × List (ℕ × ℕ))
  | [], x => some x
  | c :: calls, (s, L) => (c.run P s).bind fun r => afterCalls P calls (r.1, c.live r.2 L)

theorem Run.afterCalls {L' : List (ℕ × ℕ)} (h : Run P m available s L) (calls : List Call)
    (hcalls : afterCalls P calls (s, L) = some (s', L')) : Run P m available s' L' := by
  induction calls generalizing s L with
  | nil =>
    obtain ⟨rfl, rfl⟩ := Prod.mk.inj (Option.some.inj hcalls)
    exact h
  | cons c calls ih =>
    obtain ⟨⟨s₁, q⟩, hc, hrest⟩ := Option.bind_eq_some_iff.mp hcalls
    exact ih (Run.call c h hc) hrest

/-- Three requests on a machine with 64 KiB of memory, the first of which is given back. -/
def requestsAndFree : List Call := [.kmalloc 100, .kmalloc 20, .kmalloc 50, .kfree 0x100030]

/-- The second payload is moved, so that its block and the first are one again, of which a small
request then takes a part. -/
def mergeAndSplit : List Call := requestsAndFree ++ [.krealloc 0x1000d0 400, .kmalloc 64]

theorem exists_run_mergeAndSplit : ∃ s, Run placementAtMiB (fun _ => 0) 65536 s
      [(0x100030, 64), (0x100190, 400), (0x100120, 50)] ∧
    s.blocks.map (fun b => (b.addr, b.size, b.free)) = [(0x100000, 64, false), (0x100070, 80, true),
      (0x1000f0, 64, false), (0x100160, 400, false), (0x100320, 7344, true)] := by
  have hrun : (afterCalls placementAtMiB mergeAndSplit (memoryInit placementAtMiB (fun _ => 0) 65536, [])).map
      (fun x => (x.1.blocks.map fun b => (b.addr, b.size, b.free), x.2)) =
      some ([(0x100000, 64, false), (0x100070, 80, true), (0x1000f0, 64, false), (0x100160, 400, false),
        (0x100320, 7344, true)], [(0x100030, 64), (0x100190, 400), (0x100120, 50)]) := by decide +kernel
  obtain ⟨⟨s, L⟩, hcalls, heq⟩ := Option.map_eq_some_iff.mp hrun
  obtain ⟨hblocks, rfl⟩ := Prod.mk.inj heq
  exact ⟨s, Run.init.afterCalls _ hcalls, hblocks⟩

/-- The theorem applies to a heap whose blocks have been split, freed, joined and split again. -/
theorem wellFormed_mergeAndSplit : ∃ s L, Run placementAtMiB (fun _ => 0) 65536 s L ∧ s.blocks.length = 5 ∧
    WellFormed placementAtMiB s ∧ s.heapBytes = 8192 := by
  obtain ⟨s, hrun, hblocks⟩ := exists_run_mergeAndSplit
  obtain ⟨hwell, hbytes, -⟩ := hrun.heap_wellFormed (by decide)
  refine ⟨s, _, hrun, ?_, hwell, hbytes⟩
  rw [← length_map, hblocks]
  rfl

/-- The state has an allocated payload of `size` bytes at the pointer `q`. -/
def State.Payload (s : State) (q size : ℕ) : Prop :=
  ∃ b ∈ s.blocks, b.free = false ∧ b.addr + 48 = q ∧ b.size = size

theorem Rep.payload_iff (h : Rep P s bs) : s.Payload q n ↔ AllocAt P.heap bs q n := by
  rw [State.Payload, h.blocks_eq]
  exact allocAt_iff_mem_place.symm

theorem Rep.dvd_of_allocAt (h : Rep P s bs) (hq : AllocAt P.heap bs q n) : 16 ∣ q := by
  obtain ⟨l, b, r, rfl, -, rfl, -⟩ := hq.exists_append
  have hl : 16 ∣ extent l := dvd_span (by decide) fun c hc => (h.aligned c (by simp [hc])).1
  exact Nat.dvd_add (Nat.dvd_add P.heap_aligned hl) (by decide)

theorem Rep.header_disjoint (h : Rep P s bs) (hq : AllocAt P.heap bs q n) {c : Entry}
    (hc : c ∈ s.blocks) : c.addr + 48 ≤ q ∨ q + n ≤ c.addr := by
  have h48 := headerBytes_eq
  rw [h.blocks_eq] at hc
  obtain ⟨l, b, r, hbs, -, -, hn⟩ := hq.exists_append
  have hpos := (h.aligned b (by simp [hbs])).2
  by_contra hcon
  have hin : InHeader P.heap bs (max q c.addr) := inHeader_of_mem_place hc (le_max_right _ _) (by omega)
  exact hq.not_inHeader (le_max_left _ _) (by omega) hin

theorem AllocAt.disjoint_of_ne {q' n' : ℕ} (h : AllocAt a bs q n) (h' : AllocAt a bs q' n')
    (hne : q' ≠ q) : q' + n' ≤ q ∨ q + n ≤ q' := by
  rcases lt_or_gt_of_ne hne with hlt | hgt
  · have := h'.disjoint h hlt
    omega
  · have := h.disjoint h' hgt
    omega

theorem Call.dropped_ne_of_not_names {r : ℕ} (h : ¬c.names q) : c.dropped r ≠ some q := by
  cases c with
  | kmalloc size => simp [Call.dropped]
  | kcalloc count size => simp [Call.dropped]
  | krealloc pointer size =>
    simp only [Call.names] at h
    simp only [Call.dropped]
    split <;> simp [h]
  | kfree pointer =>
    simp only [Call.names] at h
    simp [Call.dropped, h]

/-- `kmalloc` fails exactly when no free block has room for the request. -/
theorem Rep.kmalloc_eq_zero_iff (h : Rep P s bs) (hpos : 0 < n) (hn : n < 2 ^ 64) :
    ∃ s' q, kmalloc s n = some (s', q) ∧ (q = 0 ↔ ∀ b ∈ s.blocks, b.free = true → b.size < roundUp n) := by
  obtain ⟨s', q, hrun, hout⟩ := kmalloc_spec h hn
  refine ⟨s', q, hrun, ?_⟩
  have hiff : (∀ b ∈ s.blocks, b.free = true → b.size < roundUp n) ↔ ∀ b ∈ bs, b.free = true → b.size < roundUp n := by
    rw [h.blocks_eq]
    exact forall_mem_place (Q := fun size free => free = true → size < roundUp n)
  rw [hiff]
  cases hout with
  | null hnone =>
    refine iff_of_true rfl fun b hb hfree => ?_
    rcases hnone with rfl | hnone
    · omega
    · exact Nat.lt_of_not_le fun hle => hnone b hb ⟨hfree, hle⟩
  | taken l b r _ hbs hfree hfit _ _ _ =>
    have h48 := headerBytes_eq
    refine iff_of_false (by omega) fun hall => ?_
    have := hall b (by simp [hbs]) hfree
    omega

/-- **Live payloads are the clients' own**, in every state of every run. A live
request has a payload of at least the bytes asked for, aligned, inside the heap,
disjoint from every header and from every other live payload. A call about
another pointer leaves it live and changes none of its bytes. No pointer is live
twice, and `kmalloc` returns null exactly when no free block has room for the rounded request. -/
theorem Run.live_payloads (h : Run P m available s L) :
    (L.map Prod.fst).Nodup ∧
    (∀ q n, (q, n) ∈ L → ∃ size, s.Payload q size ∧ n ≤ size ∧ 16 ∣ q ∧
      P.heap + 48 ≤ q ∧ q + size ≤ P.heap + s.heapBytes ∧
      (∀ c ∈ s.blocks, c.addr + 48 ≤ q ∨ q + size ≤ c.addr) ∧
      ∀ q' n' size', (q', n') ∈ L → q' ≠ q → s.Payload q' size' → q' + size' ≤ q ∨ q + size ≤ q') ∧
    (∀ c : Call, ∃ s' r, c.run P s = some (s', r) ∧
      (r ≠ 0 → (r, c.requested) ∈ c.live r L) ∧
      ∀ q n size, (q, n) ∈ L → s.Payload q size → ¬c.names q →
        (q, n) ∈ c.live r L ∧ ∀ x, q ≤ x → x < q + size → s'.mem x = s.mem x) ∧
    ∀ n : UInt64, 0 < n.toNat → ∃ s' q, kmalloc s n.toNat = some (s', q) ∧
      (q = 0 ↔ ∀ b ∈ s.blocks, b.free = true → b.size < roundUp n.toNat) := by
  rcases h.exists_rep with ⟨hfirst, rfl, -⟩ | ⟨bs, hrep, hlive, -, -⟩
  · have hblocks : s.blocks = [] := by
      rw [State.blocks, hfirst, State.fuel, blocksFrom, if_pos rfl]
    refine ⟨nodup_nil, by simp, fun c => ⟨s, 0, Call.run_of_first_eq_zero hfirst c, by simp, by simp⟩,
      fun n _ => ⟨s, 0, if_pos (.inr hfirst), ?_⟩⟩
    simp [hblocks]
  · refine ⟨hlive.nodup, fun q n hq => ?_, fun c => ?_, fun n hn => hrep.kmalloc_eq_zero_iff hn n.toNat_lt⟩
    · obtain ⟨size, hsize⟩ := (hlive.mem_iff q).mp ⟨n, hq⟩
      have hbounds := hsize.bounds
      rw [hrep.extent_eq] at hbounds
      refine ⟨size, hrep.payload_iff.mpr hsize, hlive.le q n size hq hsize,
        hrep.dvd_of_allocAt hsize, hbounds.1, hbounds.2, fun c hc => hrep.header_disjoint hsize hc,
        fun q' n' size' _ hne hq' => hsize.disjoint_of_ne (hrep.payload_iff.mp hq') hne⟩
    · obtain ⟨s', r, size, bs', hrun, -, heff⟩ := Call.exists_effect hrep c
      refine ⟨s', r, hrun, fun hr => Call.mem_live.mpr (.inl ⟨hr, rfl, rfl⟩), ?_⟩
      intro q n k hq hk hnames
      have hdrop := Call.dropped_ne_of_not_names (r := r) hnames
      exact ⟨Call.mem_live.mpr (.inr ⟨hq, hdrop⟩), heff.frame q k (hrep.payload_iff.mp hk) hdrop⟩

/-- The theorem applies where payloads are live, one has been moved and one freed. -/
theorem live_payloads_mergeAndSplit : ∃ s size size', Run placementAtMiB (fun _ => 0) 65536 s
      [(0x100030, 64), (0x100190, 400), (0x100120, 50)] ∧ s.Payload 0x100190 size ∧ 400 ≤ size ∧
    s.Payload 0x100120 size' ∧ 50 ≤ size' ∧ 0x100120 + size' ≤ 0x100190 ∧
    ∃ q, (kmalloc s 7344).map Prod.snd = some q ∧ q ≠ 0 := by
  obtain ⟨s, hrun, hblocks⟩ := exists_run_mergeAndSplit
  obtain ⟨-, hlive, -, hnull⟩ := hrun.live_payloads
  obtain ⟨size, hpayload, hsize, -, -, -, -, hapart⟩ := hlive 0x100190 400 (by simp)
  obtain ⟨size', hpayload', hsize', -⟩ := hlive 0x100120 50 (by simp)
  have hdisjoint := hapart 0x100120 50 _ (by simp) (by decide) hpayload'
  obtain ⟨s', q, hq, hiff⟩ := hnull 7344 (by decide)
  refine ⟨s, size, size', hrun, hpayload, hsize, hpayload', hsize', by omega, q, congrArg (Option.map Prod.snd) hq, fun hzero => ?_⟩
  -- the last block has room
  have hlast : (0x100320, 7344, true) ∈ s.blocks.map fun b => (b.addr, b.size, b.free) := by
    rw [hblocks]
    decide
  obtain ⟨b, hb, heq⟩ := mem_map.mp hlast
  obtain ⟨-, hsize, hfree⟩ : b.addr = 0x100320 ∧ b.size = 7344 ∧ b.free = true := by simpa using heq
  have hlt := hiff.mp hzero b hb hfree
  rw [hsize] at hlt
  exact absurd hlt (by decide)

/-! ### Pointers that are no payloads -/

/-- `krealloc` in every state of a run, for a pointer that is not null and a size that is not zero. -/
theorem Run.krealloc_cases (h : Run P m available s L) (hp : p ≠ 0) (hn : n ≠ 0) (hn' : n < 2 ^ 64) :
    krealloc P s p n = some (s, 0) ∨ ∃ bs s' q, Rep P s bs ∧ krealloc P s p n = some (s', q) ∧
      KreallocOutcome P s bs p n s' q := by
  rcases h.exists_rep with ⟨hfirst, -, -⟩ | ⟨bs, hrep, -⟩
  · left
    rw [krealloc, if_neg hp, if_neg hn, hfirst, State.fuel, findBlock, if_pos rfl]
  · obtain ⟨s', q, hrun, hout⟩ := krealloc_spec hrep hp hn hn'
    exact .inr ⟨bs, s', q, hrep, hrun, hout⟩

/-- **Pointers of every kind.** A pointer that is no allocated payload is ignored by `kfree` and
refused by `krealloc`; of a payload `krealloc` keeps the bytes or changes nothing. -/
theorem Run.pointers_checked (h : Run P m available s L) (pointer size : UInt64) :
    ((∀ k, ¬s.Payload pointer.toNat k) → kfree P s pointer.toNat = some s ∧
      (pointer ≠ 0 → size ≠ 0 → krealloc P s pointer.toNat size.toNat = some (s, 0))) ∧
    ∀ k, s.Payload pointer.toNat k → size ≠ 0 →
      krealloc P s pointer.toNat size.toNat = some (s, 0) ∨
      ∃ s' q k', krealloc P s pointer.toNat size.toNat = some (s', q) ∧ s'.Payload q k' ∧ size.toNat ≤ k' ∧
        (∀ i < min k size.toNat, s'.mem (q + i) = s.mem (pointer.toNat + i)) ∧
        (q ≠ pointer.toNat → ∀ k, ¬s'.Payload pointer.toNat k) := by
  have hsize : size ≠ 0 → size.toNat ≠ 0 := fun hne h0 => hne (UInt64.toNat.inj h0)
  refine ⟨fun hnone => ⟨?_, fun hp hn => ?_⟩, fun k hk hn => ?_⟩
  · rcases h.exists_rep with ⟨hfirst, -, -⟩ | ⟨bs, hrep, -⟩
    · obtain ⟨s', hfree, heq⟩ := Option.map_eq_some_iff.mp (Call.run_of_first_eq_zero hfirst (.kfree pointer))
      rw [hfree, (Prod.mk.inj heq).1]
    · obtain ⟨s', hrun, hout⟩ := kfree_spec hrep pointer.toNat
      cases hout with
      | ignored _ => exact hrun
      | freed l b r hbs hfree hq =>
        refine absurd (hrep.payload_iff.mpr ?_) (hnone b.size)
        rw [hbs, hq]
        exact allocAt_self hfree
  · rcases h.krealloc_cases (fun h0 => hp (UInt64.toNat.inj h0)) (hsize hn) size.toNat_lt with
      hnull | ⟨bs, s', q, hrep, hrun, hout⟩
    · exact hnull
    cases hout with
    | null => exact hrun
    | kept hk => exact absurd (hrep.payload_iff.mpr hk) (hnone _)
    | moved hk => exact absurd (hrep.payload_iff.mpr hk) (hnone _)
  · have hp : pointer.toNat ≠ 0 := by
      obtain ⟨b, -, -, hb, -⟩ := hk
      omega
    rcases h.krealloc_cases hp (hsize hn) size.toNat_lt with hnull | ⟨bs, s', q, hrep, hrun, hout⟩
    · exact .inl hnull
    cases hout with
    | null => exact .inl hrun
    | kept hk' hge =>
      exact .inr ⟨s, _, _, hrun, hrep.payload_iff.mpr hk', hge, fun _ _ => rfl, fun hne => absurd rfl hne⟩
    | moved hk' hlt hq hge heff hbytes =>
      -- the old payload has one size only
      obtain rfl := hk'.size_unique (hrep.payload_iff.mp hk)
      refine .inr ⟨s', q, _, hrun, heff.rep.payload_iff.mpr ((heff.allocAt _ _).mpr (.inr rfl)), hge,
        fun i hi => hbytes i (lt_min_iff.mp hi).1, fun hne k hk => ?_⟩
      rcases (heff.allocAt _ k).mp (heff.rep.payload_iff.mp hk) with ⟨-, hdrop⟩ | hadd
      · exact hdrop rfl
      · exact hne (Prod.mk.inj (Option.some.inj hadd)).1

/-- A payload that has been given back is none, and one that is live is moved. -/
theorem pointers_checked_requestsAndFree : ∃ s, Run placementAtMiB (fun _ => 0) 65536 s [(0x100120, 50), (0x1000d0, 20)] ∧
    kfree placementAtMiB s 0x100030 = some s ∧ krealloc placementAtMiB s 0x100030 16 = some (s, 0) ∧
    ∃ s' k, krealloc placementAtMiB s 0x1000d0 400 = some (s', 0x100190) ∧ s'.Payload 0x100190 k ∧ 400 ≤ k ∧
      (∀ i < 32, s'.mem (0x100190 + i) = s.mem (0x1000d0 + i)) ∧ ∀ k, ¬s'.Payload 0x1000d0 k := by
  have hcalls : (afterCalls placementAtMiB requestsAndFree (memoryInit placementAtMiB (fun _ => 0) 65536, [])).map
      (fun x => (x.1.blocks.map fun b => (b.addr, b.size, b.free), x.2,
        (krealloc placementAtMiB x.1 0x1000d0 400).map Prod.snd)) =
      some ([(0x100000, 112, true), (0x1000a0, 32, false), (0x1000f0, 64, false), (0x100160, 7792, true)],
        [(0x100120, 50), (0x1000d0, 20)], some 0x100190) := by decide +kernel
  obtain ⟨⟨s, L⟩, hcalls, heq⟩ := Option.map_eq_some_iff.mp hcalls
  obtain ⟨hblocks, heq⟩ := Prod.mk.inj heq
  obtain ⟨rfl, hmoved⟩ := Prod.mk.inj heq
  have hrun : Run placementAtMiB (fun _ => 0) 65536 s _ := Run.init.afterCalls _ hcalls
  have hmem : ∀ b ∈ s.blocks, (b.addr, b.size, b.free) ∈ s.blocks.map fun b => (b.addr, b.size, b.free) :=
    fun b hb => mem_map.mpr ⟨b, hb, rfl⟩
  simp only [hblocks] at hmem
  have hnone : ∀ k, ¬s.Payload 0x100030 k := by
    rintro k ⟨b, hb, hfree, haddr, -⟩
    have hb := hmem b hb
    simp [hfree] at hb
    omega
  have hsome : s.Payload 0x1000d0 32 := by
    have hin : (0x1000a0, 32, false) ∈ s.blocks.map fun b => (b.addr, b.size, b.free) := by
      rw [hblocks]
      decide
    obtain ⟨b, hb, heq⟩ := mem_map.mp hin
    obtain ⟨haddr, hsize, hfree⟩ : b.addr = 0x1000a0 ∧ b.size = 32 ∧ b.free = false := by simpa using heq
    exact ⟨b, hb, hfree, by rw [haddr], hsize⟩
  obtain ⟨hfree, hrealloc⟩ := (hrun.pointers_checked 0x100030 16).1 hnone
  refine ⟨s, hrun, hfree, hrealloc (by decide) (by decide), ?_⟩
  obtain ⟨⟨s', q⟩, hmoved, hq⟩ := Option.map_eq_some_iff.mp hmoved
  obtain rfl : q = 0x100190 := hq
  rcases (hrun.pointers_checked 0x1000d0 400).2 32 hsome (by decide) with hnull | ⟨s₁, q, k, hrun', hpayload, hk, hbytes, hgone⟩
  · exact absurd ((Prod.mk.inj (Option.some.inj (hmoved.symm.trans hnull))).2) (by decide)
  · obtain ⟨rfl, rfl⟩ := Prod.mk.inj (Option.some.inj (hmoved.symm.trans hrun'))
    exact ⟨s', k, hmoved, hpayload, hk, hbytes, hgone (by decide)⟩

/-- **The counter is the number of the live requests** in every state of every run. -/
theorem Run.memoryAllocationCount_eq (h : Run P m available s L) : memoryAllocationCount s = L.length := by
  rcases h.exists_rep with ⟨-, rfl, rfl⟩ | ⟨bs, hrep, hlive, -⟩
  · rw [memoryAllocationCount, memoryInit]
    split <;> rfl
  have hwell := hrep.wellFormed
  -- the blocks follow each other, so that their payloads are at different addresses
  have haddr : (s.blocks.map Entry.addr).Pairwise (· < ·) :=
    isChain_iff_pairwise.mp ((isChain_map _).mpr (hwell.tiles.imp fun _ _ hbc => (by omega)))
  have hnodup : ((s.blocks.filter fun b => !b.free).map (Entry.addr · + 48)).Nodup :=
    pairwise_map.mpr (((pairwise_map.mp haddr).filter _).imp fun hlt => (by omega))
  have hmem : ∀ q, q ∈ L.map Prod.fst ↔ q ∈ (s.blocks.filter fun b => !b.free).map (Entry.addr · + 48) := by
    intro q
    have hiff := hlive.mem_iff q
    simp only [← hrep.payload_iff, State.Payload] at hiff
    simpa [and_assoc] using hiff
  have hlength := ((perm_ext_iff_of_nodup hlive.nodup hnodup).mpr hmem).length_eq
  rw [length_map, length_map] at hlength
  exact hwell.allocations.trans hlength.symm

theorem memoryAllocationCount_mergeAndSplit : ∃ s L, Run placementAtMiB (fun _ => 0) 65536 s L ∧
    s.blocks.length = 5 ∧ memoryAllocationCount s = 3 := by
  obtain ⟨s, hrun, hblocks⟩ := exists_run_mergeAndSplit
  refine ⟨s, _, hrun, ?_, hrun.memoryAllocationCount_eq⟩
  rw [← length_map, hblocks]
  rfl

end OS64.Heap
