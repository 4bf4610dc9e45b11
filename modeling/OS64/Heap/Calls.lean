import OS64.Heap.Invariant

/-!
# The calls of the allocator

One allocator call, seen from its clients: which payload it takes away, which
one it adds, and that every other allocated payload keeps its place, its size
and its bytes. `OS64.Heap.Effect` states this once; each of the four
entry points is shown to have such an effect on every represented heap, so that
`OS64.Heap.Call.exists_effect` covers them all.
-/

namespace OS64

namespace Heap

open BlockList Option

variable {P : Placement} {s s' s'' : State} {bs bs' l r : List Block} {b : Block} {q n : ℕ}

/-! ### Writes outside the headers -/

/-- A segment depends on the bytes of its headers only. -/
theorem Seg.congr_inHeader {m m' : ByteMem} {e p a : ℕ} (h : Seg m e p a bs)
    (hm : ∀ x, InHeader a bs x → m' x = m x) : Seg m' e p a bs := by
  induction bs generalizing p a with
  | nil => trivial
  | cons b bs ih =>
    obtain ⟨hb, hbs⟩ := h
    exact ⟨hb.congr fun x hx hx' => hm x (.inl ⟨hx, hx'⟩), ih hbs fun x hx => hm x (.inr hx)⟩

variable {m : ByteMem}

/-- The invariant does not look into payloads. -/
theorem Rep.congr_mem (h : Rep P s bs)
    (hm : ∀ x, InHeader P.heap bs x → m x = s.mem x) : Rep P { s with mem := m } bs :=
  ⟨h.first, h.heapBytes_gt, h.heapBytes_le, h.seg.congr_inHeader hm, h.extent_eq, h.aligned,
    h.separated, h.used, h.allocations⟩

/-! ### Effects -/

/-- What a call does to the payloads of a represented heap: the payload `drop`
goes, the payload `add` comes, all others stay as they are, bytes included. -/
structure Effect (P : Placement) (s : State) (bs : List Block) (drop : Option ℕ)
    (add : Option (ℕ × ℕ)) (s' : State) (bs' : List Block) : Prop where
  rep : Rep P s' bs'
  heapBytes : s'.heapBytes = s.heapBytes
  allocAt : ∀ q n, AllocAt P.heap bs' q n ↔
    (AllocAt P.heap bs q n ∧ drop ≠ some q) ∨ add = some (q, n)
  fresh : ∀ q n n', add = some (q, n) → drop ≠ some q → ¬AllocAt P.heap bs q n'
  frame : ∀ q n, AllocAt P.heap bs q n → drop ≠ some q → ∀ x, q ≤ x → x < q + n →
    s'.mem x = s.mem x

/-- Doing nothing. -/
theorem Effect.refl (h : Rep P s bs) : Effect P s bs none none s bs where
  rep := h
  heapBytes := rfl
  allocAt := by simp
  fresh := by simp
  frame := fun _ _ _ _ _ _ _ => rfl

/-- An effect followed by writes into the payload it has added. -/
theorem Effect.write {drop : Option ℕ} (h : Effect P s bs drop (some (q, n)) s' bs')
    (hm : ∀ x, x < q ∨ q + n ≤ x → m x = s'.mem x) :
    Effect P s bs drop (some (q, n)) { s' with mem := m } bs' := by
  have hnew : AllocAt P.heap bs' q n := (h.allocAt q n).mpr (.inr rfl)
  constructor
  case rep =>
    refine h.rep.congr_mem fun x hx => hm x (by_contra fun hin => ?_)
    exact hnew.not_inHeader (by omega) (by omega) hx
  case heapBytes => exact h.heapBytes
  case allocAt => exact h.allocAt
  case fresh => exact h.fresh
  case frame =>
    intro q' n' hq' hdrop x hx hx'
    have hold : AllocAt P.heap bs' q' n' := (h.allocAt q' n').mpr (.inl ⟨hq', hdrop⟩)
    have hne : q' ≠ q := fun hcon => h.fresh q n n' rfl (hcon ▸ hdrop) (hcon ▸ hq')
    have hout : x < q ∨ q + n ≤ x := by
      rcases lt_or_gt_of_ne hne with hlt | hgt
      · have := hold.disjoint hnew hlt
        omega
      · have := hnew.disjoint hold hgt
        omega
    exact (hm x hout).trans (h.frame q' n' hq' hdrop x hx hx')

/-- `kmalloc` has an effect: it adds the payload it returns. -/
theorem KmallocOutcome.effect (h : Rep P s bs) (hout : KmallocOutcome P s bs n s' q) :
    (q = 0 ∧ s' = s) ∨ ∃ size bs', 0 < q ∧ n ≤ size ∧ Effect P s bs none (some (q, size)) s' bs' := by
  have h48 := headerBytes_eq
  cases hout with
  | null _ => exact .inl ⟨rfl, rfl⟩
  | taken l b r hn hbs hfree hfit hrep hbytes hframe =>
    subst hbs
    refine .inr ⟨usedBytes (carve headerBytes minPayload (roundUp n) b), _, by omega, ?_, hrep,
      hbytes, fun q' n' => ?_, fun q' n' n'' hadd _ hq' => ?_, fun q' n' hq' _ x hx hx' => ?_⟩
    · have hround : n ≤ roundUp n := by
        rw [roundUp]
        omega
      rw [usedBytes_carve]
      split <;> omega
    · simp only [allocAt_carve hfree, ne_eq, reduceCtorEq, not_false_eq_true, and_true, some.injEq, Prod.mk.injEq]
      exact or_congr_right ⟨fun h => ⟨h.1.symm, h.2.symm⟩, fun h => ⟨h.1.symm, h.2.symm⟩⟩
    · simp only [some.injEq, Prod.mk.injEq] at hadd
      obtain ⟨l', b', r', hsplit, hb', hq'', -⟩ := hq'.exists_append
      obtain ⟨rfl, rfl, rfl⟩ := append_cons_unique hsplit (by omega)
      rw [hfree] at hb'
      exact Bool.noConfusion hb'
    · refine hframe x (hq'.not_inHeader hx hx') fun hin => ?_
      rw [allocAt_append, allocAt_cons_of_free hfree] at hq'
      rcases hq' with hq' | hq'
      · have := hq'.bounds
        omega
      · have := hq'.bounds
        omega

/-- `kfree` has an effect: it takes the payload it is given, if it is one. -/
theorem KfreeOutcome.effect (h : Rep P s bs) (hout : KfreeOutcome P s bs q s') :
    ∃ bs', Effect P s bs (some q) none s' bs' := by
  cases hout with
  | ignored hnone =>
    refine ⟨bs, h, rfl, fun q' n' => ?_, by simp, fun _ _ _ _ _ _ _ => rfl⟩
    simp only [ne_eq, some.injEq, reduceCtorEq, or_false]
    exact ⟨fun hq' => ⟨hq', fun hcon => hnone n' (hcon ▸ hq')⟩, fun hq' => hq'.1⟩
  | freed l b r hbs hfree hq hrep hbytes hframe =>
    subst hbs
    refine ⟨_, hrep, hbytes, fun q' n' => ?_, by simp, fun q' n' hq' _ x hx hx' => ?_⟩
    · simp only [allocAt_release, ← hq, ne_eq, some.injEq, reduceCtorEq, or_false]
      exact and_congr_right fun _ => not_congr eq_comm
    · exact hframe x (hq'.not_inHeader hx hx')

/-- An effect that adds a payload, followed by one that takes another. -/
theorem Effect.trans {q' : ℕ} (h : Effect P s bs none (some (q, n)) s' bs')
    {bs'' : List Block} (h' : Effect P s' bs' (some q') none s'' bs'') (hne : q ≠ q') :
    Effect P s bs (some q') (some (q, n)) s'' bs'' := by
  constructor
  case rep => exact h'.rep
  case heapBytes => exact h'.heapBytes.trans h.heapBytes
  case allocAt =>
    intro p k
    rw [h'.allocAt, h.allocAt]
    simp only [ne_eq, some.injEq, reduceCtorEq, or_false, not_false_eq_true, and_true, Prod.mk.injEq]
    constructor
    · rintro ⟨hp | hp, hdrop⟩
      · exact .inl ⟨hp, hdrop⟩
      · exact .inr hp
    · rintro (⟨hp, hdrop⟩ | hp)
      · exact ⟨.inl hp, hdrop⟩
      · exact ⟨.inr hp, fun hcon => hne (hp.1.trans hcon.symm)⟩
  case fresh => exact fun p k k' hadd _ => h.fresh p k k' hadd (by simp)
  case frame =>
    intro p k hp hdrop x hx hx'
    have hmid : AllocAt P.heap bs' p k := (h.allocAt p k).mpr (.inl ⟨hp, by simp⟩)
    exact (h'.frame p k hmid hdrop x hx hx').trans (h.frame p k hp (by simp) x hx hx')

/-! ### The four entry points -/

/-- A call with the arguments a client may give it: any `size_t`, any
pointer. -/
inductive Call
  | kmalloc (size : UInt64)
  | kcalloc (count size : UInt64)
  | krealloc (pointer size : UInt64)
  | kfree (pointer : UInt64)

namespace Call

/-- Running a call: the state it leaves and the pointer it returns, null for
`kfree`; `none` would be a call that does not return. -/
def run (P : Placement) (s : State) : Call → Option (State × ℕ)
  | kmalloc size => Heap.kmalloc s size.toNat
  | kcalloc count size => Heap.kcalloc s count.toNat size.toNat
  | krealloc pointer size => Heap.krealloc P s pointer.toNat size.toNat
  | kfree pointer => (Heap.kfree P s pointer.toNat).map fun s' => (s', 0)

/-- The number of bytes a call asks for. -/
def requested : Call → ℕ
  | kmalloc size => size.toNat
  | kcalloc count size => count.toNat * size.toNat
  | krealloc _ size => size.toNat
  | kfree _ => 0

/-- The pointer a call is about. -/
def names (p : ℕ) : Call → Prop
  | kmalloc _ => False
  | kcalloc _ _ => False
  | krealloc pointer _ => pointer.toNat = p
  | kfree pointer => pointer.toNat = p

/-- The pointer a call that has returned `result` takes from its client: what
`kfree` is given, and what `krealloc` is given when it frees it or has moved
it. -/
def dropped (result : ℕ) : Call → Option ℕ
  | kmalloc _ => none
  | kcalloc _ _ => none
  | krealloc pointer size =>
    if pointer.toNat ≠ 0 ∧ (size.toNat = 0 ∨ result ≠ 0) then some pointer.toNat else none
  | kfree pointer => some pointer.toNat

/-- The payload a call adds: what it returns, unless that is null. -/
def added (result size : ℕ) : Option (ℕ × ℕ) := if result = 0 then none else some (result, size)

theorem added_of_pos {result size : ℕ} (h : 0 < result) : added result size = some (result, size) := if_neg h.ne'

end Call

/-- The size word of an allocated payload's header. -/
theorem Rep.size_of_allocAt (h : Rep P s bs) (hq : AllocAt P.heap bs q n) {block : ℕ}
    (hblock : block + headerBytes = q) : Heap.size s.mem block = n := by
  obtain ⟨l, b, r, rfl, -, rfl, rfl⟩ := hq.exists_append
  obtain rfl : block = P.heap + extent l := by omega
  exact h.header.size

theorem kmalloc_effect (h : Rep P s bs) (hn : n < 2 ^ 64) :
    ∃ s' q size bs', Heap.kmalloc s n = some (s', q) ∧ (q ≠ 0 → n ≤ size) ∧
      Effect P s bs none (Call.added q size) s' bs' := by
  obtain ⟨s', q, hrun, hout⟩ := kmalloc_spec h hn
  rcases hout.effect h with ⟨rfl, rfl⟩ | ⟨size, bs', hq, hsize, heff⟩
  · exact ⟨s', 0, 0, bs, hrun, by simp, Effect.refl h⟩
  · exact ⟨s', q, size, bs', hrun, fun _ => hsize, by rwa [Call.added_of_pos hq]⟩

theorem kcalloc_effect (h : Rep P s bs) (count size : UInt64) :
    ∃ s' q size' bs', Heap.kcalloc s count.toNat size.toNat = some (s', q) ∧
      (q ≠ 0 → count.toNat * size.toNat ≤ size') ∧
      Effect P s bs none (Call.added q size') s' bs' := by
  rw [Heap.kcalloc]
  by_cases hover : size.toNat ≠ 0 ∧ count.toNat > (2 ^ 64 - 1) / size.toNat
  · exact ⟨s, 0, 0, bs, if_pos hover, by simp, Effect.refl h⟩
  -- the product does not overflow
  have hprod : count.toNat * size.toNat < 2 ^ 64 := by
    by_cases h0 : size.toNat = 0
    · simp [h0]
    · have hle : count.toNat ≤ (2 ^ 64 - 1) / size.toNat := Nat.le_of_not_lt fun hlt => hover ⟨h0, hlt⟩
      have := (Nat.le_div_iff_mul_le (Nat.pos_of_ne_zero h0)).mp hle
      omega
  rw [if_neg hover, Nat.mod_eq_of_lt hprod]
  obtain ⟨s', q, size', bs', hrun, hsize, heff⟩ := kmalloc_effect h hprod
  simp only [hrun]
  by_cases hq : q = 0
  · subst hq
    exact ⟨s', 0, size', bs', if_pos rfl, by simp, heff⟩
  · refine ⟨_, q, size', bs', if_neg hq, hsize, ?_⟩
    rw [Call.added_of_pos (Nat.pos_of_ne_zero hq)] at heff ⊢
    refine heff.write fun x hx => ?_
    rw [ByteMem.fill_apply, if_neg (by omega)]

theorem kfree_effect (h : Rep P s bs) (q : ℕ) :
    ∃ s' bs', Heap.kfree P s q = some s' ∧ Effect P s bs (some q) none s' bs' := by
  obtain ⟨s', hrun, hout⟩ := kfree_spec h q
  obtain ⟨bs', heff⟩ := hout.effect h
  exact ⟨s', bs', hrun, heff⟩

/-- What `krealloc` of a pointer that is not null, for `n > 0` bytes, can do. -/
inductive KreallocOutcome (P : Placement) (s : State) (bs : List Block) (p n : ℕ) : State → ℕ → Prop
  /-- There is no such payload or no room for `n` bytes: nothing has changed. -/
  | null : KreallocOutcome P s bs p n s 0
  /-- The payload is large enough. -/
  | kept {k : ℕ} (hp : AllocAt P.heap bs p k) (hn : n ≤ k) : KreallocOutcome P s bs p n s p
  /-- A larger payload takes its place, with the same bytes in front. -/
  | moved {s' : State} {k q size : ℕ} {bs' : List Block} (hp : AllocAt P.heap bs p k) (hlt : k < n)
      (hq : 0 < q) (hn : n ≤ size) (heff : Effect P s bs (some p) (some (q, size)) s' bs')
      (hbytes : ∀ i < k, s'.mem (q + i) = s.mem (p + i)) : KreallocOutcome P s bs p n s' q

/-- `krealloc` of an allocated payload for more bytes than it has. -/
theorem krealloc_move {p k n block : ℕ} (h : Rep P s bs) (hp : AllocAt P.heap bs p k)
    (hblock : block + headerBytes = p) (hlt : k < n) (hn : n < 2 ^ 64) :
    Heap.kmalloc s n = some (s, 0) ∨
    ∃ s' s'' q, Heap.kmalloc s n = some (s', q) ∧ q ≠ 0 ∧
      Heap.kfree P { s' with mem := s'.mem.copy q p (Heap.size s'.mem block) } p = some s'' ∧
      KreallocOutcome P s bs p n s'' q := by
  obtain ⟨s', q, hrun, hout⟩ := kmalloc_spec h hn
  rcases hout.effect h with ⟨rfl, rfl⟩ | ⟨size, bs', hq, hsize, heff⟩
  · exact .inl hrun
  have hne : q ≠ p := fun hcon => heff.fresh q size k rfl (by simp) (hcon ▸ hp)
  have hp' : AllocAt P.heap bs' p k := (heff.allocAt p k).mpr (.inl ⟨hp, by simp⟩)
  have hq' : AllocAt P.heap bs' q size := (heff.allocAt q size).mpr (.inr rfl)
  have hcopy : Effect P s bs none (some (q, size)) { s' with mem := s'.mem.copy q p k } bs' :=
    heff.write fun x hx => ByteMem.copy_of_notMem _ (by omega)
  obtain ⟨s'', bs'', hfree, hdrop⟩ := kfree_effect hcopy.rep p
  refine .inr ⟨s', s'', q, hrun, hq.ne', ?_, .moved hp hlt hq hsize (hcopy.trans hdrop hne) ?_⟩
  · rw [heff.rep.size_of_allocAt hp' hblock]
    exact hfree
  · -- the two payloads do not overlap, and the old one is still as it was when it is copied
    intro i hi
    have hapart : q + size ≤ p ∨ p + k ≤ q := by
      rcases lt_or_gt_of_ne hne with hlow | hhigh
      · exact .inl (le_of_add_le_left (hq'.disjoint hp' hlow))
      · exact .inr (le_of_add_le_left (hp'.disjoint hq' hhigh))
    rw [hdrop.frame q size hq' (fun hcon => hne (some.inj hcon).symm) (q + i) (by omega) (by omega)]
    refine (ByteMem.copy_apply_dest _ (by omega) hi).trans ?_
    exact heff.frame p k hp (by simp) (p + i) (by omega) (by omega)

/-- **`krealloc` on a represented list.** -/
theorem krealloc_spec {p n : ℕ} (h : Rep P s bs) (hp0 : p ≠ 0) (hn0 : n ≠ 0) (hn : n < 2 ^ 64) :
    ∃ s' q, Heap.krealloc P s p n = some (s', q) ∧ KreallocOutcome P s bs p n s' q := by
  rw [Heap.krealloc, if_neg hp0, if_neg hn0, h.first_eq_link]
  have hsearch := findBlock_of_seg p h.seg P.heap_pos (by rw [h.extent_eq]) h.length_lt_fuel
  rcases hsearch with ⟨l, b, r, rfl, hq, hhit⟩ | ⟨-, hmiss⟩
  · rw [hhit]
    have hheader := h.header
    simp only [hheader.magic, hheader.size, ne_eq, not_true_eq_false, or_false]
    cases hfree : b.free with
    | true => exact ⟨s, 0, if_pos (hheader.free_ne_zero.mpr hfree), .null⟩
    | false =>
      rw [if_neg fun hz => absurd (hheader.free_ne_zero.mp hz) (by simp [hfree])]
      have hp : AllocAt P.heap (l ++ b :: r) p b.size := hq ▸ allocAt_self hfree
      by_cases hge : b.size ≥ n
      · exact ⟨s, p, if_pos hge, .kept hp hge⟩
      rw [if_neg hge]
      rcases krealloc_move h hp hq (by omega) hn with hrun | ⟨s', s'', q, hrun, hq0, hfree', hout⟩
      · exact ⟨s, 0, by simp [hrun], .null⟩
      · refine ⟨s'', q, ?_, hout⟩
        simp only [hrun, if_neg hq0, hfree', map_some]
  · rw [hmiss]
    exact ⟨s, 0, rfl, .null⟩

theorem krealloc_effect (h : Rep P s bs) (pointer size : UInt64) :
    ∃ s' q size' bs', Heap.krealloc P s pointer.toNat size.toNat = some (s', q) ∧
      (q ≠ 0 → size.toNat ≤ size') ∧
      Effect P s bs ((Call.krealloc pointer size).dropped q) (Call.added q size') s' bs' := by
  simp only [Call.dropped]
  by_cases hp0 : pointer.toNat = 0
  · simp only [Heap.krealloc, hp0, ne_eq, not_true_eq_false, false_and, if_false, if_true]
    exact kmalloc_effect h size.toNat_lt
  by_cases hs0 : size.toNat = 0
  · obtain ⟨s', bs', hfree, heff⟩ := kfree_effect h pointer.toNat
    refine ⟨s', 0, 0, bs', by rw [Heap.krealloc, if_neg hp0, if_pos hs0, hfree, map_some], by simp, ?_⟩
    rw [if_pos ⟨hp0, .inl hs0⟩]
    exact heff
  obtain ⟨s', q, hrun, hout⟩ := krealloc_spec h hp0 hs0 size.toNat_lt
  cases hout with
  | null =>
    refine ⟨_, 0, 0, bs, hrun, by simp, ?_⟩
    rw [if_neg fun hcon => hcon.2.elim hs0 fun hne => hne rfl]
    exact Effect.refl h
  | @kept k hp hge =>
    refine ⟨_, _, k, bs, hrun, fun _ => hge, ?_⟩
    rw [if_pos ⟨hp0, .inr hp0⟩, Call.added_of_pos (pos_of_ne_zero hp0)]
    refine ⟨h, rfl, fun q n => ?_, fun q n n' hadd hdrop => ?_, fun _ _ _ _ _ _ _ => rfl⟩
    · simp only [ne_eq, some.injEq, Prod.mk.injEq]
      constructor
      · intro hqn
        by_cases hqp : pointer.toNat = q
        · exact .inr ⟨hqp, hp.size_unique (hqp ▸ hqn)⟩
        · exact .inl ⟨hqn, hqp⟩
      · rintro (⟨hqn, -⟩ | ⟨rfl, rfl⟩)
        · exact hqn
        · exact hp
    · simp only [some.injEq, Prod.mk.injEq] at hadd
      exact absurd (congrArg some hadd.1) hdrop
  | @moved s' _ q size' bs' hp hlt hq hsize heff hbytes =>
    refine ⟨s', q, size', bs', hrun, fun _ => hsize, ?_⟩
    rw [if_pos ⟨hp0, .inr hq.ne'⟩, Call.added_of_pos hq]
    exact heff

/-- **Every call returns, and has an effect**: it drops the pointer it takes
from its client and adds a payload, at least as large as requested, at the
pointer it returns. -/
theorem Call.exists_effect (h : Rep P s bs) (c : Call) :
    ∃ s' q size bs', c.run P s = some (s', q) ∧ (q ≠ 0 → c.requested ≤ size) ∧
      Effect P s bs (c.dropped q) (Call.added q size) s' bs' := by
  cases c with
  | kmalloc size => exact kmalloc_effect h size.toNat_lt
  | kcalloc count size => exact kcalloc_effect h count size
  | krealloc pointer size => exact krealloc_effect h pointer size
  | kfree pointer =>
    obtain ⟨s', bs', hfree, heff⟩ := kfree_effect h pointer.toNat
    exact ⟨s', 0, 0, bs', by rw [Call.run, hfree, map_some], by simp, heff⟩

end Heap

end OS64
