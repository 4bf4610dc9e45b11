import OS64.Tcp.Connect

/-!
# The receiver delivers the stream in order

The peer sends one byte stream `S`, with initial sequence number `I`: a segment
with sequence number `I + 1 + k` carries `S` from offset `k` on, and the FIN
comes after the last byte. The network may lose, duplicate, reorder and re-cut
the segments as it likes (`OS64.Tcp.Delivery` lists what a history may do), and
calls of `network_tcp_receive` may come at any point. As long as the queue does
not fill, what has been handed out, followed by what is queued, is the prefix
of `S` that the next expected sequence number stands for, if nothing was queued
when the SYN-ACK was accepted.

Segments that overtake the SYN-ACK are received as well, by a connection that
expects the sequence number 0. Data with this number is queued, and the SYN-ACK
then sets the number as if it were not. This is the one way in which a
connection comes to lose its place (`OS64.Tcp.delivers_in_order_iff`).

The invariant (`OS64.Tcp.InOrder`) has the fragment table in it: each stored
fragment is a piece of `S`, under the sequence number of its place. Sequence
numbers tell the offsets of a stream shorter than 2³¹ bytes apart, so a fragment
is drained only where it belongs; stale fragments, which lie behind, are never
drained at all.
-/

namespace OS64.Tcp

open List

/-! ### Segments of a stream -/

/-- The fragment is a piece of the stream `S` in its place, and has the FIN only
at the end of `S`. -/
def CutFrom (I : UInt32) (S : List UInt8) (f : Fragment) : Prop :=
  ∃ k, f.sequence = Serial.ofOffset (I + 1) k ∧ k + f.data.length ≤ S.length ∧
    f.data = Stream.slice S k f.data.length ∧ (f.fin = true → k + f.data.length = S.length)

/-- What a segment has in it, as a fragment. -/
def contents (tcp : List UInt8) : Fragment := ⟨seq tcp, hasFin tcp, payload tcp⟩

/-- A segment the peer may send once the connection is established: not a reset,
and its data, if it has data or FIN, cut from the stream. -/
def SegmentOf (I : UInt32) (S : List UInt8) (tcp : List UInt8) : Prop :=
  hasRst tcp = false ∧ ((payload tcp ≠ [] ∨ hasFin tcp = true) → CutFrom I S (contents tcp))

/-- The segment `g` arrives in state `s`: if it is the peer's it is one of the
stream, and the queue is not full afterwards. -/
def Arrives (I : UInt32) (S : List UInt8) (s : State) (g : Segment) : Prop :=
  (fromPeer s g.bytes g.source = true → SegmentOf I S g.bytes) ∧
    (tcpReceive s g.bytes g.source).1.queue.length < queueBytes

/-! ### Histories -/

/-- The histories of a connection whose peer sends the stream `S`, from the state `s₀` on
in which the SYN-ACK with sequence number `I` has left it: the state reached, and the
bytes handed out so far. -/
inductive Delivery (I : UInt32) (S : List UInt8) (s₀ : State) : State → List UInt8 → Prop
  | start : Delivery I S s₀ s₀ []
  /-- A segment arrives, whoever polls. -/
  | segment {s : State} {out : List UInt8} (run : Delivery I S s₀ s out) (g : Segment)
      (hg : Arrives I S s g) : Delivery I S s₀ (tcpReceive s g.bytes g.source).1 out
  /-- A call of `network_tcp_receive`, with the segments that arrive while it
  waits. -/
  | receive {s : State} {out : List UInt8} (run : Delivery I S s₀ s out) (capacity : ℕ)
      (rounds : List Round)
      (hg : Runs.Throughout (fun before g => Arrives I S (poll s before) g)
        (received s capacity rounds)) :
      Delivery I S s₀ (networkTcpReceive s capacity rounds).state
        (out ++ (networkTcpReceive s capacity rounds).data)

/-! ### The invariant -/

/-- The connection has delivered and queued the stream up to the sequence number
it expects next; after the FIN, all of it. -/
structure InOrder (I : UInt32) (S : List UInt8) (s : State) (out : List UInt8) : Prop where
  state : s.state = 2 ∨ s.state = 4
  remoteSeq : s.remoteSeq =
    Serial.ofOffset (I + 1) ((out ++ s.queue).length + if s.state = 4 then 1 else 0)
  stream : out ++ s.queue <+: S
  complete : s.state = 4 → out ++ s.queue = S
  fragments : ∀ i f, s.fragments i = some f → CutFrom I S f

variable {I : UInt32} {S : List UInt8} {s : State} {out : List UInt8}

/-- Only the queue, the expected sequence number, `tcp_state` and the fragments
matter. -/
theorem InOrder.of_eq {s' : State} (h : InOrder I S s out) (hstate : s'.state = s.state)
    (hseq : s'.remoteSeq = s.remoteSeq) (hqueue : s'.queue = s.queue)
    (hfragments : ∀ i f, s'.fragments i = some f → CutFrom I S f) : InOrder I S s' out := by
  refine ⟨?_, ?_, ?_, ?_, hfragments⟩
  · rw [hstate]
    exact h.state
  · rw [hseq, hstate, hqueue]
    exact h.remoteSeq
  · rw [hqueue]
    exact h.stream
  · rw [hstate, hqueue]
    exact h.complete

/-- A piece of the stream at the expected sequence number starts where the
queued bytes end, and the FIN has not been consumed. -/
theorem InOrder.next (hS : S.length < 2 ^ 31) (h : InOrder I S s out) {f : Fragment}
    (hf : CutFrom I S f) (hseq : f.sequence = s.remoteSeq) : s.state = 2 ∧
    (out ++ s.queue).length + f.data.length ≤ S.length ∧
    f.data = Stream.slice S (out ++ s.queue).length f.data.length ∧
    (f.fin = true → (out ++ s.queue).length + f.data.length = S.length) := by
  obtain ⟨k, hk, hle, hdata, hfin⟩ := hf
  have hlen := h.stream.length_le
  have hoffset : k = (out ++ s.queue).length + if s.state = 4 then 1 else 0 := by
    refine (Serial.ofOffset_inj (I + 1) (by omega) ?_).mp (hk.symm.trans (hseq.trans h.remoteSeq))
    split <;> omega
  rcases h.state with hstate | hstate
  · rw [if_neg (by rw [hstate]; decide), add_zero] at hoffset
    rw [← hoffset]
    exact ⟨hstate, hle, hdata, hfin⟩
  · -- after the FIN the expected sequence number is past the stream
    have hall := congrArg List.length (h.complete hstate)
    rw [if_pos hstate] at hoffset
    omega

/-- Consuming the piece of the stream that comes next keeps the invariant. -/
theorem InOrder.consume (hS : S.length < 2 ^ 31) (h : InOrder I S s out) {f : Fragment}
    (hf : CutFrom I S f) (hseq : f.sequence = s.remoteSeq)
    (hroom : (consume s f.data f.fin).queue.length < queueBytes) :
    InOrder I S (consume s f.data f.fin) out := by
  obtain ⟨hstate, hle, hdata, hfin⟩ := h.next hS hf hseq
  have hqueue : (Tcp.consume s f.data f.fin).queue = s.queue ++ f.data := by
    rw [consume_queue] at hroom ⊢
    rw [length_append, length_take] at hroom
    rw [take_of_length_le (by omega)]
  have hlen : (out ++ (s.queue ++ f.data)).length = (out ++ s.queue).length + f.data.length := by
    simp only [length_append, add_assoc]
  have htake : out ++ (s.queue ++ f.data) = S.take ((out ++ s.queue).length + f.data.length) := by
    rw [← append_assoc, ← Stream.take_append_slice, ← hdata, ← prefix_iff_eq_take.mp h.stream]
  have hnext : s.remoteSeq = Serial.ofOffset (I + 1) (out ++ s.queue).length := by
    rw [h.remoteSeq, if_neg (by rw [hstate]; decide), add_zero]
  refine ⟨?_, ?_, ?_, ?_, ?_⟩
  · rw [consume_state]
    split
    · exact .inr rfl
    · exact .inl hstate
  · rw [consume_remoteSeq, hnext, ← Serial.ofOffset_add, hqueue, hlen, advance, consume_state, hstate, add_assoc]
    cases f.fin <;> rfl
  · rw [hqueue, htake]
    exact take_prefix _ _
  · intro hclosed
    rw [consume_state] at hclosed
    split at hclosed
    · rename_i hf'
      rw [hqueue, htake, hfin hf', take_length]
    · rw [hstate] at hclosed
      cases hclosed
  · rw [consume_fragments]
    exact h.fragments

theorem length_queue_le_drainRounds : ∀ (n : ℕ) (s : State), s.queue.length ≤ (drainRounds n s).queue.length
  | 0, s => le_rfl
  | n + 1, s => by
    rcases hnext : nextFragment s.fragments s.remoteSeq with _ | ⟨i, f⟩
    · simp only [drainRounds, hnext, le_refl]
    · simp only [drainRounds, hnext]
      refine le_trans ?_ (length_queue_le_drainRounds n (drainOne s i f))
      rw [drainOne_queue, consume_queue, length_append]
      exact Nat.le_add_right _ _

theorem InOrder.drainRounds (hS : S.length < 2 ^ 31) : ∀ (n : ℕ) {s : State},
    InOrder I S s out → (drainRounds n s).queue.length < queueBytes →
    InOrder I S (drainRounds n s) out
  | 0, s, h, _ => h
  | n + 1, s, h, hroom => by
    rcases hnext : nextFragment s.fragments s.remoteSeq with _ | ⟨i, f⟩
    · simpa only [Tcp.drainRounds, hnext] using h
    · simp only [Tcp.drainRounds, hnext] at hroom ⊢
      obtain ⟨hslot, hseq⟩ := nextFragment_eq_some hnext
      have hle := length_queue_le_drainRounds n (drainOne s i f)
      rw [drainOne_queue] at hle
      have hconsumed := h.consume hS (h.fragments i f hslot) hseq (by omega)
      refine InOrder.drainRounds hS n ?_ hroom
      rw [drainOne_eq]
      refine hconsumed.of_eq rfl rfl rfl fun j g hj => ?_
      -- clearing a slot leaves pieces of the stream in the others
      by_cases hji : j = i
      · simp [hji] at hj
      · exact h.fragments j g (by simpa only [Function.update_of_ne hji] using hj)

/-- **One segment keeps the stream in order.** -/
theorem InOrder.tcpReceive (hS : S.length < 2 ^ 31) (h : InOrder I S s out) {g : Segment}
    (hg : Arrives I S s g) : InOrder I S (tcpReceive s g.bytes g.source).1 out := by
  obtain ⟨hcut, hroom⟩ := hg
  have hr := tcpReceive_receives s g.bytes g.source
  generalize (Tcp.tcpReceive s g.bytes g.source).1 = s' at hr hroom
  have hnoted : InOrder I S (noteAck s g.bytes) out := h.of_eq noteAck_state noteAck_remoteSeq noteAck_queue (by
      rw [noteAck_fragments]
      exact h.fragments)
  cases hr with
  | foreign hpeer => exact h
  | reset hpeer hrst => exact absurd (hrst.symm.trans (hcut hpeer).1) (by decide)
  | established hpeer hrst hsyn hstate =>
    rcases h.state with h2 | h4
    · exact absurd (hstate.symm.trans h2) (by decide)
    · exact absurd (hstate.symm.trans h4) (by decide)
  | stored hpeer hrst hsyn hdata hseq =>
    rcases tcpStoreFragment_cases (noteAck s g.bytes) (seq g.bytes) (payload g.bytes)
      (hasFin g.bytes) with he | ⟨i, he⟩
    · rw [he]
      exact hnoted
    · rw [he]
      refine hnoted.of_eq rfl rfl rfl fun j f hj => ?_
      by_cases hji : j = i
      · obtain rfl : contents g.bytes = f := by simpa [hji, contents] using hj
        exact (hcut hpeer).2 hdata
      · exact hnoted.fragments j f (by simpa only [Function.update_of_ne hji] using hj)
  | stale hpeer hrst hsyn hdata hseq => exact hnoted
  | inOrder hpeer hrst hsyn hseq =>
    have hle := length_queue_le_drainRounds 8
      (Tcp.consume (noteAck s g.bytes) (payload g.bytes) (hasFin g.bytes))
    refine InOrder.drainRounds hS 8 ?_ hroom
    by_cases hdata : payload g.bytes ≠ [] ∨ hasFin g.bytes = true
    · -- data in order: the segment is the next piece of the stream
      have hcut := (hcut hpeer).2 hdata
      have hnext : seq g.bytes = s.remoteSeq := by
        rcases hseq with ⟨hempty, hfin⟩ | hseq
        · rcases hdata with hdata | hdata
          · exact absurd hempty hdata
          · exact absurd (hfin.symm.trans hdata) (by decide)
        · exact hseq
      have hnext' : (contents g.bytes).sequence = (noteAck s g.bytes).remoteSeq := by
        rw [noteAck_remoteSeq]
        exact hnext
      exact hnoted.consume hS hcut hnext' (lt_of_le_of_lt hle hroom)
    · -- neither data nor FIN: nothing is consumed
      obtain ⟨hempty, hfin⟩ := not_or.mp hdata
      rw [not_not.mp hempty, Bool.eq_false_iff.mpr hfin, consume_nil]
      exact hnoted

/-! ### Every history -/

theorem Delivery.inOrder {s₀ : State} (hS : S.length < 2 ^ 31) (h₀ : InOrder I S s₀ []) (run : Delivery I S s₀ s out) :
    InOrder I S s out := by
  induction run with
  | start => exact h₀
  | segment _ g hg ih => exact ih.tcpReceive hS hg
  | @receive s out _ capacity rounds hg ih =>
    have hin : InOrder I S (poll s (received s capacity rounds)) out := by
      refine Runs.foldl_invariant (I := fun t => InOrder I S t out) ih (hg.mono fun before g hg hbefore => ?_)
      exact InOrder.tcpReceive hS hbefore hg
    obtain ⟨hqueue, hstate⟩ := networkTcpReceive_spec s capacity rounds
    -- handing out moves bytes from the queue to the output
    have hall : out ++ (networkTcpReceive s capacity rounds).data ++
        (networkTcpReceive s capacity rounds).state.queue =
        out ++ (poll s (received s capacity rounds)).queue := by
      rw [append_assoc, hqueue]
    rw [hstate]
    refine ⟨hin.state, ?_, ?_, ?_, hin.fragments⟩
    · rw [hall]
      exact hin.remoteSeq
    · rw [hall]
      exact hin.stream
    · rw [hall]
      exact hin.complete

/-- The bytes handed out and those queued are together the prefix of the stream that ends
at the expected sequence number (one less once the FIN is consumed), and the connection
counts as closed by the peer only when that is the whole stream. -/
def Delivered (I : UInt32) (S : List UInt8) (s : State) (out : List UInt8) : Prop :=
  ∃ r, r ≤ S.length ∧ out ++ s.queue = S.take r ∧
    (s.remoteSeq - (I + 1)).toNat = r + (if s.state = 4 then 1 else 0) ∧ (s.state = 4 → r = S.length)

theorem InOrder.delivered (hS : S.length < 2 ^ 31) (h : InOrder I S s out) : Delivered I S s out := by
  have hlen := h.stream.length_le
  refine ⟨(out ++ s.queue).length, hlen, prefix_iff_eq_take.mp h.stream, ?_, ?_⟩
  · have hsub := Serial.toNat_ofOffset_sub (I + 1)
      (i := (out ++ s.queue).length + if s.state = 4 then 1 else 0) (j := 0) (by decide)
    rw [Serial.ofOffset_zero, ← h.remoteSeq] at hsub
    rw [hsub]
    split <;> omega
  · intro hclosed
    rw [h.complete hclosed]

/-! ### Before the SYN-ACK -/

/-- The connection waits for the SYN-ACK: nothing is queued exactly if the segments were
`quiet`, and then the number 0 is expected and no fragment has it. -/
structure Waiting (I : UInt32) (S : List UInt8) (s : State) (quiet : Prop) : Prop where
  fragments : ∀ i f, s.fragments i = some f → CutFrom I S f
  queue : s.queue = [] ↔ quiet
  fresh : s.queue = [] → s.remoteSeq = 0 ∧ ∀ i f, s.fragments i = some f → f.sequence ≠ 0

variable {quiet : Prop}

theorem Waiting.of_queue {s' : State} (hqueue : s'.queue ≠ []) (hquiet : ¬quiet)
    (hfragments : ∀ i f, s'.fragments i = some f → CutFrom I S f) : Waiting I S s' quiet :=
  ⟨hfragments, iff_of_false hqueue hquiet, fun hno => absurd hno hqueue⟩

/-- Draining takes fragments out of their slots and leaves the others. -/
theorem fragments_drainRounds : ∀ (n : ℕ) (s : State) {i : Fin 8} {f : Fragment},
    (drainRounds n s).fragments i = some f → s.fragments i = some f
  | 0, s, i, f, h => h
  | n + 1, s, i, f, h => by
    rcases hnext : nextFragment s.fragments s.remoteSeq with _ | ⟨j, g⟩
    · simpa only [drainRounds, hnext] using h
    · simp only [drainRounds, hnext] at h
      have hslot := fragments_drainRounds n _ h
      rw [drainOne_fragments] at hslot
      by_cases hij : i = j
      · simp [hij] at hslot
      · rwa [Function.update_of_ne hij] at hslot

theorem state_drainRounds : ∀ (n : ℕ) (s : State), (drainRounds n s).state = 1 → s.state = 1
  | 0, s, h => h
  | n + 1, s, h => by
    rcases hnext : nextFragment s.fragments s.remoteSeq with _ | ⟨j, g⟩
    · simpa only [drainRounds, hnext] using h
    · simp only [drainRounds, hnext] at h
      have hone := state_drainRounds n _ h
      rw [drainOne_eq] at hone
      change (consume s g.data g.fin).state = 1 at hone
      rw [consume_state] at hone
      split at hone
      · exact absurd hone (by decide)
      · exact hone

/-- **One segment before the SYN-ACK**: it is quiet unless it has data under the number 0. -/
theorem Waiting.tcpReceive {g : Segment} (h : s.state = 1 → Waiting I S s quiet) (hg : Arrives I S s g)
    (hwaits : (tcpReceive s g.bytes g.source).1.state = 1) : Waiting I S (tcpReceive s g.bytes g.source).1
      (quiet ∧ (fromPeer s g.bytes g.source = true → seq g.bytes = 0 → payload g.bytes = [])) := by
  obtain ⟨hcut, -⟩ := hg
  have hr := tcpReceive_receives s g.bytes g.source
  generalize (Tcp.tcpReceive s g.bytes g.source).1 = s' at hr hwaits
  -- a segment with another number than the expected one
  have hother : s.state = 1 → seq g.bytes ≠ s.remoteSeq →
      (s.queue = [] ↔ quiet ∧ (fromPeer s g.bytes g.source = true → seq g.bytes = 0 → payload g.bytes = [])) := by
    intro hstate hseq
    rw [(h hstate).queue]
    refine ⟨fun hquiet => ⟨hquiet, fun _ hzero => ?_⟩, And.left⟩
    exact absurd (hzero.trans ((h hstate).fresh ((h hstate).queue.mpr hquiet)).1.symm) hseq
  cases hr with
  | foreign hpeer =>
    have hw := h hwaits
    refine ⟨hw.fragments, ?_, hw.fresh⟩
    rw [hw.queue, hpeer]
    exact ⟨fun hquiet => ⟨hquiet, fun hno => absurd hno Bool.false_ne_true⟩, And.left⟩
  | reset _ _ => exact absurd (show (-2 : ℤ) = 1 from hwaits) (by decide)
  | established _ _ _ _ => exact absurd (show (2 : ℤ) = 1 from hwaits) (by decide)
  | stored hpeer _ _ hdata hseq =>
    have hwaits' : s.state = 1 := by
      rcases tcpStoreFragment_cases (noteAck s g.bytes) (seq g.bytes) (payload g.bytes) (hasFin g.bytes) with
        he | ⟨i, he⟩
      · rw [he, noteAck_state] at hwaits
        exact hwaits
      · rw [he] at hwaits
        exact noteAck_state.symm.trans hwaits
    have hw := h hwaits'
    rcases tcpStoreFragment_cases (noteAck s g.bytes) (seq g.bytes) (payload g.bytes) (hasFin g.bytes) with
      he | ⟨i, he⟩
    · rw [he]
      refine ⟨?_, ?_, ?_⟩
      · rw [noteAck_fragments]
        exact hw.fragments
      · rw [noteAck_queue]
        exact hother hwaits' hseq
      · rw [noteAck_queue, noteAck_remoteSeq, noteAck_fragments]
        exact hw.fresh
    · rw [he]
      have hslot : ∀ j f, Function.update (noteAck s g.bytes).fragments i (some (contents g.bytes)) j = some f →
          f = contents g.bytes ∨ s.fragments j = some f := by
        intro j f hj
        by_cases hji : j = i
        · exact .inl (by simpa [hji] using hj.symm)
        · rw [Function.update_of_ne hji, noteAck_fragments] at hj
          exact .inr hj
      refine ⟨fun j f hj => ?_, ?_, fun hqueue => ?_⟩
      · rcases hslot j f hj with rfl | hj
        · exact (hcut hpeer).2 hdata
        · exact hw.fragments j f hj
      · change (noteAck s g.bytes).queue = [] ↔ _
        rw [noteAck_queue]
        exact hother hwaits' hseq
      · change (noteAck s g.bytes).queue = [] at hqueue
        rw [noteAck_queue] at hqueue
        obtain ⟨hzero, hfragments⟩ := hw.fresh hqueue
        refine ⟨noteAck_remoteSeq.trans hzero, fun j f hj => ?_⟩
        rcases hslot j f hj with rfl | hj
        · exact fun h0 => hseq (h0.trans hzero.symm)
        · exact hfragments j f hj
  | stale hpeer _ _ hdata hseq =>
    rw [noteAck_state] at hwaits
    have hw := h hwaits
    refine ⟨?_, ?_, ?_⟩
    · rw [noteAck_fragments]
      exact hw.fragments
    · rw [noteAck_queue]
      exact hother hwaits hseq
    · rw [noteAck_queue, noteAck_remoteSeq, noteAck_fragments]
      exact hw.fresh
  | inOrder hpeer _ _ hseq =>
    have hconsumed := state_drainRounds 8 _ hwaits
    rw [consume_state] at hconsumed
    split at hconsumed
    · exact absurd hconsumed (by decide)
    rename_i hfin
    rw [noteAck_state] at hconsumed
    have hw := h hconsumed
    have hfragments : ∀ i f, (tcpDrainFragments (consume (noteAck s g.bytes) (payload g.bytes)
        (hasFin g.bytes))).fragments i = some f → CutFrom I S f := by
      intro i f hf
      have hslot := fragments_drainRounds 8 _ hf
      rw [consume_fragments, noteAck_fragments] at hslot
      exact hw.fragments i f hslot
    have hle := length_queue_le_drainRounds 8 (consume (noteAck s g.bytes) (payload g.bytes) (hasFin g.bytes))
    rw [consume_queue, noteAck_queue, length_append] at hle
    by_cases hqueue : s.queue = []
    · obtain ⟨hzero, hnone⟩ := hw.fresh hqueue
      by_cases hdata : payload g.bytes = []
      · -- neither data nor FIN, and no fragment to drain
        have hnext : nextFragment (noteAck s g.bytes).fragments (noteAck s g.bytes).remoteSeq = none := by
          rw [Option.eq_none_iff_forall_not_mem]
          rintro ⟨i, f⟩ hmem
          obtain ⟨hslot, hf⟩ := nextFragment_eq_some hmem
          rw [noteAck_fragments] at hslot
          exact hnone i f hslot (hf.trans (noteAck_remoteSeq.trans hzero))
        rw [hdata, Bool.eq_false_iff.mpr hfin, consume_nil, tcpDrainFragments_of_none hnext]
        refine ⟨?_, ?_, ?_⟩
        · rw [noteAck_fragments]
          exact hw.fragments
        · rw [noteAck_queue, hw.queue]
          exact ⟨fun hquiet => ⟨hquiet, fun _ _ => rfl⟩, And.left⟩
        · rw [noteAck_queue, noteAck_remoteSeq, noteAck_fragments]
          exact hw.fresh
      · have hnumber : seq g.bytes = 0 := by
          rcases hseq with ⟨hempty, -⟩ | hseq
          · exact absurd hempty hdata
          · exact hseq.trans hzero
        refine .of_queue (fun hnil => ?_) (fun hno => hdata (hno.2 hpeer hnumber)) hfragments
        rw [tcpDrainFragments] at hnil
        rw [hnil, hqueue, length_nil, length_take, queueBytes] at hle
        have hpos := length_pos_of_ne_nil hdata
        omega
    · refine .of_queue (fun hnil => ?_) (fun hno => hqueue (hw.queue.mpr hno.1)) hfragments
      rw [tcpDrainFragments] at hnil
      rw [hnil, length_nil] at hle
      have hpos := length_pos_of_ne_nil hqueue
      omega

/-- The segments that overtake the SYN-ACK have no data under the number 0. -/
def Quiet (s₀ : State) : List Segment → Prop :=
  Runs.Throughout fun before e => fromPeer (poll s₀ before) e.bytes e.source = true → seq e.bytes = 0 → payload e.bytes = []

/-- **While the connection waits**, by induction on the segments. -/
theorem waiting_poll {address : UInt32} {port ipId : UInt16} {early : List Segment}
    (hearly : Runs.Throughout (fun before e => Arrives I S (poll (synSent address port ipId) before) e) early) :
    (poll (synSent address port ipId) early).state = 1 →
      Waiting I S (poll (synSent address port ipId) early) (Quiet (synSent address port ipId) early) := by
  induction early using List.reverseRecOn with
  | nil =>
    intro _
    exact ⟨fun i f hno => absurd hno (by simp [poll, synSent, networkTcpConnect]),
      iff_of_true rfl (Runs.throughout_nil _), fun _ => ⟨rfl, fun i f hno => absurd hno (by simp [poll, synSent, networkTcpConnect])⟩⟩
  | append_singleton early e ih =>
    obtain ⟨hearly, he⟩ := Runs.throughout_concat.mp hearly
    rw [poll_append, Quiet, Runs.throughout_concat]
    exact Waiting.tcpReceive (ih hearly) he

/-- **When the stream is delivered in order.** Segments of the stream arrive at a connection that
waits, then the SYN-ACK, and then the history goes on as it likes. What is handed out and queued is
always the beginning of the stream up to the expected sequence number, exactly if no segment
brought data under the number 0 before the SYN-ACK. -/
theorem delivers_in_order_iff {I : UInt32} {S : List UInt8} (hS : S.length < 2 ^ 31) (address : UInt32)
    (port ipId : UInt16) (early : List Segment) (g : Segment)
    (hearly : Runs.Throughout (fun before e => Arrives I S (poll (synSent address port ipId) before) e) early)
    (hwaits : (poll (synSent address port ipId) early).state = 1)
    (hpeer : fromPeer (poll (synSent address port ipId) early) g.bytes g.source = true)
    (hrst : hasRst g.bytes = false) (hsyn : isSynAck g.bytes = true) (hseq : seq g.bytes = I) :
    (∀ s out, Delivery I S (poll (synSent address port ipId) (early ++ [g])) s out → Delivered I S s out) ↔
      Quiet (synSent address port ipId) early := by
  have hw := waiting_poll hearly hwaits
  rw [← hw.queue, poll_append]
  generalize poll (synSent address port ipId) early = w at hw hwaits hpeer
  have hr := tcpReceive_receives w g.bytes g.source
  change (∀ s out, Delivery I S (tcpReceive w g.bytes g.source).1 s out → _) ↔ _
  generalize (tcpReceive w g.bytes g.source).1 = s₀ at hr
  cases hr with
  | foreign h => exact absurd (h.symm.trans hpeer) (by decide)
  | reset _ h => exact absurd (h.symm.trans hrst) (by decide)
  | stored _ _ h _ _ => exact absurd ⟨hsyn, hwaits⟩ h
  | stale _ _ h _ _ => exact absurd ⟨hsyn, hwaits⟩ h
  | inOrder _ _ h _ => exact absurd ⟨hsyn, hwaits⟩ h
  | established _ _ _ _ =>
    constructor
    · intro hall
      -- nothing has been consumed by the new count
      obtain ⟨r, -, hqueue, hcount, -⟩ := hall _ _ .start
      rw [if_neg (show (2 : ℤ) ≠ 4 by decide), hseq, UInt32.sub_self] at hcount
      have hnone : r = 0 := hcount.symm
      rw [hnone] at hqueue
      exact hqueue
    · intro hqueue s out run
      have h₀ : InOrder I S
          { w with remoteSeq := seq g.bytes + 1, localSeq := ack g.bytes, lastAck := ack g.bytes, state := 2 }
          [] := by
        refine ⟨.inl rfl, ?_, ?_, fun h4 => absurd (show (2 : ℤ) = 4 from h4) (by decide), hw.fragments⟩
        · simp [hqueue, hseq]
        · simp [hqueue]
      exact (run.inOrder hS h₀).delivered hS

/-- The last byte and the FIN come before the SYN-ACK, and again with the rest behind it. -/
theorem delivered_reordered : Delivered 100 [1, 2, 3]
    (poll (synSent 0x0202000a 80 0) [fromServer 0x11 103 [3], fromServer 0x12 100 [], fromServer 0x10 101 [1, 2]]) [] := by
  have hall := (delivers_in_order_iff (I := 100) (S := [1, 2, 3]) (by decide) 0x0202000a 80 0
    [fromServer 0x11 103 [3]] (fromServer 0x12 100 [])
    (by
      rintro before e after hsplit
      obtain ⟨rfl, he⟩ := append_eq_singleton_iff.mp hsplit.symm |>.resolve_right (by simp)
      obtain ⟨rfl, -⟩ := cons.inj he
      exact ⟨fun _ => ⟨by decide, fun _ => ⟨2, by decide, by decide, by decide, by decide⟩⟩, by decide +kernel⟩)
    (by decide +kernel) (by decide +kernel) (by decide) (by decide) (by decide)).mpr (by
      rintro before e after hsplit
      obtain ⟨rfl, he⟩ := append_eq_singleton_iff.mp hsplit.symm |>.resolve_right (by simp)
      obtain ⟨rfl, -⟩ := cons.inj he
      exact fun _ hzero => absurd hzero (by decide))
  exact hall _ _ (Delivery.start.segment (fromServer 0x10 101 [1, 2])
    ⟨fun _ => ⟨by decide, fun _ => ⟨0, by decide, by decide, by decide, by decide⟩⟩, by decide +kernel⟩)

/-- A SYN-ACK with the last sequence number. -/
def lastNumber : Segment where
  bytes := [0, 80, 192, 0, 255, 255, 255, 255, 100, 0, 0, 1, 0x50, 0x12, 16, 0, 0, 0, 0, 0]
  source := 0x0202000a

/-- **The first byte overtakes the SYN-ACK** with the last sequence number, so that its own is 0: it is
queued, and then expected once more. -/
theorem not_delivered_of_overtaken :
    Arrives (-1) [1] (synSent 0x0202000a 80 0) (fromServer 0x10 0 [1]) ∧ isSynAck lastNumber.bytes = true ∧
      seq lastNumber.bytes = -1 ∧
      let s := poll (synSent 0x0202000a 80 0) [fromServer 0x10 0 [1], lastNumber]
      s.state = 2 ∧ s.queue = [1] ∧ s.remoteSeq = 0 ∧ ¬Delivered (-1) [1] s [] := by
  refine ⟨⟨fun _ => ⟨by decide, fun _ => ⟨0, by decide, by decide, by decide, by decide⟩⟩, by decide +kernel⟩,
    by decide, by decide, ?_⟩
  intro s
  have hstate : s.state = 2 := by decide +kernel
  have hqueue : s.queue = [1] := by decide +kernel
  have hseq : s.remoteSeq = 0 := by decide +kernel
  refine ⟨hstate, hqueue, hseq, ?_⟩
  rintro ⟨r, -, htake, hcount, -⟩
  rw [hstate, hseq, if_neg (by decide)] at hcount
  obtain rfl : r = 0 := hcount.symm
  rw [hqueue] at htake
  exact absurd htake (by decide)

end OS64.Tcp
