import OS64.Lib.Runs
import OS64.Tcp.Receive

/-!
# Acknowledged bytes and delivered bytes

A ledger beside the connection: the bytes handed out by `network_tcp_receive`,
and the bytes the connection has acknowledged, that is all the data by which
`tcp_append` has moved `tcp_remote_seq`. The stream is *intact* when what was
handed out, followed by what is queued, is what was acknowledged.

`tcp_append` queues what fits and counts everything. So the stream stays intact
exactly as long as every segment finds room for what it makes the connection
accept, its own data and the stored fragments after it; and a byte that is lost
once is never made up for. Both directions are `OS64.Tcp.intact_run_iff`. The
window OS64 advertises is a constant, and a peer that keeps to it can fill the
queue while nobody reads (`OS64.Tcp.not_intact_of_flood`).
-/

namespace OS64.Tcp

open List

/-- A connection with its ledger. -/
structure Ledger where
  state : State
  /-- What `network_tcp_receive` has returned. -/
  out : List UInt8
  /-- What `tcp_remote_seq` has been moved over. -/
  acknowledged : List UInt8

/-- Every acknowledged byte has been handed out or is queued. -/
def Ledger.Intact (l : Ledger) : Prop := l.out ++ l.state.queue = l.acknowledged

/-! ### Runs -/

/-- What happens to the connection. -/
inductive Event
  /-- Whoever polls finds this segment. -/
  | segment (g : Segment)
  /-- `network_tcp_receive` is called. -/
  | receive (capacity : ℕ) (rounds : List Round)

/-- The ledger after a segment. -/
def Ledger.arrive (l : Ledger) (g : Segment) : Ledger where
  state := (tcpReceive l.state g.bytes g.source).1
  out := l.out
  acknowledged := l.acknowledged ++ absorbed l.state g.bytes g.source

/-- The segments an event processes. -/
def Event.segments (s : State) : Event → List Segment
  | .segment g => [g]
  | .receive capacity rounds => received s capacity rounds

/-- The ledger after an event. -/
def Ledger.step (l : Ledger) (e : Event) : Ledger :=
  match e with
  | .segment g => l.arrive g
  | .receive capacity rounds =>
    { state := (networkTcpReceive l.state capacity rounds).state
      out := l.out ++ (networkTcpReceive l.state capacity rounds).data
      acknowledged := ((e.segments l.state).foldl Ledger.arrive l).acknowledged }

/-- The ledger after a sequence of events. -/
def Ledger.run (l : Ledger) (events : List Event) : Ledger := events.foldl Ledger.step l

/-! ### Room -/

/-- The queue has room for all that the segment makes the connection accept. -/
def HasRoom (s : State) (g : Segment) : Prop :=
  s.queue.length + (absorbed s g.bytes g.source).length ≤ queueBytes

/-- The ledger of a connection that is being opened. -/
def Ledger.opened (address : UInt32) (port ipId : UInt16) : Ledger :=
  ⟨networkTcpConnect address port ipId, [], []⟩

/-- Every segment of the run finds room, in the state in which it arrives. -/
def Ledger.RoomThroughout (l : Ledger) (events : List Event) : Prop :=
  Runs.Throughout (fun before e =>
    Runs.Throughout (fun gs g => HasRoom (poll (l.run before).state gs) g)
      (e.segments (l.run before).state)) events

/-! ### One segment -/

/-- What holds of every ledger: the queue is within its bounds, and no more has
been delivered than acknowledged. -/
structure Ledger.Bounded (l : Ledger) : Prop where
  queue : l.state.queue.length ≤ queueBytes
  delivered : (l.out ++ l.state.queue).length ≤ l.acknowledged.length

variable {l : Ledger}

theorem Ledger.Bounded.length_arrive (h : l.Bounded) (g : Segment) :
    ((l.arrive g).out ++ (l.arrive g).state.queue).length = l.out.length +
      min queueBytes (l.state.queue.length + (absorbed l.state g.bytes g.source).length) := by
  simp only [Ledger.arrive, queue_tcpReceive h.queue, length_append, length_take]

theorem Ledger.Bounded.arrive (h : l.Bounded) (g : Segment) : (l.arrive g).Bounded := by
  have hdelivered := h.delivered
  refine ⟨?_, ?_⟩
  · simp only [Ledger.arrive, queue_tcpReceive h.queue]
    exact length_take_le _ _
  · rw [h.length_arrive g]
    simp only [Ledger.arrive, length_append] at hdelivered ⊢
    omega

/-- **A segment keeps the stream intact exactly if there is room for what it
makes the connection accept.** -/
theorem Ledger.Bounded.intact_arrive_iff (h : l.Bounded) (g : Segment) :
    (l.arrive g).Intact ↔ l.Intact ∧ HasRoom l.state g := by
  constructor
  · intro hintact
    -- a byte missing before, or cut off now, is missing from the total
    have hlen := congrArg length hintact
    have hdelivered := h.delivered
    rw [h.length_arrive g] at hlen
    simp only [Ledger.arrive, length_append] at hlen hdelivered
    have hroom : HasRoom l.state g := by
      rw [HasRoom]
      omega
    refine ⟨?_, hroom⟩
    rw [Ledger.Intact] at hintact
    simp only [Ledger.arrive, queue_tcpReceive h.queue] at hintact
    rw [take_of_length_le (by rwa [length_append]), ← append_assoc] at hintact
    exact append_cancel_right hintact
  · rintro ⟨hintact, hroom⟩
    rw [Ledger.Intact]
    simp only [Ledger.arrive, queue_tcpReceive h.queue]
    rw [take_of_length_le (by rwa [length_append]), ← append_assoc, hintact]

/-! ### Several segments -/

theorem Ledger.arrive_state (gs : List Segment) : ∀ l : Ledger, (gs.foldl Ledger.arrive l).state = poll l.state gs := by
  induction gs with
  | nil => exact fun l => rfl
  | cons g gs ih => exact fun l => ih (l.arrive g)

theorem Ledger.arrive_out (gs : List Segment) : ∀ l : Ledger, (gs.foldl Ledger.arrive l).out = l.out := by
  induction gs with
  | nil => exact fun l => rfl
  | cons g gs ih => exact fun l => ih (l.arrive g)

/-- Segments keep the bounds, and keep the stream intact exactly if each finds
room. -/
theorem Ledger.Bounded.foldl_arrive (h : l.Bounded) (gs : List Segment) :
    (gs.foldl Ledger.arrive l).Bounded ∧ ((gs.foldl Ledger.arrive l).Intact ↔ l.Intact ∧
      Runs.Throughout (fun before g => HasRoom (poll l.state before) g) gs) := by
  induction gs using reverseRecOn with
  | nil => simp [h]
  | append_singleton gs g ih =>
    obtain ⟨hbounded, hintact⟩ := ih
    rw [foldl_append, foldl_cons, foldl_nil]
    refine ⟨hbounded.arrive g, ?_⟩
    rw [hbounded.intact_arrive_iff g, hintact, Ledger.arrive_state, Runs.throughout_concat, and_assoc]

/-! ### Whole runs -/

/-- An event leaves what its segments leave, but for the bytes that move from
the queue to the caller. -/
theorem Ledger.step_spec (l : Ledger) (e : Event) :
    (l.step e).out ++ (l.step e).state.queue =
      ((e.segments l.state).foldl Ledger.arrive l).out ++ ((e.segments l.state).foldl Ledger.arrive l).state.queue ∧
    (l.step e).state.queue.length ≤ ((e.segments l.state).foldl Ledger.arrive l).state.queue.length ∧
    (l.step e).acknowledged = ((e.segments l.state).foldl Ledger.arrive l).acknowledged := by
  cases e with
  | segment g => exact ⟨rfl, le_rfl, rfl⟩
  | receive capacity rounds =>
    have hqueue := (networkTcpReceive_spec l.state capacity rounds).1
    rw [Ledger.arrive_out, Ledger.arrive_state, Event.segments, ← hqueue, ← append_assoc]
    refine ⟨rfl, ?_, rfl⟩
    rw [length_append]
    exact Nat.le_add_left _ _

theorem Ledger.Bounded.step (h : l.Bounded) (e : Event) : (l.step e).Bounded ∧
    ((l.step e).Intact ↔ l.Intact ∧
      Runs.Throughout (fun gs g => HasRoom (poll l.state gs) g) (e.segments l.state)) := by
  obtain ⟨hbounded, hintact⟩ := h.foldl_arrive (e.segments l.state)
  obtain ⟨hout, hqueue, hack⟩ := l.step_spec e
  refine ⟨⟨hqueue.trans hbounded.queue, ?_⟩, ?_⟩
  · rw [hout, hack]
    exact hbounded.delivered
  · rw [Ledger.Intact, hout, hack]
    exact hintact

theorem Ledger.Bounded.run (h : l.Bounded) (events : List Event) : (l.run events).Bounded ∧
    ((l.run events).Intact ↔ l.Intact ∧ l.RoomThroughout events) := by
  induction events using reverseRecOn with
  | nil => simp [Ledger.run, Ledger.RoomThroughout, h]
  | append_singleton events e ih =>
    obtain ⟨hbounded, hintact⟩ := ih
    have hrun : l.run (events ++ [e]) = (l.run events).step e := foldl_append ..
    obtain ⟨hbounded', hintact'⟩ := hbounded.step e
    rw [hrun]
    refine ⟨hbounded', ?_⟩
    rw [hintact', hintact, Ledger.RoomThroughout, Ledger.RoomThroughout, Runs.throughout_concat, and_assoc]

/-- **The stream is intact exactly as long as every segment finds room**, over
every sequence of segments and calls of `network_tcp_receive`: each acknowledged
byte is handed out or queued if, and only if, no segment has made the connection
accept more than the queue had room for. -/
theorem intact_run_iff (address : UInt32) (port ipId : UInt16) (events : List Event) :
    ((Ledger.opened address port ipId).run events).Intact ↔
      (Ledger.opened address port ipId).RoomThroughout events := by
  have hbounded : (Ledger.opened address port ipId).Bounded := ⟨Nat.zero_le _, Nat.zero_le _⟩
  rw [(hbounded.run events).2]
  exact and_iff_right rfl

/-! ### A peer that fills the queue -/

/-- With nothing in the fragment table, data in order is appended and that is
all. -/
theorem tcpReceive_of_empty {s : State} {tcp : List UInt8} {source : UInt32}
    (hpeer : fromPeer s tcp source = true) (hrst : hasRst tcp = false)
    (hsyn : isSynAck tcp = false) (hfin : hasFin tcp = false) (hseq : seq tcp = s.remoteSeq)
    (hempty : s.fragments = fun _ => none) :
    (tcpReceive s tcp source).1 = tcpAppend (noteAck s tcp) (payload tcp) ∧ absorbed s tcp source = payload tcp := by
  have hsyn' : ¬(isSynAck tcp = true ∧ s.state = 1) := by
    rw [hsyn]
    exact fun h => Bool.false_ne_true h.1
  have hnone : ∀ next, nextFragment (fun _ => none) next = none := fun _ => rfl
  refine ⟨?_, ?_⟩
  · have hr := tcpReceive_receives s tcp source
    generalize (tcpReceive s tcp source).1 = s' at hr
    cases hr with
    | foreign h => exact absurd (h.symm.trans hpeer) Bool.false_ne_true
    | reset _ h => exact absurd (hrst.symm.trans h) Bool.false_ne_true
    | established _ _ h _ => exact absurd (hsyn.symm.trans h) Bool.false_ne_true
    | stored _ _ _ _ h => exact absurd hseq h
    | stale _ _ _ _ h => exact absurd hseq h
    | inOrder _ _ _ _ =>
      rw [tcpDrainFragments_of_none]
      · rw [hfin, consume, if_neg Bool.false_ne_true]
      · rw [consume_fragments, noteAck_fragments, hempty]
        exact hnone _
  · rw [absorbed, accepted, if_pos ⟨hpeer, hrst, hsyn', .inr hseq⟩, hempty]
    simp only [chain, hnone, bytesOf, flatMap_cons, flatMap_nil, append_nil]

/-- The SYN-ACK, then full segments in order, and nobody reads. -/
def flood : ℕ → List Event
  | 0 => [.segment (fromServer 0x12 100 [])]
  | n + 1 => flood n ++ [.segment (fromServer 0x10 (101 + 1460 * n) (replicate 1460 0))]

/-- The segments of the flood are all in order. -/
theorem flood_segment : ∀ n < 23,
    let g := fromServer 0x10 (101 + 1460 * n) (replicate 1460 0)
    fromPeer opened g.bytes g.source = true ∧ seq g.bytes = UInt32.ofNat (101 + 1460 * n) := by
  decide +kernel

/-- What the flood leads to: a connection that has acknowledged every byte of
it. -/
structure Flooded (n : ℕ) (l : Ledger) : Prop where
  peer : fromPeer l.state = fromPeer opened
  remoteSeq : l.state.remoteSeq = UInt32.ofNat (101 + 1460 * n)
  fragments : l.state.fragments = fun _ => none
  bounded : l.Bounded
  out : l.out = []
  acknowledged : l.acknowledged.length = 1460 * n

theorem Flooded.arrive {n : ℕ} (h : Flooded n l) (hn : n < 23) :
    Flooded (n + 1) (l.arrive (fromServer 0x10 (101 + 1460 * n) (replicate 1460 0))) := by
  obtain ⟨hpeer, hseq⟩ := flood_segment n hn
  rw [← h.peer] at hpeer
  generalize hg : fromServer 0x10 (101 + 1460 * n) (replicate 1460 0) = g at hpeer hseq
  have hflags : hasRst g.bytes = false ∧ isSynAck g.bytes = false ∧ hasFin g.bytes = false := by
    rw [hasRst, isSynAck, hasFin, ← hg, flags_fromServer]
    decide
  have hdata : (payload g.bytes).length = 1460 := by
    rw [← hg, payload_fromServer, length_replicate]
  obtain ⟨hstate, habsorbed⟩ := tcpReceive_of_empty hpeer hflags.1 hflags.2.1 hflags.2.2
    (hseq.trans h.remoteSeq.symm) h.fragments
  refine ⟨?_, ?_, ?_, h.bounded.arrive g, h.out, ?_⟩
  · rw [← h.peer]
    simp only [Ledger.arrive, hstate, tcpAppend, noteAck]
    split <;> rfl
  · simp only [Ledger.arrive, hstate, tcpAppend, noteAck_remoteSeq, h.remoteSeq, hdata]
    rw [← UInt32.ofNat_add, Nat.mul_succ, add_assoc]
  · simp only [Ledger.arrive, hstate, tcpAppend, noteAck_fragments, h.fragments]
  · simp only [Ledger.arrive, length_append, habsorbed, hdata, h.acknowledged, Nat.mul_succ]

theorem flooded_run : ∀ n ≤ 23, Flooded n ((Ledger.opened 0x0202000a 80 0).run (flood n))
  | 0, _ => ⟨rfl, by decide, rfl, ⟨by decide, by decide⟩, rfl, by decide⟩
  | n + 1, hn => by
    have hrun : (Ledger.opened 0x0202000a 80 0).run (flood (n + 1)) =
        ((Ledger.opened 0x0202000a 80 0).run (flood n)).arrive
          (fromServer 0x10 (101 + 1460 * n) (replicate 1460 0)) := foldl_append ..
    rw [hrun]
    exact (flooded_run n (Nat.le_of_succ_le hn)).arrive hn

/-- **A peer can make OS64 acknowledge bytes it drops**: after the SYN-ACK and
23 full segments in order that nobody reads, 33580 bytes are acknowledged and at
most 32768 can ever be handed out. -/
theorem not_intact_of_flood : ¬((Ledger.opened 0x0202000a 80 0).run (flood 23)).Intact := by
  intro hintact
  have h := flooded_run 23 le_rfl
  have hlen := congrArg length hintact
  have hqueue : _ ≤ 32768 := h.bounded.queue
  rw [h.out, nil_append, h.acknowledged] at hlen
  omega

end OS64.Tcp
