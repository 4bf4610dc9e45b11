import OS64.Lib.Runs
import OS64.Tcp.Receive

/-!
# Opening a connection

`network_tcp_connect` sends a SYN and polls until the connection is established or over.
Of a SYN-ACK it asks only where it is from: the number it acknowledges is not compared with
the one that was sent, it is made the next one to send. Nor does `tcp_receive` ask whether
the connection is established before it takes data: the next number it waits for is 0
until then, and a segment with that number is queued.

A handshake goes as it should (`OS64.Tcp.Handshake`) exactly if the segments that arrive
before it is complete are of the right kind (`OS64.Tcp.handshake_iff`): a SYN-ACK of the peer
acknowledges the SYN, and none of the others continues the stream that has not begun.
-/

namespace OS64.Tcp

open List

/-! ### The waiting loop -/

/-- The sequence number of the SYN. -/
def initialSeq (ipId : UInt16) : UInt32 := 0x64000000 + ipId.toUInt32

/-- The connection when the SYN has been sent. The next hop has just been found, so sending it
does not poll. -/
def synSent (address : UInt32) (port ipId : UInt16) : State :=
  { networkTcpConnect address port ipId with localSeq := initialSeq ipId + 1 }

/-- The waiting loop of `network_tcp_connect`: whether it was cancelled, the segments it has
processed, and the state it leaves. -/
def awaitAnswer : State → List Round → Bool × List Segment × State
  | s, [] => (false, [], s)
  | s, round :: rounds =>
    if s.state ≠ 1 then (false, [], s)
    else match round with
      | .cancel => (true, [], s)
      | .poll segments =>
        let (cancelled, others, s') := awaitAnswer (poll s segments) rounds
        (cancelled, segments ++ others, s')

/-- What `network_tcp_connect` returns behind its SYN, the rounds of its waiting loop given. -/
def connectCode (address : UInt32) (port ipId : UInt16) (rounds : List Round) : ℤ :=
  match awaitAnswer (synSent address port ipId) rounds with
  | (true, _, _) => -6
  | (false, _, s) => if s.state ≠ 2 then if s.state = -2 then -5 else -4 else 1

/-- The segments that arrive meanwhile. -/
def arriving (address : UInt32) (port ipId : UInt16) (rounds : List Round) : List Segment :=
  (awaitAnswer (synSent address port ipId) rounds).2.1

theorem awaitAnswer_state : ∀ (rounds : List Round) (s : State),
    (awaitAnswer s rounds).2.2 = poll s (awaitAnswer s rounds).2.1
  | [], s => rfl
  | round :: rounds, s => by
    by_cases hstop : s.state ≠ 1
    · cases round <;> simp only [awaitAnswer, if_pos hstop, poll_nil]
    · cases round with
      | cancel => simp only [awaitAnswer, if_neg hstop, poll_nil]
      | poll segments =>
        simp only [awaitAnswer, if_neg hstop]
        exact (awaitAnswer_state rounds (poll s segments)).trans (poll_append ..).symm

/-! ### Handshakes -/

/-- The connection has not been established so far. -/
def Pending (s : State) (before : List Segment) : Prop :=
  ∀ first, first <+: before → (poll s first).state ≠ 2

/-- **A handshake as it should be**: the connection is established only by a SYN-ACK of the
peer for the SYN, nothing is queued before, and the next number to send is the one behind the SYN. -/
structure Handshake (address : UInt32) (port ipId : UInt16) (rounds : List Round) : Prop where
  answered : ∀ before g after, arriving address port ipId rounds = before ++ g :: after →
    (poll (synSent address port ipId) before).state ≠ 2 →
    (poll (synSent address port ipId) (before ++ [g])).state = 2 →
    g.source = address ∧ read16 g.bytes 0 = port ∧ isSynAck g.bytes = true ∧
      ack g.bytes = initialSeq ipId + 1
  quiet : ∀ before after, arriving address port ipId rounds = before ++ after →
    Pending (synSent address port ipId) before → (poll (synSent address port ipId) before).queue = []
  success : connectCode address port ipId rounds = 1 →
    (awaitAnswer (synSent address port ipId) rounds).2.2.localSeq = initialSeq ipId + 1

/-- A segment that may arrive in state `s`: if it answers the SYN it acknowledges it, and it
makes the connection accept no byte. -/
def Proper (next : UInt32) (s : State) (g : Segment) : Prop :=
  (Answers s g.bytes g.source → ack g.bytes = next) ∧ absorbed s g.bytes g.source = []

theorem pending_concat {s : State} {before : List Segment} {g : Segment} :
    Pending s (before ++ [g]) ↔ Pending s before ∧ (poll s (before ++ [g])).state ≠ 2 := by
  constructor
  · exact fun h => ⟨fun first hfirst => h first (hfirst.trans (prefix_append _ _)), h _ (prefix_refl _)⟩
  · rintro ⟨hbefore, hlast⟩ first hfirst
    rcases prefix_concat_iff.mp hfirst with rfl | hfirst
    · exact hlast
    · exact hbefore first hfirst

theorem poll_concat (s : State) (before : List Segment) (g : Segment) :
    poll s (before ++ [g]) = (tcpReceive (poll s before) g.bytes g.source).1 :=
  poll_append s before [g]

/-- What the answer to the SYN does. -/
theorem Answers.tcpReceive {s : State} {tcp : List UInt8} {source : UInt32} (h : Answers s tcp source) :
    (tcpReceive s tcp source).1.state = 2 ∧ (tcpReceive s tcp source).1.localSeq = ack tcp ∧
      (tcpReceive s tcp source).1.remoteIp = s.remoteIp ∧
      (tcpReceive s tcp source).1.remotePort = s.remotePort := by
  obtain ⟨hpeer, hrst, hsyn, hstate⟩ := h
  have hr := tcpReceive_receives s tcp source
  generalize (Tcp.tcpReceive s tcp source).1 = s' at hr
  cases hr with
  | foreign h => exact absurd (h.symm.trans hpeer) (by decide)
  | reset _ h => exact absurd (h.symm.trans hrst) (by decide)
  | established => exact ⟨rfl, rfl, rfl, rfl⟩
  | stored _ _ h => exact absurd ⟨hsyn, hstate⟩ h
  | stale _ _ h => exact absurd ⟨hsyn, hstate⟩ h
  | inOrder _ _ h => exact absurd ⟨hsyn, hstate⟩ h

/-- What has arrived so far was proper. -/
structure Awaiting (address : UInt32) (port ipId : UInt16) (before : List Segment) (s : State) : Prop where
  remoteIp : s.remoteIp = address
  remotePort : s.remotePort = port
  localSeq : s.localSeq = initialSeq ipId + 1
  quiet : Pending (synSent address port ipId) before → s.queue = []
  pending : s.state = 1 → Pending (synSent address port ipId) before

section

variable (address : UInt32) (port ipId : UInt16)

/-- **Proper segments** keep the connection in order, until it is established and then. -/
theorem awaiting_poll (before : List Segment)
    (h : Runs.Throughout (fun before g => Pending (synSent address port ipId) before →
      Proper (initialSeq ipId + 1) (poll (synSent address port ipId) before) g) before) :
    Awaiting address port ipId before (poll (synSent address port ipId) before) := by
  induction before using List.reverseRecOn with
  | nil =>
    refine ⟨rfl, rfl, rfl, fun _ => rfl, fun _ first hfirst => ?_⟩
    rw [prefix_nil.mp hfirst]
    exact show (1 : ℤ) ≠ 2 by decide
  | append_singleton before g ih =>
    obtain ⟨hbefore, hproper⟩ := Runs.throughout_concat.mp h
    have hs := ih hbefore
    rw [poll_concat]
    by_cases hanswers : Answers (poll (synSent address port ipId) before) g.bytes g.source
    · obtain ⟨hstate, hlocal, hip, hport⟩ := hanswers.tcpReceive
      have hack := (hproper (hs.pending hanswers.2.2.2)).1 hanswers
      refine ⟨hip.trans hs.remoteIp, hport.trans hs.remotePort, hlocal.trans hack, fun hpending => ?_, fun h1 => ?_⟩
      · exact absurd (poll_concat .. ▸ hstate) (pending_concat.mp hpending).2
      · exact absurd (hstate.symm.trans h1) (by decide)
    · obtain ⟨hrests, -⟩ := tcpReceive_rests hanswers
      refine ⟨hrests.remoteIp.trans hs.remoteIp, hrests.remotePort.trans hs.remotePort,
        hrests.localSeq.trans hs.localSeq, fun hpending => ?_, fun h1 => ?_⟩
      · have hempty := hs.quiet (pending_concat.mp hpending).1
        rw [queue_tcpReceive (by rw [hempty]; exact Nat.zero_le _), hempty, (hproper (pending_concat.mp hpending).1).2]
        rfl
      · refine pending_concat.mpr ⟨hs.pending (hrests.state_eq (by decide) h1), ?_⟩
        rw [poll_concat, h1]
        decide

/-- **When the handshake is as it should be**: as long as the connection is not established, every
SYN-ACK of the peer acknowledges the SYN, and no segment makes the connection accept a byte. -/
theorem handshake_iff (rounds : List Round) : Handshake address port ipId rounds ↔
    Runs.Throughout (fun before g => Pending (synSent address port ipId) before →
      Proper (initialSeq ipId + 1) (poll (synSent address port ipId) before) g)
      (arriving address port ipId rounds) := by
  constructor
  · intro h before g after hsplit hpending
    have hstate := hpending before (prefix_refl _)
    by_cases hanswers : Answers (poll (synSent address port ipId) before) g.bytes g.source
    · refine ⟨fun _ => (h.answered before g after hsplit hstate ?_).2.2.2, ?_⟩
      · rw [poll_concat]
        exact hanswers.tcpReceive.1
      · rw [absorbed, accepted, if_neg fun hand => hand.2.2.1 hanswers.2.2]
        rfl
    · -- the connection is still not established, so what is accepted now must be nothing
      refine ⟨fun h => absurd h hanswers, ?_⟩
      have hnext : Pending (synSent address port ipId) (before ++ [g]) := by
        refine pending_concat.mpr ⟨hpending, fun h2 => hstate ?_⟩
        rw [poll_concat] at h2
        exact (tcpReceive_rests hanswers).1.state_eq (by decide) h2
      have hempty := h.quiet before (g :: after) hsplit hpending
      have hqueue := h.quiet (before ++ [g]) after (by rw [hsplit, append_assoc]; rfl) hnext
      rw [poll_concat, queue_tcpReceive (by rw [hempty]; exact Nat.zero_le _), hempty, nil_append,
        take_eq_nil_iff] at hqueue
      exact hqueue.resolve_left (by decide)
  · intro h
    have hawait : ∀ before after, arriving address port ipId rounds = before ++ after →
        Awaiting address port ipId before (poll (synSent address port ipId) before) :=
      fun before after hsplit => awaiting_poll address port ipId before fun first g rest hfirst =>
        h first g (rest ++ after) (by rw [hsplit, hfirst, append_assoc, cons_append])
    refine ⟨fun before g after hsplit hstate h2 => ?_, fun before after hsplit => (hawait before after hsplit).quiet,
      fun _ => ?_⟩
    · have hs := hawait before (g :: after) hsplit
      rw [poll_concat] at h2
      have hanswers : Answers (poll (synSent address port ipId) before) g.bytes g.source := by
        by_contra hnot
        exact hstate ((tcpReceive_rests hnot).1.state_eq (by decide) h2)
      obtain ⟨hsource, -, -, hport, -⟩ := of_decide_eq_true hanswers.1
      exact ⟨hsource.trans hs.remoteIp, hport.trans hs.remotePort, hanswers.2.2.1,
        (h before g after hsplit (hs.pending hanswers.2.2.2)).1 hanswers⟩
    · rw [awaitAnswer_state]
      exact (hawait _ [] (append_nil _).symm).localSeq

end

/-- A SYN-ACK for another SYN, and a segment with data before any SYN-ACK. -/
theorem handshake_unchecked :
    let wrong : Segment := ⟨(fromServer 0x12 100 []).bytes.set 11 7, 0x0202000a⟩
    let early : Segment := fromServer 0x10 0 [65]
    initialSeq 0 = 0x64000000 ∧ ack wrong.bytes = 0x64000007 ∧
      connectCode 0x0202000a 80 0 [.poll [wrong]] = 1 ∧
      (awaitAnswer (synSent 0x0202000a 80 0) [.poll [wrong]]).2.2.localSeq = 0x64000007 ∧
      (poll (synSent 0x0202000a 80 0) [early]).state = 1 ∧
      (poll (synSent 0x0202000a 80 0) [early]).queue = [65] := by
  decide +kernel

end OS64.Tcp
