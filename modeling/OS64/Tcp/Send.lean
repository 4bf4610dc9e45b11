import OS64.Tcp.Receive

/-!
# The sender, the network and the peer

`network_tcp_send` cuts the caller's bytes into chunks of at most 1400, sends
each up to three times, and waits after every transmission for an
acknowledgement that covers it. While it waits (and while `tcp_send` resolves
the next hop) the network is polled, `tcp_receive` runs, overwrites
`tcp_last_ack` with whatever acknowledgement it sees, and sends acknowledgements
of its own with the same `tcp_local_seq`.

The program is `OS64.Tcp.Sender.step`, one step for each thing it asks of its
surroundings. Around it stand the network and a peer (`OS64.Tcp.System`). The
network is the list of all segments ever put on the wire: the peer may take any
of them at any time, as often as it likes, which is loss, duplication and
reordering at once. The peer takes bytes in order, from any segment that has the
one it needs next, and its acknowledgements, which may be delayed and reordered
in the same way, cover only what it has taken.

`OS64.Tcp.System.sends_stream` is the result: every segment carries the bytes
that belong at its sequence number, and when `network_tcp_send` returns 1 the
peer has the whole payload.
-/

namespace OS64.Tcp

open List Option

/-! ### The program -/

variable {answered : Bool} {g : Segment} {s : State}

/-- A segment OS64 sends: the fields `tcp_send` fills in. -/
structure Packet where
  flags : UInt8
  seq : UInt32
  ack : UInt32
  data : List UInt8

variable {packets : List Packet}

/-- The segment `tcp_send` builds; it refuses more than 1400 bytes. -/
def tcpSend (s : State) (flags : UInt8) (data : List UInt8) : Option Packet :=
  if data.length > 1400 then none else some ⟨flags, s.localSeq, s.remoteSeq, data⟩

/-- Where `network_tcp_send` stands, with its local variables. -/
inductive Pc
  /-- At the test of the outer loop. -/
  | top (sent : ℕ)
  /-- At the test of the loop over the attempts. -/
  | attempting (sent : ℕ) (start : UInt32) (attempt : ℕ)
  /-- In `tcp_send`, where the next hop is being resolved. -/
  | sending (sent : ℕ) (start : UInt32) (attempt : ℕ)
  /-- At the test of the waiting loop. -/
  | waiting (sent : ℕ) (start : UInt32) (attempt wait : ℕ)
  /-- In the `network_poll` of the waiting loop. -/
  | polling (sent : ℕ) (start : UInt32) (attempt wait : ℕ)
  /-- Returned. -/
  | done (code : ℤ)
  deriving DecidableEq

/-- What the program meets. -/
inductive Input
  /-- Nothing: the next statement runs. -/
  | run
  /-- `process_cancel_requested` says yes. -/
  | cancel
  /-- A poll takes a segment from the device; `answered` says whether the
  acknowledgement `tcp_receive` sends for it gets out. -/
  | segment (g : Segment) (answered : Bool)
  /-- `tcp_send` gets its frame out. -/
  | sent
  /-- `tcp_send` returns 0. -/
  | failed

/-- The connection and the program. -/
structure Sender where
  tcp : State
  pc : Pc

variable {c' : Sender}

/-- The bytes of the chunk at offset `sent`. -/
def chunk (data : List UInt8) (sent : ℕ) : List UInt8 := Stream.slice data sent (min 1400 (data.length - sent))

/-- `expected` for the chunk at offset `sent`. -/
def expected (data : List UInt8) (sent : ℕ) (start : UInt32) : UInt32 :=
  start + UInt32.ofNat (chunk data sent).length

/-- The flags of the chunk: PSH on the last one. -/
def chunkFlags (data : List UInt8) (sent : ℕ) : UInt8 :=
  if sent + (chunk data sent).length = data.length then 0x18 else 0x10

/-- A segment that a poll finds: the connection afterwards, and the
acknowledgement if one gets out. -/
def pollSegment (s : State) (g : Segment) (answered : Bool) : State × List Packet :=
  let (s, answers) := tcpReceive s g.bytes g.source
  (s, if answers && answered then (tcpSend s 0x10 []).toList else [])

/-- `network_tcp_send` for the bytes `data` up to its first loop. -/
def networkTcpSend (s : State) (data : List UInt8) : Sender :=
  if s.state ≠ 2 ∨ data = [] then ⟨s, .done (-1)⟩ else ⟨s, .top 0⟩

/-- One step of `network_tcp_send`: the program afterwards and the segments it
puts on the wire, or `none` if it does not meet this input here. -/
def Sender.step (data : List UInt8) (spins : ℕ) (c : Sender) (input : Input) :
    Option (Sender × List Packet) :=
  match c.pc, input with
  | .top sent, .run =>
    if sent < data.length then some (⟨c.tcp, .attempting sent c.tcp.localSeq 0⟩, [])
    else some (⟨c.tcp, .done 1⟩, [])
  | .attempting sent start attempt, .run =>
    if attempt < 3 then some (⟨{ c.tcp with localSeq := start }, .sending sent start attempt⟩, [])
    else some (⟨c.tcp, .done (-2)⟩, [])
  | .sending sent start attempt, .segment g answered =>
    let (s, packets) := pollSegment c.tcp g answered
    some (⟨s, .sending sent start attempt⟩, packets)
  | .sending _ _ _, .failed => some (⟨c.tcp, .done (-2)⟩, [])
  | .sending sent start attempt, .sent =>
    match tcpSend c.tcp (chunkFlags data sent) (chunk data sent) with
    | some packet =>
      some (⟨{ c.tcp with localSeq := expected data sent start }, .waiting sent start attempt 0⟩,
        [packet])
    | none => none
  | .waiting sent start attempt wait, .run =>
    if wait < spins ∧ c.tcp.state = 2 then some (⟨c.tcp, .polling sent start attempt wait⟩, [])
    else some (⟨c.tcp, .attempting sent start (attempt + 1)⟩, [])
  | .waiting _ _ _ wait, .cancel =>
    if wait < spins ∧ c.tcp.state = 2 then some (⟨c.tcp, .done (-3)⟩, []) else none
  | .polling sent start attempt wait, .segment g answered =>
    let (s, packets) := pollSegment c.tcp g answered
    some (⟨s, .polling sent start attempt wait⟩, packets)
  | .polling sent start attempt wait, .run =>
    if 0 ≤ Serial.signed (c.tcp.lastAck - expected data sent start) then
      some (⟨c.tcp, .top (sent + (chunk data sent).length)⟩, [])
    else some (⟨c.tcp, .waiting sent start attempt (wait + 1)⟩, [])
  | _, _ => none

/-! ### The network and the peer -/

/-- The program, all segments ever sent, and the bytes the peer has received in
order. -/
structure System where
  sender : Sender
  wire : List Packet
  received : List UInt8

/-- The peer's acknowledgements cover only bytes it has received: the segment,
if it is the peer's and acknowledges at all, acknowledges a part of the
`received` bytes, which start at the sequence number `origin`. -/
def AcksReceived (origin : UInt32) (sys : System) (g : Segment) : Prop :=
  fromPeer sys.sender.tcp g.bytes g.source = true → hasAck g.bytes = true →
    ∃ r ≤ sys.received.length, ack g.bytes = Serial.ofOffset origin r

/-- The steps of the system. -/
inductive System.Step (origin : UInt32) (data : List UInt8) (spins : ℕ) : System → System → Prop
  /-- The program moves, meeting no segment. -/
  | program {sys : System} (input : Input) {c : Sender} {packets : List Packet}
      (hinput : ∀ g answered, input ≠ .segment g answered)
      (h : sys.sender.step data spins input = some (c, packets)) :
      Step origin data spins sys ⟨c, sys.wire ++ packets, sys.received⟩
  /-- A poll of the program finds a segment. -/
  | segment {sys : System} (g : Segment) (answered : Bool) {c : Sender} {packets : List Packet}
      (hack : AcksReceived origin sys g)
      (h : sys.sender.step data spins (.segment g answered) = some (c, packets)) :
      Step origin data spins sys ⟨c, sys.wire ++ packets, sys.received⟩
  /-- The peer takes the byte it needs next from a segment that has it. -/
  | peer {sys : System} (p : Packet) (j : ℕ) (b : UInt8) (hp : p ∈ sys.wire)
      (hb : p.data[j]? = some b)
      (hseq : p.seq + UInt32.ofNat j = Serial.ofOffset origin sys.received.length) :
      Step origin data spins sys ⟨sys.sender, sys.wire, sys.received ++ [b]⟩

/-! ### The invariant -/

/-- The segment carries the bytes of the stream `S` that belong at its sequence
number. -/
def Packet.Carries (origin : UInt32) (S : List UInt8) (p : Packet) : Prop :=
  p.data ≠ [] → ∃ k, p.seq = Serial.ofOffset origin k ∧ k + p.data.length ≤ S.length ∧
    p.data = Stream.slice S k p.data.length

/-- What holds where the program stands, `n` bytes having reached the peer: the
chunks before `sent` have, and `tcp_local_seq` is at the chunk or behind it. -/
def Sender.Placed (origin : UInt32) (old data : List UInt8) (n : ℕ) (c : Sender) : Prop :=
  match c.pc with
  | .top sent => sent ≤ data.length ∧ old.length + sent ≤ n ∧
      c.tcp.localSeq = Serial.ofOffset origin (old.length + sent)
  | .attempting sent start _ => sent < data.length ∧ old.length + sent ≤ n ∧
      start = Serial.ofOffset origin (old.length + sent)
  | .sending sent start _ => sent < data.length ∧ old.length + sent ≤ n ∧
      start = Serial.ofOffset origin (old.length + sent) ∧ c.tcp.localSeq = start
  | .waiting sent start _ _ => sent < data.length ∧ old.length + sent ≤ n ∧
      start = Serial.ofOffset origin (old.length + sent) ∧
      c.tcp.localSeq = expected data sent start
  | .polling sent start _ _ => sent < data.length ∧ old.length + sent ≤ n ∧
      start = Serial.ofOffset origin (old.length + sent) ∧
      c.tcp.localSeq = expected data sent start
  | .done code => code = 1 → old.length + data.length ≤ n

/-- The invariant of the system, for a call that sends `data` on a connection on
which `old` has been sent before. -/
structure System.Sound (origin : UInt32) (old data : List UInt8) (sys : System) : Prop where
  wire : ∀ p ∈ sys.wire, p.Carries origin (old ++ data)
  received : sys.received <+: old ++ data
  state : sys.sender.tcp.state ≠ 1
  lastAck : ∃ r ≤ sys.received.length, sys.sender.tcp.lastAck = Serial.ofOffset origin r
  placed : sys.sender.Placed origin old data sys.received.length

variable {origin : UInt32} {old data : List UInt8} {sys : System} {c : Sender} {sent spins : ℕ}

theorem Sender.Placed.mono {m n : ℕ} (h : c.Placed origin old data m) (hmn : m ≤ n) : c.Placed origin old data n := by
  obtain ⟨tcp, pc⟩ := c
  cases pc with
  | done code => exact fun hcode => (h hcode).trans hmn
  | _ => exact ⟨h.1, h.2.1.trans hmn, h.2.2⟩

theorem length_chunk (hsent : sent ≤ data.length) : (chunk data sent).length = min 1400 (data.length - sent) :=
  Stream.length_slice (by omega)

/-- The chunk at `sent` is the piece of the whole stream at its offset. -/
theorem chunk_eq_slice (hsent : sent ≤ data.length) : chunk data sent =
    Stream.slice (old ++ data) (old.length + sent) (chunk data sent).length := by
  rw [length_chunk hsent, chunk, Stream.slice, Stream.slice, drop_length_add_append]

/-- Acknowledgements carry no data, so they carry no wrong data. -/
theorem pollSegment_carries {S : List UInt8} : ∀ p ∈ (pollSegment s g answered).2, p.Carries origin S := by
  intro p hp hdata
  simp only [pollSegment] at hp
  split at hp
  · have hnil : p.data = [] := by
      simp only [tcpSend, length_nil, not_lt_zero, if_false, gt_iff_lt, toList_some, mem_singleton] at hp
      rw [hp]
    exact absurd hnil hdata
  · simp at hp

/-! ### The peer -/

/-- **The peer's next byte is the next byte of the stream.** -/
theorem System.Sound.take_byte (hlen : (old ++ data).length < 2 ^ 31) (h : sys.Sound origin old data)
    {p : Packet} {j : ℕ} {b : UInt8} (hp : p ∈ sys.wire) (hb : p.data[j]? = some b)
    (hseq : p.seq + UInt32.ofNat j = Serial.ofOffset origin sys.received.length) :
    sys.received ++ [b] <+: old ++ data := by
  have hne : p.data ≠ [] := by
    rintro hnil
    simp [hnil] at hb
  obtain ⟨k, hk, hle, hslice⟩ := h.wire p hp hne
  obtain ⟨hj, -⟩ := List.getElem?_eq_some_iff.mp hb
  have hreceived := h.received.length_le
  -- the sequence number tells the offset
  have hoffset : k + j = sys.received.length := by
    refine (Serial.ofOffset_inj origin (by omega) (by omega)).mp ?_
    rw [Serial.ofOffset_add, ← hk, hseq]
  have hbyte : (old ++ data)[sys.received.length]? = some b := by
    rw [← hoffset, ← Stream.getElem?_slice hj, ← hslice, hb]
  have htake : sys.received ++ [b] = (old ++ data).take (sys.received.length + 1) := by
    rw [take_add_one, hbyte, ← prefix_iff_eq_take.mp h.received]
    rfl
  rw [htake]
  exact take_prefix _ _

/-! ### The program -/

/-- The segment of a chunk carries the bytes that belong there. -/
theorem tcpSend_carries {f : UInt8} {p : Packet} (hsent : sent ≤ data.length)
    (hseq : s.localSeq = Serial.ofOffset origin (old.length + sent))
    (h : tcpSend s f (chunk data sent) = some p) : p.Carries origin (old ++ data) := by
  have hlen := length_chunk hsent
  rw [tcpSend] at h
  split at h
  · simp at h
  · cases h
    refine fun _ => ⟨old.length + sent, hseq, ?_, chunk_eq_slice hsent⟩
    rw [length_append, hlen]
    omega

/-- **An acknowledgement that covers a chunk means that the peer has it.** -/
theorem System.Sound.acknowledged (hlen : (old ++ data).length < 2 ^ 31)
    (h : sys.Sound origin old data) {start : UInt32} (hsent : sent ≤ data.length)
    (hstart : start = Serial.ofOffset origin (old.length + sent))
    (hack : 0 ≤ Serial.signed (sys.sender.tcp.lastAck - expected data sent start)) :
    old.length + (sent + (chunk data sent).length) ≤ sys.received.length := by
  obtain ⟨r, hr, hlast⟩ := h.lastAck
  have hreceived := h.received.length_le
  have hchunk := length_chunk hsent
  rw [length_append] at hlen hreceived
  rw [hlast, expected, hstart, ← Serial.ofOffset_add] at hack
  rw [Serial.signed_ofOffset_sub_nonneg origin (by omega) (by omega)] at hack
  omega

/-- A step of the program that meets no segment keeps the invariant. -/
theorem System.Sound.program (hlen : (old ++ data).length < 2 ^ 31) (h : sys.Sound origin old data)
    {input : Input}
    (hinput : ∀ g answered, input ≠ .segment g answered)
    (hstep : sys.sender.step data spins input = some (c', packets)) :
    System.Sound origin old data ⟨c', sys.wire ++ packets, sys.received⟩ := by
  obtain ⟨⟨tcp, pc⟩, wire, received⟩ := sys
  have hsound := h
  obtain ⟨hwire, hreceived, hstate, hlast, hplaced⟩ := h
  -- a silent step that leaves state and acknowledgement alone only has to be placed
  have hsilent : ∀ {q : UInt32} {pc' : Pc},
      Sender.Placed origin old data received.length ⟨{ tcp with localSeq := q }, pc'⟩ →
      System.Sound origin old data ⟨⟨{ tcp with localSeq := q }, pc'⟩, wire ++ [], received⟩ := by
    intro q pc' hplaced'
    rw [append_nil]
    exact ⟨hwire, hreceived, hstate, hlast, hplaced'⟩
  simp only [Sender.step.eq_def] at hstep
  split at hstep
  · -- at the test of the outer loop
    obtain ⟨hsent, hbefore, hlocal⟩ := hplaced
    split at hstep
    · cases hstep
      exact hsilent (q := tcp.localSeq) ⟨‹_›, hbefore, hlocal⟩
    · -- all chunks have been acknowledged
      cases hstep
      refine hsilent (q := tcp.localSeq) fun _ => ?_
      dsimp only at hbefore
      omega
  · -- at the test of the loop over the attempts
    obtain ⟨hsent, hbefore, hstart⟩ := hplaced
    split at hstep
    · cases hstep
      exact hsilent ⟨hsent, hbefore, hstart, rfl⟩
    · cases hstep
      exact hsilent (q := tcp.localSeq) nofun
  · exact absurd rfl (hinput _ _)
  · cases hstep
    exact hsilent (q := tcp.localSeq) nofun
  · -- the chunk goes out
    obtain ⟨hsent, hbefore, hstart, hlocal⟩ := hplaced
    split at hstep
    · rename_i packet hpacket
      cases hstep
      refine ⟨fun p hp => ?_, hreceived, hstate, hlast, hsent, hbefore, hstart, rfl⟩
      rcases mem_append.mp hp with hp | hp
      · exact hwire p hp
      · rw [mem_singleton.mp hp]
        exact tcpSend_carries hsent.le (hlocal.trans hstart) hpacket
    · cases hstep
  · -- at the test of the waiting loop
    obtain ⟨hsent, hbefore, hstart, hlocal⟩ := hplaced
    split at hstep
    · cases hstep
      exact hsilent (q := tcp.localSeq) ⟨hsent, hbefore, hstart, hlocal⟩
    · cases hstep
      exact hsilent (q := tcp.localSeq) ⟨hsent, hbefore, hstart⟩
  · split at hstep
    · cases hstep
      exact hsilent (q := tcp.localSeq) nofun
    · cases hstep
  · exact absurd rfl (hinput _ _)
  · -- after the poll of the waiting loop
    obtain ⟨hsent, hbefore, hstart, hlocal⟩ := hplaced
    split at hstep
    · rename_i hack
      have hchunk := length_chunk hsent.le
      cases hstep
      refine hsilent (q := tcp.localSeq) ⟨?_, hsound.acknowledged hlen hsent.le hstart hack, ?_⟩
      · omega
      · rw [← add_assoc, Serial.ofOffset_add, ← hstart]
        exact hlocal
    · cases hstep
      exact hsilent (q := tcp.localSeq) ⟨hsent, hbefore, hstart, hlocal⟩
  · cases hstep

/-- A step in which a poll finds a segment: the program stays where it is. -/
theorem Sender.step_segment
    (h : c.step data spins (.segment g answered) = some (c', packets)) :
    c' = ⟨(pollSegment c.tcp g answered).1, c.pc⟩ ∧ packets = (pollSegment c.tcp g answered).2 ∧
      ((∃ sent start attempt, c.pc = .sending sent start attempt) ∨
        ∃ sent start attempt wait, c.pc = .polling sent start attempt wait) := by
  obtain ⟨tcp, pc⟩ := c
  cases pc with
  | sending sent start attempt =>
    cases h
    exact ⟨rfl, rfl, .inl ⟨sent, start, attempt, rfl⟩⟩
  | polling sent start attempt wait =>
    cases h
    exact ⟨rfl, rfl, .inr ⟨sent, start, attempt, wait, rfl⟩⟩
  | _ => exact absurd h (by simp [Sender.step])

/-- What a segment does to `tcp_local_seq` does not matter to the place of the
program, for it does nothing. -/
theorem Sender.Placed.of_localSeq {n : ℕ} (h : c.Placed origin old data n)
    (hlocal : s.localSeq = c.tcp.localSeq) : Sender.Placed origin old data n ⟨s, c.pc⟩ := by
  obtain ⟨tcp, pc⟩ := c
  cases pc <;> simpa only [Sender.Placed, hlocal] using h

theorem System.Sound.segment (h : sys.Sound origin old data)
    (hack : AcksReceived origin sys g)
    (hstep : sys.sender.step data spins (.segment g answered) = some (c', packets)) :
    System.Sound origin old data ⟨c', sys.wire ++ packets, sys.received⟩ := by
  obtain ⟨rfl, rfl, -⟩ := Sender.step_segment hstep
  obtain ⟨hlocal, hstate, hlast⟩ := tcpReceive_sending g.bytes g.source h.state
  refine ⟨fun p hp => ?_, h.received, hstate, ?_, h.placed.of_localSeq hlocal⟩
  · rcases mem_append.mp hp with hp | hp
    · exact h.wire p hp
    · exact pollSegment_carries p hp
  · rcases hlast with hlast | ⟨hpeer, hflag, hlast⟩
    · obtain ⟨r, hr, hr'⟩ := h.lastAck
      exact ⟨r, hr, hlast.trans hr'⟩
    · obtain ⟨r, hr, hr'⟩ := hack hpeer hflag
      exact ⟨r, hr, hlast.trans hr'⟩

/-! ### Every run -/

/-- **Every step of the system keeps the invariant.** -/
theorem System.Sound.step {sys' : System} (hlen : (old ++ data).length < 2 ^ 31)
    (h : sys.Sound origin old data) (hstep : System.Step origin data spins sys sys') :
    sys'.Sound origin old data := by
  cases hstep with
  | program input hinput hstep => exact h.program hlen hinput hstep
  | segment g answered hack hstep => exact h.segment hack hstep
  | peer p j b hp hb hseq =>
    have hle : sys.received.length ≤ (sys.received ++ [b]).length := by
      rw [length_append]
      exact Nat.le_add_right _ _
    obtain ⟨r, hr, hlast⟩ := h.lastAck
    exact ⟨h.wire, h.take_byte hlen hp hb hseq, h.state, ⟨r, hr.trans hle, hlast⟩, h.placed.mono hle⟩

/-- The system when `network_tcp_send` is called for `data`: everything sent
before on the connection that can still be about in the network, as segments or
in acknowledgements, is of the stream `old`, the peer has received that, and
`tcp_local_seq` is behind it. -/
structure System.Calls (origin : UInt32) (old data : List UInt8) (sys : System) : Prop where
  sender : sys.sender = networkTcpSend sys.sender.tcp data
  received : sys.received = old
  wire : ∀ p ∈ sys.wire, p.Carries origin old
  state : sys.sender.tcp.state ≠ 1
  localSeq : sys.sender.tcp.localSeq = Serial.ofOffset origin old.length
  lastAck : ∃ r ≤ old.length, sys.sender.tcp.lastAck = Serial.ofOffset origin r

theorem System.Calls.sound (h : sys.Calls origin old data) : sys.Sound origin old data := by
  refine ⟨fun p hp hdata => ?_, ?_, h.state, ?_, ?_⟩
  · obtain ⟨k, hk, hle, hslice⟩ := h.wire p hp hdata
    refine ⟨k, hk, ?_, ?_⟩
    · rw [length_append]
      omega
    · rw [Stream.slice, drop_append_of_le_length (by omega), take_append_of_le_length, ← Stream.slice]
      · exact hslice
      · rw [length_drop]
        omega
  · rw [h.received]
    exact prefix_append old data
  · rw [h.received]
    exact h.lastAck
  · rw [h.received, h.sender, networkTcpSend]
    split
    · exact fun hcode => absurd hcode (by decide)
    · exact ⟨Nat.zero_le _, le_rfl, h.localSeq⟩

/-- **The sender sends the stream, and returns 1 only when the peer has it**,
under any loss, duplication and reordering: every segment on the wire carries
the bytes that belong at its sequence number, and when `network_tcp_send`
returns 1 the peer has received, each byte once and in order, what it had before
and then the whole payload. -/
theorem System.sends_stream {origin : UInt32} {old data : List UInt8} {spins : ℕ}
    {sys sys' : System} (hlen : (old ++ data).length < 2 ^ 31) (hcall : sys.Calls origin old data)
    (run : Relation.ReflTransGen (System.Step origin data spins) sys sys') :
    (∀ p ∈ sys'.wire, p.data ≠ [] → ∃ k, p.seq = Serial.ofOffset origin k ∧
      k + p.data.length ≤ (old ++ data).length ∧
      p.data = Stream.slice (old ++ data) k p.data.length) ∧
    (sys'.sender.pc = .done 1 → sys'.received = old ++ data) := by
  have hsound : sys'.Sound origin old data := by
    induction run with
    | refl => exact hcall.sound
    | tail _ hstep ih => exact ih.step hlen hstep
  refine ⟨hsound.wire, fun hdone => ?_⟩
  have hplaced := hsound.placed
  simp only [Sender.Placed, hdone, forall_const] at hplaced
  refine hsound.received.eq_of_length_le ?_
  rw [length_append]
  exact hplaced

/-- A connection that the SYN-ACK has established. -/
def connected : State := poll opened [fromServer 0x12 100 []]

/-- The peer of `OS64.Tcp.connected` acknowledges three bytes. -/
def ackThree : Segment where
  bytes := [0, 80, 192, 0, 0, 0, 0, 101, 100, 0, 0, 4, 0x50, 0x10, 16, 0, 0, 0, 0, 0]
  source := 0x0202000a

/-- A call that sends three bytes, is acknowledged and returns 1. -/
theorem System.sends_stream_three :
    let start : System := ⟨networkTcpSend connected [1, 2, 3], [], []⟩
    ∃ sys', Relation.ReflTransGen (System.Step 0x64000001 [1, 2, 3] 1) start sys' ∧
      sys'.sender.pc = .done 1 ∧ sys'.received = [] ++ [1, 2, 3] := by
  intro start
  have hcall : start.Calls 0x64000001 [] [1, 2, 3] :=
    ⟨rfl, rfl, fun p hp => absurd hp not_mem_nil, by decide, by decide, 0, le_rfl, by decide⟩
  have hrun : ∀ (sys : System) {c : Sender} {packets : List Packet},
      sys.sender.step [1, 2, 3] 1 .run = some (c, packets) →
      System.Step 0x64000001 [1, 2, 3] 1 sys ⟨c, sys.wire ++ packets, sys.received⟩ :=
    fun _ _ _ h => .program .run (fun _ _ h => Input.noConfusion h) h
  -- the segment goes out
  have h1 := Relation.ReflTransGen.refl.tail (hrun start rfl)
  have h2 := h1.tail (hrun _ rfl)
  have h3 := h2.tail (.program .sent (fun _ _ h => Input.noConfusion h) rfl)
  -- the peer takes its three bytes
  have h4 := h3.tail (.peer _ 0 1 mem_cons_self rfl (by decide))
  have h5 := h4.tail (.peer _ 1 2 mem_cons_self rfl (by decide))
  have h6 := h5.tail (.peer _ 2 3 mem_cons_self rfl (by decide))
  -- and acknowledges them
  have h7 := h6.tail (hrun _ rfl)
  have h8 : Relation.ReflTransGen _ start ⟨⟨(pollSegment { connected with localSeq := 0x64000004 }
      ackThree false).1, .polling 0 0x64000001 0 0⟩, [⟨0x18, 0x64000001, 101, [1, 2, 3]⟩], [1, 2, 3]⟩ :=
    h7.tail (.segment ackThree false (fun _ _ => ⟨3, le_rfl, by decide⟩) rfl)
  have hack : 0 ≤ Serial.signed ((pollSegment { connected with localSeq := 0x64000004 }
      ackThree false).1.lastAck - expected [1, 2, 3] 0 0x64000001) := by decide +kernel
  generalize (pollSegment { connected with localSeq := 0x64000004 } ackThree false).1 = t at h8 hack
  have h9 := h8.tail (hrun _ (if_pos hack))
  have h10 := h9.tail (hrun _ rfl)
  exact ⟨_, h10, rfl, (System.sends_stream (by decide) hcall h10).2 rfl⟩

end OS64.Tcp
