import OS64.Lib.Stream
import Mathlib.Data.List.FinRange

/-!
# The TCP client

The TCP half of `kernel/net/net.c`: one connection in static variables, a
receive queue of 32768 bytes, a table of eight out-of-order fragments, and the
functions that receive segments, hand queued bytes to the caller and send.

Sequence numbers are 32-bit words and wrap as in C; `(int32_t)` of a difference
is `Serial.signed`. The queue is the list of its `tcp_queue_length` bytes, and a
slot of the fragment table is `none` while its `valid` flag is clear: nothing
reads the other fields of an invalid slot.

`tcp_receive` ends, on every path that looks at data, by sending an
acknowledgement. Sending needs the address of the next hop, and waiting for it
may poll the network and so process further segments; but nothing of
`tcp_receive` comes after that call, so nested processing is processing one
segment after another. The model therefore returns whether an acknowledgement
is sent and leaves the order of segments to the runs.
-/

namespace OS64.Tcp

/-! ### State -/

/-- `sizeof tcp_queue`. -/
def queueBytes : ℕ := 32768

/-- `tcp_fragment_t`, a valid one: the first `length` bytes of `data` are the
list `data`. -/
structure Fragment where
  sequence : UInt32
  fin : Bool
  data : List UInt8
  deriving DecidableEq

/-- The variables of the connection. -/
structure State where
  remoteIp : UInt32
  localPort : UInt16
  remotePort : UInt16
  localSeq : UInt32
  remoteSeq : UInt32
  lastAck : UInt32
  /-- `tcp_state`: 0 closed, 1 SYN sent, 2 established, 4 closed by the peer,
  -2 reset. -/
  state : ℤ
  queue : List UInt8
  fragments : Fin 8 → Option Fragment

/-- The variables as `network_tcp_connect` sets them before it sends the SYN;
`ipId` is the counter of IP packets. -/
def networkTcpConnect (address : UInt32) (port ipId : UInt16) : State where
  remoteIp := address
  localPort := 49152 + (ipId &&& 1023)
  remotePort := port
  localSeq := 0x64000000 + ipId.toUInt32
  remoteSeq := 0
  lastAck := 0x64000000 + ipId.toUInt32
  state := 1
  queue := []
  fragments := fun _ => none

/-! ### Segments -/

/-- `p[i]`. -/
def byte (p : List UInt8) (i : ℕ) : UInt8 := p.getD i 0

/-- `read16`, big-endian. -/
def read16 (p : List UInt8) (i : ℕ) : UInt16 :=
  UInt16.ofNat ((byte p i).toNat * 2 ^ 8 + (byte p (i + 1)).toNat)

/-- `read32`, big-endian. -/
def read32 (p : List UInt8) (i : ℕ) : UInt32 :=
  UInt32.ofNat ((byte p i).toNat * 2 ^ 24 + (byte p (i + 1)).toNat * 2 ^ 16 +
    (byte p (i + 2)).toNat * 2 ^ 8 + (byte p (i + 3)).toNat)

/-- The header length a segment announces. -/
def header (tcp : List UInt8) : ℕ := (byte tcp 12 >>> 4).toNat * 4

/-- The flag byte. -/
def flags (tcp : List UInt8) : UInt8 := byte tcp 13

/-- The sequence number. -/
def seq (tcp : List UInt8) : UInt32 := read32 tcp 4

/-- The acknowledgement number. -/
def ack (tcp : List UInt8) : UInt32 := read32 tcp 8

/-- The bytes after the header. -/
def payload (tcp : List UInt8) : List UInt8 := tcp.drop (header tcp)

/-- `flags & 1`. -/
def hasFin (tcp : List UInt8) : Bool := flags tcp &&& 1 ≠ 0

/-- `flags & 4`. -/
def hasRst (tcp : List UInt8) : Bool := flags tcp &&& 4 ≠ 0

/-- `flags & 0x10`. -/
def hasAck (tcp : List UInt8) : Bool := flags tcp &&& 0x10 ≠ 0

/-- `(flags & 0x12) == 0x12`. -/
def isSynAck (tcp : List UInt8) : Bool := flags tcp &&& 0x12 = 0x12

/-- The checks at the top of `tcp_receive`: the segment is from the peer, for
this connection, and its header fits. -/
def fromPeer (s : State) (tcp : List UInt8) (source : UInt32) : Bool :=
  source = s.remoteIp ∧ 20 ≤ tcp.length ∧ read16 tcp 2 = s.localPort ∧
    read16 tcp 0 = s.remotePort ∧ 20 ≤ header tcp ∧ header tcp ≤ tcp.length

/-! ### Receiving -/

/-- `tcp_append`: queue what fits, count everything. -/
def tcpAppend (s : State) (data : List UInt8) : State :=
  { s with
    queue := s.queue ++ data.take (queueBytes - s.queue.length)
    remoteSeq := s.remoteSeq + UInt32.ofNat data.length }

/-- `tcp_store_fragment`: in the first invalid slot, unless the segment is too
long, a fragment with its sequence number is there already, or the table is
full. -/
def tcpStoreFragment (s : State) (sequence : UInt32) (data : List UInt8) (fin : Bool) : State :=
  if data.length > 1460 then s
  else if ∃ i f, s.fragments i = some f ∧ f.sequence = sequence then s
  else match (List.finRange 8).find? fun i => (s.fragments i).isNone with
    | some i => { s with fragments := Function.update s.fragments i (some ⟨sequence, fin, data⟩) }
    | none => s

/-- The first valid fragment with the sequence number `next`. -/
def nextFragment (fragments : Fin 8 → Option Fragment) (next : UInt32) :
    Option (Fin 8 × Fragment) :=
  (List.finRange 8).findSome? fun i => match fragments i with
    | some f => if f.sequence = next then some (i, f) else none
    | none => none

/-- One round of the loop of `tcp_drain_fragments`: append the fragment that
continues the stream, consume its FIN, clear its slot. -/
def drainOne (s : State) (i : Fin 8) (f : Fragment) : State :=
  let s := tcpAppend s f.data
  let s := if f.fin then { s with remoteSeq := s.remoteSeq + 1, state := 4 } else s
  { s with fragments := Function.update s.fragments i none }

/-- The loop of `tcp_drain_fragments`, for a number of rounds. -/
def drainRounds : ℕ → State → State
  | 0, s => s
  | n + 1, s => match nextFragment s.fragments s.remoteSeq with
    | none => s
    | some (i, f) => drainRounds n (drainOne s i f)

/-- `tcp_drain_fragments`. Every round clears a slot, so that after eight of
them no fragment is left to drain (`OS64.Tcp.nextFragment_drained`). -/
def tcpDrainFragments (s : State) : State := drainRounds 8 s

/-- `tcp_receive`: the state afterwards, and whether an acknowledgement is
sent. -/
def tcpReceive (s : State) (tcp : List UInt8) (source : UInt32) : State × Bool :=
  if ¬fromPeer s tcp source then (s, false)
  else if hasRst tcp then ({ s with state := -2 }, false)
  else
    let s := if hasAck tcp then { s with lastAck := ack tcp } else s
    if isSynAck tcp ∧ s.state = 1 then
      ({ s with remoteSeq := seq tcp + 1, localSeq := ack tcp, lastAck := ack tcp, state := 2 }, false)
    else if (payload tcp ≠ [] ∨ hasFin tcp) ∧ seq tcp ≠ s.remoteSeq then
      if Serial.signed (seq tcp - s.remoteSeq) > 0 then
        (tcpStoreFragment s (seq tcp) (payload tcp) (hasFin tcp), true)
      else (s, true)
    else
      let s := if payload tcp ≠ [] then tcpAppend s (payload tcp) else s
      let s := if hasFin tcp then { s with remoteSeq := s.remoteSeq + 1, state := 4 } else s
      (tcpDrainFragments s, true)

/-! ### Handing bytes to the caller -/

/-- A TCP segment as `process` hands it over: its bytes and the source
address. -/
structure Segment where
  bytes : List UInt8
  source : UInt32

/-- `network_poll`, as far as the connection goes: the TCP segments among the
frames it takes from the device, one after another. -/
def poll (s : State) (segments : List Segment) : State :=
  segments.foldl (fun s g => (tcpReceive s g.bytes g.source).1) s

/-- What the waiting loop of `network_tcp_receive` meets in a round. -/
inductive Round
  /-- The process has been asked to stop. -/
  | cancel
  /-- A poll that finds these segments. -/
  | poll (segments : List Segment)

/-- The waiting loop of `network_tcp_receive`: it polls while the queue is
empty and the connection is not reset, for as many rounds as are given. The
answer is whether it was cancelled, and the state it leaves. -/
def waitForData : State → List Round → Bool × State
  | s, [] => (false, s)
  | s, round :: rounds =>
    if s.queue ≠ [] ∨ s.state < 2 then (false, s)
    else match round with
      | .cancel => (true, s)
      | .poll segments => waitForData (poll s segments) rounds

/-- What `network_tcp_receive` returns. -/
structure Received where
  code : ℤ
  data : List UInt8
  state : State

/-- `network_tcp_receive` with a buffer of `capacity` bytes, the rounds of its
waiting loop given (their number is `spins`). -/
def networkTcpReceive (s : State) (capacity : ℕ) (rounds : List Round) : Received :=
  if s.state < 2 ∨ capacity = 0 then ⟨-1, [], s⟩
  else match waitForData s rounds with
    | (true, s) => ⟨-3, [], s⟩
    | (false, s) =>
      let data := s.queue.take capacity
      ⟨if data ≠ [] then 1 else if s.state = 4 then 0 else -2, data,
        { s with queue := s.queue.drop capacity }⟩

end OS64.Tcp
