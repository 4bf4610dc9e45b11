import OS64.Tcp.Model
import OS64.Lib.Memory
import OS64.Lib.Text

/-!
# The network stack

`kernel/net/net.c`: Ethernet, ARP, IPv4, ICMP, UDP with DNS and NTP, and the TCP of
`OS64.Tcp` with its frames.

A received frame is a buffer of which the first `n` bytes have been received. The
model reads the buffer as the code does, at whatever place the packet says: a
pointer is a memory that begins there (`OS64.Net.shift`), and what lies behind the `n`
bytes is there to be read. Lengths are computed as in C, modulo a power of two, and
`wrapped` remembers whether a subtraction went below zero.

The world outside is a `Device`: what each call of `netdev_receive` finds, whether
each call of `netdev_send` succeeds and whether Ctrl+C has been typed whenever that
is asked. The state counts these calls, and keeps what no code can see: the frames
sent, the frames processed, and the names resolved.

Answering a TCP segment may need the hardware address of the next hop, and waiting
for it polls the device and processes further frames inside of the first. `networkPoll` is
therefore given a depth: polls nested deeper than that find nothing. A run that
comes to an end is nested to some depth, and the results hold for all of them.
-/

namespace OS64.Net

open Text List

/-! ### Memory -/

/-- `p + k`. -/
def shift (p : ByteMem) (k : ℕ) : ByteMem := fun i => p (k + i)

/-- `read16(p + i)`, big-endian. -/
def read16 (p : ByteMem) (i : ℕ) : UInt16 := UInt16.ofNat ((p i).toNat * 2 ^ 8 + (p (i + 1)).toNat)

/-- `read32(p + i)`, big-endian. -/
def read32 (p : ByteMem) (i : ℕ) : UInt32 :=
  UInt32.ofNat ((p i).toNat * 2 ^ 24 + (p (i + 1)).toNat * 2 ^ 16 + (p (i + 2)).toNat * 2 ^ 8 +
    (p (i + 3)).toNat)

/-- `read64(p + i)`, big-endian. -/
def read64 (p : ByteMem) (i : ℕ) : UInt64 :=
  UInt64.ofNat ((read32 p i).toNat * 2 ^ 32 + (read32 p (i + 4)).toNat)

/-- Four bytes copied into a `uint32_t`. -/
def address (p : ByteMem) (i : ℕ) : UInt32 := UInt32.ofNat (p.readLE 4 i)

/-- The bytes `write16` writes. -/
def be16 (v : UInt16) : List UInt8 := [UInt8.ofNat (v.toNat / 2 ^ 8), UInt8.ofNat v.toNat]

/-- The bytes `write32` writes. -/
def be32 (v : UInt32) : List UInt8 := be16 (UInt16.ofNat (v.toNat / 2 ^ 16)) ++ be16 (UInt16.ofNat v.toNat)

/-- The bytes `write64` writes. -/
def be64 (v : UInt64) : List UInt8 := be32 (UInt32.ofNat (v.toNat / 2 ^ 32)) ++ be32 (UInt32.ofNat v.toNat)

/-- The bytes of an address, as it lies in memory. -/
def addressBytes (a : UInt32) : List UInt8 :=
  [UInt8.ofNat a.toNat, UInt8.ofNat (a.toNat / 2 ^ 8), UInt8.ofNat (a.toNat / 2 ^ 16),
    UInt8.ofNat (a.toNat / 2 ^ 24)]

/-- Six bytes copied into a hardware address. -/
def macAt (p : ByteMem) (i : ℕ) : Fin 6 → UInt8 := fun k => p (i + k)

/-- Some bytes of a buffer are written. -/
def patch (l : List UInt8) (i : ℕ) (bytes : List UInt8) : List UInt8 :=
  l.take i ++ bytes ++ l.drop (i + bytes.length)

/-- The sum of the 16-bit words, the last byte being padded. -/
def wordSum : List UInt8 → ℕ
  | [] => 0
  | [a] => a.toNat * 2 ^ 8
  | a :: b :: l => a.toNat * 2 ^ 8 + b.toNat + wordSum l

/-- `checksum`. Adding the carry three times is enough for a 32-bit sum, and does nothing
to one of 16 bits. -/
def checksum (l : List UInt8) : UInt16 :=
  UInt16.ofNat (2 ^ 16 - 1 - (fun sum => sum % 2 ^ 16 + sum / 2 ^ 16)^[3] (wordSum l % 2 ^ 32))

/-! ### State -/

/-- `ip`: 10.0.2.15. -/
def ip : UInt32 := 0x0f02000a

/-- `gateway`: 10.0.2.2. -/
def gateway : UInt32 := 0x0202000a

/-- `dns_server`: 10.0.2.3. -/
def dnsServer : UInt32 := 0x0302000a

/-- `netmask`: 255.255.255.0. -/
def netmask : UInt32 := 0x00ffffff

/-- The size of the buffers for frames. -/
def frameSize : ℕ := 1514

/-- A hardware address. -/
abbrev Mac := Fin 6 → UInt8

/-- `neighbor_t`, a valid one. -/
structure Neighbor where
  ip : UInt32
  mac : Mac
  deriving DecidableEq

/-- `network_ntp_result_t`. -/
structure NtpResult where
  address : UInt32
  stratum : UInt8
  receiveTimestamp : UInt64
  transmitTimestamp : UInt64
  deriving DecidableEq

/-- The buffer after `netdev_receive` has found a frame: `size` bytes of it are new, and
the drivers copy no more than there is room for. -/
structure Arrival where
  buffer : ByteMem
  size : ℕ
  size_le : size ≤ frameSize

/-- The network device and the keyboard. -/
structure Device where
  mac : Mac
  receive : ℕ → Option Arrival
  send : ℕ → Bool
  cancel : ℕ → Bool

/-- The variables of `net.c`. The last six fields are not variables: how often the
device and the keyboard have been asked, what has been sent, processed and
resolved, and whether a length has been computed below zero. -/
structure State where
  neighbors : Fin 8 → Option Neighbor
  ready : Bool
  ipId : UInt16
  sequence : UInt16
  replySequence : UInt16
  pingError : Bool
  pingErrorType : UInt8
  pingErrorCode : UInt8
  dnsReplyId : UInt16
  dnsReplyStatus : ℤ
  dnsReplyAddress : UInt32
  ntpReplyStatus : ℤ
  ntpServerIp : UInt32
  ntpRequestTimestamp : UInt64
  ntpReply : NtpResult
  tcp : Tcp.State
  polls : ℕ
  cancels : ℕ
  sent : List (List UInt8)
  processed : List (List UInt8)
  resolved : List (List UInt8 × UInt32)
  wrapped : Bool

/-- `a - b` in an unsigned type of `w` bits. -/
def State.minus (s : State) (w a b : ℕ) : ℕ × State :=
  ((a + 2 ^ w - b) % 2 ^ w, { s with wrapped := s.wrapped || decide (a < b) })

variable (dev : Device)

/-- `netdev_send`. -/
def State.send (s : State) (frame : List UInt8) : Bool × State :=
  (dev.send s.sent.length, { s with sent := s.sent ++ [frame] })

/-- `process_cancel_requested`. -/
def State.cancelRequested (s : State) : Bool × State :=
  (dev.cancel s.cancels, { s with cancels := s.cancels + 1 })

/-! ### Ethernet and ARP -/

/-- `ethernet`. -/
def ethernet (dst : Mac) (type : UInt16) : List UInt8 := ofFn dst ++ ofFn dev.mac ++ be16 type

/-- `next_hop`. -/
def nextHop (destination : UInt32) : UInt32 :=
  if destination &&& netmask = ip &&& netmask then destination else gateway

/-- `neighbor_find`. -/
def neighborFind (s : State) (a : UInt32) : Option Neighbor :=
  (finRange 8).findSome? fun i => (s.neighbors i).filter fun n => n.ip = a

/-- The slot in which `neighbor_store` puts an address: the one that has it, the first
free one, or one that depends on the address. -/
def neighborSlot (s : State) (a : UInt32) : Fin 8 :=
  match (finRange 8).find? fun i => (s.neighbors i).any fun n => n.ip = a with
  | some i => i
  | none => match (finRange 8).find? fun i => (s.neighbors i).isNone with
    | some i => i
    | none => Fin.ofNat 8 (a &&& 7).toNat

/-- `neighbor_store`. -/
def neighborStore (s : State) (a : UInt32) (mac : Mac) : State :=
  { s with neighbors := Function.update s.neighbors (neighborSlot s a) (some ⟨a, mac⟩) }

/-- `arp_request`. -/
def arpRequest (s : State) (target : UInt32) : State :=
  (s.send dev (ethernet dev (fun _ => 255) 0x0806 ++ be16 1 ++ be16 0x0800 ++ [6, 4] ++
    be16 1 ++ ofFn dev.mac ++ addressBytes ip ++ [0, 0, 0, 0, 0, 0] ++ addressBytes target)).2

/-- `arp_reply`. -/
def arpReply (s : State) (r : ByteMem) : State :=
  (s.send dev (ethernet dev (macAt r 22) 0x0806 ++ patch (r.bytes 14 8) 6 (be16 2) ++ ofFn dev.mac ++
    addressBytes ip ++ r.bytes 22 6 ++ r.bytes 28 4)).2

/-- The loop of `resolve_next_hop`. -/
def awaitNeighbor (poll : State → State) (hop : UInt32) : ℕ → State → Option Neighbor × State
  | 0, s => (none, s)
  | spins + 1, s =>
    let (cancelled, s) := s.cancelRequested dev
    if cancelled then (none, s)
    else
      let s := poll s
      match neighborFind s hop with
      | some n => (some n, s)
      | none => awaitNeighbor poll hop spins s

/-- `resolve_next_hop`. -/
def resolveNextHop (poll : State → State) (s : State) (destination : UInt32) (spins : ℕ) :
    Option Neighbor × State :=
  match neighborFind s (nextHop destination) with
  | some n => (some n, s)
  | none => awaitNeighbor dev poll (nextHop destination) spins (arpRequest dev s (nextHop destination))

/-! ### IPv4 and ICMP -/

/-- `ipv4_begin`: the Ethernet and IP headers. -/
def ipv4Begin (s : State) (destination : UInt32) (protocol : UInt8) (payload : ℕ) (mac : Mac) :
    List UInt8 × State :=
  let id := s.ipId + 1
  let header := [0x45, 0] ++ be16 (UInt16.ofNat (20 + payload)) ++ be16 id ++ be16 0 ++ [64, protocol] ++
    be16 0 ++ addressBytes ip ++ addressBytes destination
  (ethernet dev mac 0x0800 ++ patch header 10 (be16 (checksum header)), { s with ipId := id })

/-- `icmp_reply`. -/
def icmpReply (s : State) (r : ByteMem) (n : ℕ) : State :=
  if n < 42 then s
  else
    let f := r.bytes 0 n
    let f := patch f 0 (r.bytes 6 6)
    let f := patch f 6 (ofFn dev.mac)
    let f := patch f 26 (r.bytes 30 4)
    let f := patch f 30 (addressBytes ip)
    let f := patch f 34 [0]
    let f := patch f 36 (be16 0)
    let (k, s) := s.minus 64 n 34
    (s.send dev (patch f 36 (be16 (checksum ((f.drop 34).take k))))).2

/-! ### DNS and NTP -/

/-- The loop of `dns_skip_name` for a number of labels, which is 128. -/
def dnsSkipName (d : ByteMem) (n : ℕ) : ℕ → ℕ → ℕ
  | 0, _ => 0
  | labels + 1, p =>
    if n ≤ p then 0
    else if d p &&& 0xc0 = 0xc0 then (if p + 1 < n then p + 2 else 0)
    else if d p = 0 then p + 1
    else if d p > 63 ∨ p + 1 + (d p).toNat > n then 0
    else dnsSkipName d n labels (p + 1 + (d p).toNat)

/-- The first loop of `dns_receive`: where the answers begin. -/
def dnsQuestions (d : ByteMem) (n : ℕ) : ℕ → ℕ → Option ℕ
  | 0, p => some p
  | questions + 1, p =>
    let p := dnsSkipName d n 128 p
    if p = 0 ∨ p + 4 > n then none else dnsQuestions d n questions (p + 4)

/-- The second loop of `dns_receive`: the status, and an address if there is one. -/
def dnsAnswers (d : ByteMem) (n : ℕ) : ℕ → ℕ → ℤ × Option UInt32
  | 0, _ => (-4, none)
  | answers + 1, p =>
    let p := dnsSkipName d n 128 p
    if p = 0 ∨ p + 10 > n then (-10, none)
    else
      let type := read16 d p
      let classCode := read16 d (p + 2)
      let length := (read16 d (p + 8)).toNat
      let p := p + 10
      if p + length > n then (-10, none)
      else if type = 1 ∧ classCode = 1 ∧ length = 4 then (1, some (address d p))
      else dnsAnswers d n answers (p + length)

/-- `dns_receive`. -/
def dnsReceive (s : State) (d : ByteMem) (n : ℕ) : State :=
  if n < 12 then s
  else
    let id := read16 d 0
    let flags := read16 d 2
    let questions := (read16 d 4).toNat
    let answers := (read16 d 6).toNat
    if id ≠ s.dnsReplyId ∨ flags &&& 0x8000 = 0 then s
    else if flags &&& 15 ≠ 0 then { s with dnsReplyStatus := -((flags &&& 15).toNat : ℤ) }
    else match dnsQuestions d n questions 12 with
      | none => { s with dnsReplyStatus := -10 }
      | some p =>
        let (status, found) := dnsAnswers d n answers p
        { s with dnsReplyStatus := status, dnsReplyAddress := found.getD s.dnsReplyAddress }

/-- `NETWORK_NTP_OK`. -/
def ntpOk : ℤ := 1

/-- `ntp_receive`. -/
def ntpReceive (s : State) (d : ByteMem) (n : ℕ) (source : UInt32) : State :=
  if source ≠ s.ntpServerIp then s
  else if n < 48 then { s with ntpReplyStatus := -6 }
  else
    let leap := d 0 >>> 6
    let mode := d 0 &&& 7
    let stratum := d 1
    if mode ≠ 4 then { s with ntpReplyStatus := -7 }
    else if leap = 3 then { s with ntpReplyStatus := -8 }
    else if stratum = 0 ∨ stratum ≥ 16 then { s with ntpReplyStatus := -9 }
    else
      let originate := read64 d 24
      let receive := read64 d 32
      let transmit := read64 d 40
      if originate ≠ s.ntpRequestTimestamp then { s with ntpReplyStatus := -10 }
      else if receive = 0 ∨ transmit = 0 ∨ transmit < receive then { s with ntpReplyStatus := -11 }
      else { s with ntpReply := ⟨source, stratum, receive, transmit⟩, ntpReplyStatus := ntpOk }

/-! ### TCP -/

/-- `tcp_checksum`. -/
def tcpChecksum (destination : UInt32) (segment : List UInt8) : UInt16 :=
  checksum (addressBytes ip ++ addressBytes destination ++ [0, 6] ++ be16 (UInt16.ofNat segment.length) ++
    segment)

/-- The segment `tcp_send` builds, before its checksum is filled in. -/
def tcpSegment (tcp : Tcp.State) (flags : UInt8) (data : List UInt8) : List UInt8 :=
  be16 tcp.localPort ++ be16 tcp.remotePort ++ be32 tcp.localSeq ++ be32 tcp.remoteSeq ++ [0x50, flags] ++
    be16 4096 ++ be16 0 ++ be16 0 ++ data

/-- `tcp_send`. -/
def tcpSend (poll : State → State) (s : State) (flags : UInt8) (data : List UInt8) : Bool × State :=
  match resolveNextHop dev poll s s.tcp.remoteIp 2000000 with
  | (none, s) => (false, s)
  | (some n, s) =>
    if data.length > 1400 then (false, s)
    else
      let (headers, s) := ipv4Begin dev s s.tcp.remoteIp 6 (20 + data.length) n.mac
      let segment := tcpSegment s.tcp flags data
      s.send dev (headers ++ patch segment 16 (be16 (tcpChecksum s.tcp.remoteIp segment)))

/-- `tcp_receive`, on the segment of `n` bytes at `tcp`. -/
def tcpReceive (poll : State → State) (s : State) (tcp : ByteMem) (n : ℕ) (source : UInt32) : State :=
  if source ≠ s.tcp.remoteIp ∨ n < 20 ∨ read16 tcp 2 ≠ s.tcp.localPort ∨ read16 tcp 0 ≠ s.tcp.remotePort then s
  else
    let header := (tcp 12 >>> 4).toNat * 4
    if header < 20 ∨ header > n then s
    else
      let flags := tcp 13
      let seq := read32 tcp 4
      let ack := read32 tcp 8
      if flags &&& 4 ≠ 0 then { s with tcp := { s.tcp with state := -2 } }
      else
        let s := if flags &&& 0x10 ≠ 0 then { s with tcp := { s.tcp with lastAck := ack } } else s
        if flags &&& 0x12 = 0x12 ∧ s.tcp.state = 1 then
          { s with tcp := { s.tcp with remoteSeq := seq + 1, localSeq := ack, lastAck := ack, state := 2 } }
        else
          let (payload, s) := s.minus 64 n header
          if (payload ≠ 0 ∨ flags &&& 1 ≠ 0) ∧ seq ≠ s.tcp.remoteSeq then
            let s := if Serial.signed (seq - s.tcp.remoteSeq) > 0 then
                { s with
                  tcp := Tcp.tcpStoreFragment s.tcp seq (tcp.bytes header payload) (flags &&& 1 ≠ 0) }
              else s
            (tcpSend dev poll s 0x10 []).2
          else
            let s := if payload ≠ 0 then
                { s with tcp := Tcp.tcpAppend s.tcp (tcp.bytes header payload) } else s
            let s := if flags &&& 1 ≠ 0 then
                { s with tcp := { s.tcp with remoteSeq := s.tcp.remoteSeq + 1, state := 4 } } else s
            (tcpSend dev poll { s with tcp := Tcp.tcpDrainFragments s.tcp } 0x10 []).2

/-! ### Frames -/

/-- The part of `process` for ICMP: `total` bytes of an IP packet for this machine, of which `p`
is the payload. -/
def icmpReceive (s : State) (f p : ByteMem) (total : ℕ) : State :=
  if p 0 = 8 then icmpReply dev s f (14 + total)
  else if p 0 = 0 then { s with replySequence := read16 p 6 }
  else if p 0 = 3 then { s with pingErrorType := p 0, pingErrorCode := p 1, pingError := true }
  else s

/-- The part of `process` for UDP. -/
def udpReceive (s : State) (p : ByteMem) (length : ℕ) (source : UInt32) : State :=
  let sourcePort := read16 p 0
  let destination := read16 p 2
  let udpLength := (read16 p 4).toNat
  if sourcePort = 53 ∧ destination = 53000 ∧ 8 ≤ udpLength ∧ udpLength ≤ length then
    let (k, s) := s.minus 64 udpLength 8
    dnsReceive s (shift p 8) k
  else if sourcePort = 123 ∧ destination = 53001 ∧ 56 ≤ udpLength ∧ udpLength ≤ length then
    let (k, s) := s.minus 64 udpLength 8
    ntpReceive s (shift p 8) k source
  else s

/-- The length of the IP packet: as it says, or what has been received if that cannot be. -/
def ipTotal (s : State) (f : ByteMem) (n ihl : ℕ) : ℕ × State :=
  let total := (read16 f 16).toNat
  if total < ihl ∨ 14 + total > n then
    let (k, s) := s.minus 64 n 14
    (k % 2 ^ 16, s)
  else (total, s)

/-- The part of `process` for IPv4. -/
def ipReceive (poll : State → State) (s : State) (f : ByteMem) (n : ℕ) : State :=
  let ihl := (f 14 &&& 15).toNat * 4
  if ihl < 20 ∨ 14 + ihl > n then s
  else
    let (total, s) := ipTotal s f n ihl
    let source := address f 26
    let target := address f 30
    if target ≠ ip then s
    else
      let p := shift f (14 + ihl)
      let (length, s) := s.minus 32 total ihl
      if f 23 = 1 ∧ 8 ≤ length then icmpReceive dev s f p total
      else if f 23 = 17 ∧ 8 ≤ length then udpReceive s p length source
      else if f 23 = 6 then tcpReceive dev poll s p length source
      else s

/-- The part of `process` for ARP. -/
def arpReceive (s : State) (f : ByteMem) : State :=
  let op := read16 f 20
  let sender := address f 28
  let target := address f 38
  let s := neighborStore s sender (macAt f 22)
  if op = 1 ∧ target = ip then arpReply dev s f else s

/-- `process`. -/
def process (poll : State → State) (s : State) (f : ByteMem) (n : ℕ) : State :=
  let s := { s with processed := s.processed ++ [f.bytes 0 n] }
  if n < 14 then s
  else
    let type := read16 f 12
    if type = 0x0806 ∧ 42 ≤ n then arpReceive dev s f
    else if type ≠ 0x0800 ∨ n < 34 then s
    else ipReceive dev poll s f n

/-- The loop of `network_poll`. -/
def pollFrames (receive : State → ByteMem → ℕ → State) : ℕ → State → State
  | 0, s => s
  | k + 1, s =>
    let found := dev.receive s.polls
    let s := { s with polls := s.polls + 1 }
    match found with
    | none => s
    | some a => pollFrames receive k (receive s a.buffer a.size)

/-- `network_poll`, when no more than `depth` polls are nested. -/
def networkPoll : ℕ → State → State
  | 0, s => s
  | depth + 1, s =>
    if ¬s.ready then s else pollFrames dev (process dev (networkPoll depth)) 16 s

/-- The variables before anything has been called. -/
def State.blank : State where
  neighbors := fun _ => none
  ready := false
  ipId := 0
  sequence := 0
  replySequence := 0
  pingError := false
  pingErrorType := 0
  pingErrorCode := 0
  dnsReplyId := 0
  dnsReplyStatus := 0
  dnsReplyAddress := 0
  ntpReplyStatus := 0
  ntpServerIp := 0
  ntpRequestTimestamp := 0
  ntpReply := ⟨0, 0, 0, 0⟩
  tcp := ⟨0, 0, 0, 0, 0, 0, 0, [], fun _ => none⟩
  polls := 0
  cancels := 0
  sent := []
  processed := []
  resolved := []
  wrapped := false

/-- `network_init`, where `netdev_init` has found a device or not. -/
def networkInit (found : Bool) (s : State) : State :=
  let s := { s with
    ready := found, neighbors := fun _ => none, ipId := 0, sequence := 0, replySequence := 0, dnsReplyId := 0,
    dnsReplyStatus := 0 }
  if found then arpRequest dev s gateway else s

/-! ### Names and time -/

/-- The loop of `network_parse_ipv4`, from the given part on. -/
def parseParts : ℕ → ℕ → UInt32 → List UInt8 → UInt32
  | 0, _, v, s => if s = [] then v else 0
  | parts + 1, part, v, s =>
    let (n, rest) := number (2 ^ 32) 0 s
    if rest.length = s.length ∨ n > 255 then 0
    else
      let v := v ||| UInt32.ofNat (n * 2 ^ (part * 8))
      if part < 3 then
        match rest with
        | 46 :: rest => parseParts parts (part + 1) v rest
        | _ => 0
      else parseParts parts (part + 1) v rest

/-- `network_parse_ipv4`. -/
def networkParseIpv4 (s : List UInt8) : UInt32 := parseParts 4 0 0 s

/-- The labels of a name as `network_resolve` writes them behind the 12 bytes of the header; `fuel` is
the length of the name. -/
def dnsLabels : ℕ → List UInt8 → List UInt8 → Option (List UInt8)
  | 0, out, _ => some out
  | fuel + 1, out, name =>
    if name = [] then some out
    else
      let label := name.takeWhile (· != 46)
      if label = [] ∨ label.length > 63 ∨ 12 + out.length + label.length + 1 ≥ 256 then none
      else dnsLabels fuel (out ++ [UInt8.ofNat label.length] ++ label) (name.drop (label.length + 1))

/-- Waiting for the answer to a query, at most so many polls; `none` if it was given up because of
Ctrl+C. -/
def awaitDns (poll : State → State) : ℕ → State → Option Unit × State
  | 0, s => (some (), s)
  | spins + 1, s =>
    if s.dnsReplyStatus ≠ 0 then (some (), s)
    else
      let (cancelled, s) := s.cancelRequested dev
      if cancelled then (none, s) else awaitDns poll spins (poll s)

/-- The number of the next query, which is not 0. -/
def nextQuery (id : UInt16) : UInt16 := if id + 1 = 0 then 1 else id + 1

/-- The query of `network_resolve`, in a UDP packet. -/
def dnsQuery (id : UInt16) (labels : List UInt8) : List UInt8 :=
  let q := be16 id ++ be16 0x0100 ++ be16 1 ++ be16 0 ++ be16 0 ++ be16 0 ++ labels ++ [0] ++ be16 1 ++ be16 1
  be16 53000 ++ be16 53 ++ be16 (UInt16.ofNat (8 + q.length)) ++ be16 0 ++ q

/-- An address has been found. -/
def State.resolve (s : State) (name : List UInt8) (a : UInt32) : ℤ × UInt32 × State :=
  (1, a, { s with resolved := s.resolved ++ [(name, a)] })

/-- The part of `network_resolve` that sends a query and waits. -/
def dnsAsk (poll : State → State) (s : State) (mac : Mac) (labels : List UInt8) (spins : ℕ) : Option Unit × State :=
  let s := { s with dnsReplyId := nextQuery s.dnsReplyId }
  let query := dnsQuery s.dnsReplyId labels
  let (headers, s) := ipv4Begin dev s dnsServer 17 query.length mac
  let s := { s with dnsReplyStatus := 0, dnsReplyAddress := 0 }
  let (_, s) := s.send dev (headers ++ query)
  awaitDns dev poll spins s

/-- `network_resolve`: the number it returns, and the address if that is 1. -/
def networkResolve (poll : State → State) (s : State) (name : List UInt8) (spins : ℕ) : ℤ × UInt32 × State :=
  if ¬s.ready then (-1, 0, s)
  else if networkParseIpv4 name ≠ 0 then s.resolve name (networkParseIpv4 name)
  else match resolveNextHop dev poll s dnsServer spins with
    | (none, s) => (-2, 0, s)
    | (some n, s) =>
      if name.length > 253 then (-3, 0, s)
      else match dnsLabels name.length [] name with
        | none => (-3, 0, s)
        | some labels => match dnsAsk dev poll s n.mac labels spins with
          | (none, s) => (0, 0, s)
          | (some _, s) =>
            if s.dnsReplyStatus = 1 then s.resolve name s.dnsReplyAddress else (s.dnsReplyStatus, 0, s)

/-- The loop of `network_ntp_query`. -/
def awaitNtp (poll : State → State) : ℕ → State → State
  | 0, s => s
  | spins + 1, s => if s.ntpReplyStatus ≠ 0 then s else awaitNtp poll spins (poll s)

/-- The request of `network_ntp_query`, in a UDP packet. -/
def ntpRequest (timestamp : UInt64) : List UInt8 :=
  be16 53001 ++ be16 123 ++ be16 56 ++ be16 0 ++ [0x23] ++ replicate 39 0 ++ be64 timestamp

/-- The part of `network_ntp_query` that sends the request and waits, with what `netdev_send`
returned. -/
def ntpAsk (poll : State → State) (s : State) (a : UInt32) (mac : Mac) (timestamp : UInt64) (spins : ℕ) :
    Bool × State :=
  let (headers, s) := ipv4Begin dev s a 17 56 mac
  let s := { s with ntpServerIp := a, ntpRequestTimestamp := timestamp, ntpReplyStatus := 0 }
  let (sent, s) := s.send dev (headers ++ ntpRequest timestamp)
  if ¬sent then (false, s) else (true, awaitNtp poll spins s)

/-- `network_ntp_query`: the number it returns, and the reply if that is 1. -/
def networkNtpQuery (poll : State → State) (s : State) (server : List UInt8) (timestamp : UInt64) (spins : ℕ) :
    ℤ × Option NtpResult × State :=
  if ¬s.ready ∨ timestamp = 0 then (-1, none, s)
  else match networkResolve dev poll s server spins with
    | (resolved, a, s) =>
      if resolved ≠ 1 then (-2, none, s)
      else match resolveNextHop dev poll s a spins with
        | (none, s) => (-3, none, s)
        | (some n, s) => match ntpAsk dev poll s a n.mac timestamp spins with
          | (false, s) => (-4, none, s)
          | (true, s) =>
            if s.ntpReplyStatus = ntpOk then (ntpOk, some s.ntpReply, s)
            else (if s.ntpReplyStatus ≠ 0 then s.ntpReplyStatus else -5, none, s)

end OS64.Net
