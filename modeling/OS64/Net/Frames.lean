import OS64.Net.Model

/-!
# What a frame can do

A frame of `n` bytes is processed without a look behind these bytes, however it was
made: two buffers that agree on the first `n` bytes lead to the same state and the
same frames sent (`OS64.Net.process_congr`). Every length in a packet is checked
against the length of what contains it before it is used; what has to be shown for each
function is that its reads lie within the `n` bytes it is given, and for `process`
that the IP packet lies within the frame (`OS64.Net.ipTotal_spec`), and the
payload within the packet.

From the same checks no subtraction goes below zero, and every frame that is sent
fits its buffer. Processing a frame may poll the device and process others, so this
second half is a relation between states, `OS64.Net.Effect`, that is kept by each
function and then by polls of every depth.
-/

namespace OS64.Net

open List Relation
open Tcp (fromPeer payload hasFin flags)
open ByteMem (length_bytes)

variable {p : ByteMem} {frame : List UInt8} {i k : ℕ}

variable {dev : Device} {poll : State → State} {s : State} {f f' : ByteMem} {n : ℕ}

/-! ### Buffers that agree -/

/-- Two buffers agree on the first `n` bytes. -/
def Agree (n : ℕ) (f f' : ByteMem) : Prop := ∀ i < n, f i = f' i

section

variable (h : Agree n f f')
include h

theorem Agree.read16 (hi : i + 2 ≤ n) : read16 f i = read16 f' i := by
  rw [Net.read16, Net.read16, h i (by omega), h (i + 1) (by omega)]

theorem Agree.read32 (hi : i + 4 ≤ n) : read32 f i = read32 f' i := by
  rw [Net.read32, Net.read32, h i (by omega), h (i + 1) (by omega), h (i + 2) (by omega), h (i + 3) (by omega)]

theorem Agree.read64 (hi : i + 8 ≤ n) : read64 f i = read64 f' i := by
  rw [Net.read64, Net.read64, h.read32 (by omega), h.read32 (by omega)]

theorem Agree.address (hi : i + 4 ≤ n) : address f i = address f' i := by
  rw [Net.address, Net.address, ByteMem.readLE_congr fun x _ hx => h x (by omega)]

theorem Agree.bytes (hi : i + k ≤ n) : f.bytes i k = f'.bytes i k := ByteMem.bytes_congr fun x _ hx => h x (by omega)

theorem Agree.macAt (hi : i + 6 ≤ n) : macAt f i = macAt f' i := by
  funext k
  exact h (i + k) (by omega)

end

variable {m : ℕ}

theorem Agree.mono (h : Agree n f f') (hm : m ≤ n) : Agree m f f' := fun i hi => h i (by omega)

theorem Agree.shift (h : Agree n f f') (hk : k + m ≤ n) : Agree m (shift f k) (shift f' k) :=
  fun i hi => h (k + i) (by omega)

/-- A frame as a buffer. -/
def buffer (frame : List UInt8) : ByteMem := fun i => frame.getD i 0

theorem agree_buffer (f : ByteMem) (n : ℕ) : Agree n f (buffer (f.bytes 0 n)) := by
  intro i hi
  rw [buffer, ByteMem.bytes]
  simp [hi]

/-! ### Lengths -/

theorem minus_of_le {w a b : ℕ} (hb : b ≤ a) (ha : a < 2 ^ w) : s.minus w a b = (a - b, s) := by
  have hvalue : (a + 2 ^ w - b) % 2 ^ w = a - b := by
    rw [show a + 2 ^ w - b = a - b + 2 ^ w by omega, Nat.add_mod_right]
    exact Nat.mod_eq_of_lt (by omega)
  have hflag : (s.wrapped || decide (a < b)) = s.wrapped := by
    rw [decide_eq_false (by omega), Bool.or_false]
  rw [State.minus, hvalue, hflag]

/-- **The packet lies within the frame**: the length that is used is at least that of the
header and at most what has been received. -/
theorem ipTotal_spec {ihl : ℕ} (hn : n ≤ frameSize) (hihl : 14 + ihl ≤ n) :
    ∃ total, ipTotal s f n ihl = (total, s) ∧ ihl ≤ total ∧ 14 + total ≤ n := by
  rw [frameSize] at hn
  rw [ipTotal]
  by_cases hbad : (read16 f 16).toNat < ihl ∨ 14 + (read16 f 16).toNat > n
  · refine ⟨n - 14, ?_, by omega, by omega⟩
    rw [if_pos hbad, minus_of_le (by omega) (by omega)]
    have hsmall : (n - 14) % 2 ^ 16 = n - 14 := Nat.mod_eq_of_lt (by omega)
    exact Prod.ext hsmall rfl
  · rw [if_neg hbad]
    exact ⟨_, rfl, by omega, by omega⟩

/-! ### DNS -/

theorem dnsSkipName_congr (h : Agree n f f') (labels p : ℕ) : dnsSkipName f n labels p = dnsSkipName f' n labels p := by
  induction labels generalizing p with
  | zero => rfl
  | succ labels ih =>
    rw [dnsSkipName, dnsSkipName]
    by_cases hp : n ≤ p
    · rw [if_pos hp, if_pos hp]
    · rw [if_neg hp, if_neg hp, h p (by omega), ih]

theorem dnsQuestions_congr (h : Agree n f f') (questions p : ℕ) :
    dnsQuestions f n questions p = dnsQuestions f' n questions p := by
  induction questions generalizing p with
  | zero => rfl
  | succ questions ih => rw [dnsQuestions, dnsQuestions, dnsSkipName_congr h, ih]

/-- The fields of a record are read only when all of them are there. -/
theorem dnsAnswers_congr (h : Agree n f f') (answers p : ℕ) : dnsAnswers f n answers p = dnsAnswers f' n answers p := by
  induction answers generalizing p with
  | zero => rfl
  | succ answers ih =>
    rw [dnsAnswers, dnsAnswers, dnsSkipName_congr h]
    generalize dnsSkipName f' n 128 p = p'
    by_cases hp : p' = 0 ∨ p' + 10 > n
    · rw [if_pos hp, if_pos hp]
    rw [if_neg hp, if_neg hp, h.read16 (by omega), h.read16 (by omega), h.read16 (by omega)]
    by_cases hlength : p' + 10 + (read16 f' (p' + 8)).toNat > n
    · rw [if_pos hlength, if_pos hlength]
    rw [if_neg hlength, if_neg hlength, ih]
    by_cases hfour : read16 f' p' = 1 ∧ read16 f' (p' + 2) = 1 ∧ (read16 f' (p' + 8)).toNat = 4
    · rw [if_pos hfour, if_pos hfour, h.address (by omega)]
    · rw [if_neg hfour, if_neg hfour]

theorem dnsReceive_congr (h : Agree n f f') : dnsReceive s f n = dnsReceive s f' n := by
  rw [dnsReceive, dnsReceive]
  by_cases hn : n < 12
  · rw [if_pos hn, if_pos hn]
  · rw [if_neg hn, if_neg hn, h.read16 (by omega), h.read16 (by omega), h.read16 (by omega), h.read16 (by omega)]
    simp only [dnsQuestions_congr h, dnsAnswers_congr h]

/-! ### Segments -/

theorem byte_bytes (hi : i < n) : Tcp.byte (f.bytes 0 n) i = f i := ((agree_buffer f n) i hi).symm

theorem read16_bytes (hi : i + 2 ≤ n) : Tcp.read16 (f.bytes 0 n) i = read16 f i := by
  rw [Tcp.read16, read16, byte_bytes (by omega), byte_bytes (by omega)]

theorem read32_bytes (hi : i + 4 ≤ n) : Tcp.read32 (f.bytes 0 n) i = read32 f i := by
  rw [Tcp.read32, read32, byte_bytes (by omega), byte_bytes (by omega), byte_bytes (by omega), byte_bytes (by omega)]

theorem drop_bytes (hk : k ≤ n) : (f.bytes 0 n).drop k = f.bytes k (n - k) := by
  have hsplit : f.bytes 0 n = f.bytes 0 k ++ f.bytes k (n - k) := by
    conv_lhs => rw [show n = k + (n - k) by omega, ByteMem.bytes_add, zero_add]
  rw [hsplit, drop_append_of_le_length (by rw [length_bytes]), drop_of_length_le (by rw [length_bytes]), nil_append]

/-- **The segment is what `tcp_receive` is modelled on**: on a memory the function does what
`OS64.Tcp.tcpReceive` says of the bytes, and then sends the acknowledgement if there is one. -/
theorem tcpReceive_eq (hn : n < 2 ^ 64) (source : UInt32) :
    tcpReceive dev poll s f n source =
      if (Tcp.tcpReceive s.tcp (f.bytes 0 n) source).2 then
        (tcpSend dev poll { s with tcp := (Tcp.tcpReceive s.tcp (f.bytes 0 n) source).1 } 0x10 []).2
      else { s with tcp := (Tcp.tcpReceive s.tcp (f.bytes 0 n) source).1 } := by
  have hlength : (f.bytes 0 n).length = n := length_bytes f 0 n
  by_cases hshort : n < 20
  · have hpeer : fromPeer s.tcp (f.bytes 0 n) source = false := by
      rw [fromPeer, decide_eq_false_iff_not, hlength]
      omega
    rw [tcpReceive, if_pos (.inr (.inl hshort)), Tcp.tcpReceive, hpeer]
    rfl
  have hheader : Tcp.header (f.bytes 0 n) = (f 12 >>> 4).toNat * 4 := by
    rw [Tcp.header, byte_bytes (by omega)]
  have hflags : flags (f.bytes 0 n) = f 13 := byte_bytes (by omega)
  have hpeer : fromPeer s.tcp (f.bytes 0 n) source = true ↔
      ¬(source ≠ s.tcp.remoteIp ∨ n < 20 ∨ read16 f 2 ≠ s.tcp.localPort ∨ read16 f 0 ≠ s.tcp.remotePort) ∧
        ¬((f 12 >>> 4).toNat * 4 < 20 ∨ (f 12 >>> 4).toNat * 4 > n) := by
    rw [fromPeer, decide_eq_true_eq, hlength, hheader, read16_bytes (by omega), read16_bytes (by omega)]
    constructor
    · rintro ⟨hsource, -, hlocal, hremote, hlow, hhigh⟩
      refine ⟨?_, by omega⟩
      simp only [not_or, not_not]
      exact ⟨hsource, hshort, hlocal, hremote⟩
    · rintro ⟨hguard, hbounds⟩
      simp only [not_or, not_not] at hguard
      exact ⟨hguard.1, by omega, hguard.2.2.1, hguard.2.2.2, by omega, by omega⟩
  by_cases hguard : source ≠ s.tcp.remoteIp ∨ n < 20 ∨ read16 f 2 ≠ s.tcp.localPort ∨ read16 f 0 ≠ s.tcp.remotePort
  · have hnot : ¬fromPeer s.tcp (f.bytes 0 n) source = true := fun h => (hpeer.mp h).1 hguard
    rw [tcpReceive, if_pos hguard, Tcp.tcpReceive, if_pos hnot]
    rfl
  by_cases hbounds : (f 12 >>> 4).toNat * 4 < 20 ∨ (f 12 >>> 4).toNat * 4 > n
  · have hnot : ¬fromPeer s.tcp (f.bytes 0 n) source = true := fun h => (hpeer.mp h).2 hbounds
    rw [tcpReceive, if_neg hguard, if_pos hbounds, Tcp.tcpReceive, if_pos hnot]
    rfl
  have hpayload : payload (f.bytes 0 n) = f.bytes ((f 12 >>> 4).toNat * 4) (n - (f 12 >>> 4).toNat * 4) := by
    rw [payload, hheader, drop_bytes (by omega)]
  have hempty : n - (f 12 >>> 4).toNat * 4 ≠ 0 ↔ payload (f.bytes 0 n) ≠ [] := by
    rw [hpayload, ne_eq, ne_eq, ← length_eq_zero_iff, length_bytes]
  have hseq : Tcp.seq (f.bytes 0 n) = read32 f 4 := read32_bytes (by omega)
  have hack : Tcp.ack (f.bytes 0 n) = read32 f 8 := read32_bytes (by omega)
  have hite : ∀ (c : Prop) [Decidable c] (s : State) (t : Tcp.State),
      (if c then { s with tcp := t } else s) = { s with tcp := if c then t else s.tcp } := by
    intro c _ s t
    split_ifs
    · rfl
    · rfl
  have hfrom : ¬¬fromPeer s.tcp (f.bytes 0 n) source = true := not_not.mpr (hpeer.mpr ⟨hguard, hbounds⟩)
  rw [tcpReceive, if_neg hguard, if_neg hbounds, Tcp.tcpReceive, if_neg hfrom]
  simp only [minus_of_le (show (f 12 >>> 4).toNat * 4 ≤ n by omega) hn, hempty, ← hpayload, ← hflags, ← hseq,
    ← hack, hite]
  generalize f.bytes 0 n = tcp
  have hrstIff : flags tcp &&& 4 ≠ 0 ↔ Tcp.hasRst tcp = true := by rw [Tcp.hasRst, decide_eq_true_eq]
  have hackIff : flags tcp &&& 0x10 ≠ 0 ↔ Tcp.hasAck tcp = true := by rw [Tcp.hasAck, decide_eq_true_eq]
  have hsynIff : flags tcp &&& 0x12 = 0x12 ↔ Tcp.isSynAck tcp = true := by
    rw [Tcp.isSynAck, decide_eq_true_eq]
  have hfinIff : flags tcp &&& 1 ≠ 0 ↔ hasFin tcp = true := by rw [hasFin, decide_eq_true_eq]
  simp only [hrstIff, hackIff, hsynIff, hfinIff, Bool.decide_eq_true]
  by_cases hrst : Tcp.hasRst tcp = true
  · simp only [if_pos hrst]
    rfl
  simp only [if_neg hrst]
  generalize (if Tcp.hasAck tcp = true then { s.tcp with lastAck := Tcp.ack tcp } else s.tcp) = t
  by_cases hsyn : Tcp.isSynAck tcp = true ∧ t.state = 1
  · simp only [if_pos hsyn]
    rfl
  simp only [if_neg hsyn]
  by_cases hlater : (payload tcp ≠ [] ∨ hasFin tcp = true) ∧ Tcp.seq tcp ≠ t.remoteSeq
  · simp only [if_pos hlater]
    by_cases hahead : Serial.signed (Tcp.seq tcp - t.remoteSeq) > 0
    · simp only [if_pos hahead, if_true]
    · simp only [if_neg hahead, if_true]
  · simp only [if_neg hlater, if_true]
    by_cases hdata : payload tcp ≠ []
    · by_cases hfin : hasFin tcp = true
      · simp only [if_pos hdata, if_pos hfin]
      · simp only [if_pos hdata, if_neg hfin]
    · by_cases hfin : hasFin tcp = true
      · simp only [if_neg hdata, if_pos hfin]
      · simp only [if_neg hdata, if_neg hfin]

/-! ### NTP, ICMP, UDP and TCP -/

theorem ntpReceive_congr (h : Agree n f f') (source : UInt32) : ntpReceive s f n source = ntpReceive s f' n source := by
  rw [ntpReceive, ntpReceive]
  by_cases hn : n < 48
  · rw [if_pos hn, if_pos hn]
  · rw [if_neg hn, if_neg hn, h 0 (by omega), h 1 (by omega), h.read64 (by omega), h.read64 (by omega),
      h.read64 (by omega)]

theorem icmpReply_congr (h : Agree n f f') : icmpReply dev s f n = icmpReply dev s f' n := by
  rw [icmpReply, icmpReply]
  by_cases hn : n < 42
  · rw [if_pos hn, if_pos hn]
  · rw [if_neg hn, if_neg hn, h.bytes (by omega), h.bytes (by omega), h.bytes (by omega)]

theorem icmpReceive_congr {p' : ByteMem} {total : ℕ} (h : Agree (14 + total) f f') (hp : Agree 8 p p') :
    icmpReceive dev s f p total = icmpReceive dev s f' p' total := by
  rw [icmpReceive, icmpReceive, icmpReply_congr h, hp 0 (by omega), hp 1 (by omega), hp.read16 (by omega)]

theorem udpReceive_congr (hn : n < 2 ^ 64) (h : Agree n f f') (h8 : 8 ≤ n) (source : UInt32) :
    udpReceive s f n source = udpReceive s f' n source := by
  rw [udpReceive, udpReceive, h.read16 (by omega), h.read16 (by omega), h.read16 (by omega)]
  generalize (read16 f' 4).toNat = k
  by_cases hdns : read16 f' 0 = 53 ∧ read16 f' 2 = 53000 ∧ 8 ≤ k ∧ k ≤ n
  · rw [if_pos hdns, if_pos hdns, minus_of_le (by omega) (by omega)]
    exact dnsReceive_congr (h.shift (by omega))
  rw [if_neg hdns, if_neg hdns]
  by_cases hntp : read16 f' 0 = 123 ∧ read16 f' 2 = 53001 ∧ 56 ≤ k ∧ k ≤ n
  · rw [if_pos hntp, if_pos hntp, minus_of_le (by omega) (by omega)]
    exact ntpReceive_congr (h.shift (by omega)) source
  · rw [if_neg hntp, if_neg hntp]

theorem tcpReceive_congr (hn : n < 2 ^ 64) (h : Agree n f f') (source : UInt32) :
    tcpReceive dev poll s f n source = tcpReceive dev poll s f' n source := by
  rw [tcpReceive_eq hn, tcpReceive_eq hn, h.bytes (by omega)]

/-! ### Frames -/

theorem arpReceive_congr (h : Agree n f f') (hn : 42 ≤ n) : arpReceive dev s f = arpReceive dev s f' := by
  rw [arpReceive, arpReceive, arpReply, arpReply, h.read16 (by omega), h.address (by omega),
    h.address (by omega), h.macAt (by omega), h.bytes (by omega), h.bytes (by omega), h.bytes (by omega)]

theorem ipReceive_congr (hn : n ≤ frameSize) (hlong : 34 ≤ n) (h : Agree n f f') :
    ipReceive dev poll s f n = ipReceive dev poll s f' n := by
  have hsize : n < 2 ^ 16 := by
    rw [frameSize] at hn
    omega
  rw [ipReceive, ipReceive, h 14 (by omega), h 23 (by omega), h.address (by omega), h.address (by omega)]
  generalize (f' 14 &&& 15).toNat * 4 = ihl
  by_cases hihl : ihl < 20 ∨ 14 + ihl > n
  · rw [if_pos hihl, if_pos hihl]
  have htotal' : ipTotal s f n ihl = ipTotal s f' n ihl := by
    rw [ipTotal, ipTotal, h.read16 (by omega)]
  obtain ⟨total, htotal, hle, hin⟩ := ipTotal_spec (s := s) (f := f') hn (show 14 + ihl ≤ n by omega)
  rw [htotal', htotal]
  dsimp only
  rw [minus_of_le hle (by omega)]
  have hpayload : Agree (total - ihl) (shift f (14 + ihl)) (shift f' (14 + ihl)) := h.shift (by omega)
  rw [tcpReceive_congr (by omega) hpayload]
  by_cases hicmp : f' 23 = 1 ∧ 8 ≤ total - ihl
  · rw [if_pos hicmp, if_pos hicmp, icmpReceive_congr (h.mono hin) (hpayload.mono hicmp.2)]
  rw [if_neg hicmp, if_neg hicmp]
  by_cases hudp : f' 23 = 17 ∧ 8 ≤ total - ihl
  · rw [if_pos hudp, if_pos hudp, udpReceive_congr (by omega) hpayload hudp.2]
  · rw [if_neg hudp, if_neg hudp]

/-- **Nothing behind the frame is used**: buffers that agree on what has been received lead to
the same state. -/
theorem process_congr (hn : n ≤ frameSize) (h : Agree n f f') : process dev poll s f n = process dev poll s f' n := by
  rw [process, process, h.bytes (by omega)]
  by_cases hshort : n < 14
  · rw [if_pos hshort, if_pos hshort]
  rw [if_neg hshort, if_neg hshort, h.read16 (by omega)]
  by_cases harp : read16 f' 12 = 0x0806 ∧ 42 ≤ n
  · rw [if_pos harp, if_pos harp, arpReceive_congr h harp.2]
  rw [if_neg harp, if_neg harp]
  by_cases hip : read16 f' 12 ≠ 0x0800 ∨ n < 34
  · rw [if_pos hip, if_pos hip]
  · rw [if_neg hip, if_neg hip, ipReceive_congr hn (by omega) h]

/-! ### What a step can do -/

/-- The header length of an IP packet in a frame. -/
def ihl (f : ByteMem) : ℕ := (f 14 &&& 15).toNat * 4

/-- The UDP packet in a frame. -/
def udpOf (frame : List UInt8) : ByteMem := shift (buffer frame) (14 + ihl (buffer frame))

/-- What a UDP packet carries. -/
def udpData (frame : List UInt8) : ByteMem := shift (udpOf frame) 8

/-- **A reply of a time server**: a frame with a UDP packet for this machine from `server`, with the
ports of NTP, of at least 48 bytes that a client may believe, and what is kept of it. -/
structure IsNtpReply (frame : List UInt8) (server : UInt32) (timestamp : UInt64) (r : NtpResult) : Prop where
  ipv4 : read16 (buffer frame) 12 = 0x0800
  header : 20 ≤ ihl (buffer frame)
  udp : buffer frame 23 = 17
  source : address (buffer frame) 26 = server
  target : address (buffer frame) 30 = ip
  sourcePort : read16 (udpOf frame) 0 = 123
  destinationPort : read16 (udpOf frame) 2 = 53001
  /-- The eight bytes of the UDP header, and 48 bytes at least, have been received. -/
  length : 56 ≤ (read16 (udpOf frame) 4).toNat ∧
    14 + ihl (buffer frame) + (read16 (udpOf frame) 4).toNat ≤ frame.length
  mode : udpData frame 0 &&& 7 = 4
  leap : udpData frame 0 >>> 6 ≠ 3
  stratum : 1 ≤ udpData frame 1 ∧ udpData frame 1 ≤ 15
  originate : read64 (udpData frame) 24 = timestamp
  nonzero : read64 (udpData frame) 32 ≠ 0 ∧ read64 (udpData frame) 40 ≠ 0
  ordered : read64 (udpData frame) 32 ≤ read64 (udpData frame) 40
  kept : r = ⟨server, udpData frame 1, read64 (udpData frame) 32, read64 (udpData frame) 40⟩

/-- **What processing frames can do**, from `s` to `s'`, `given` being frames that are
already counted as processed: no length goes below zero, all frames sent fit, and the reply of a
time server is what it was, or is not accepted, or comes from one of the frames. -/
structure Effect (given : List (List UInt8)) (s s' : State) : Prop where
  wrapped : s'.wrapped = s.wrapped
  sent : ∃ new, s'.sent = s.sent ++ new ∧ ∀ frame ∈ new, frame.length ≤ frameSize
  processed : ∃ new, s'.processed = s.processed ++ new
  resolved : s'.resolved = s.resolved
  server : s'.ntpServerIp = s.ntpServerIp
  timestamp : s'.ntpRequestTimestamp = s.ntpRequestTimestamp
  reply : s'.ntpReplyStatus = s.ntpReplyStatus ∧ s'.ntpReply = s.ntpReply ∨ s'.ntpReplyStatus ≠ ntpOk ∨
    ∃ frame, (frame ∈ given ∨ frame ∈ s'.processed.drop s.processed.length) ∧
      IsNtpReply frame s.ntpServerIp s.ntpRequestTimestamp s'.ntpReply

/-! ### Lengths of frames -/

theorem length_patch {l bytes : List UInt8} (h : i + bytes.length ≤ l.length) :
    (patch l i bytes).length = l.length := by
  rw [patch, length_append, length_append, length_take, length_drop]
  omega

/-- A buffer keeps its length through one write after the other. -/
theorem length_patch_eq {l : List UInt8} (hl : l.length = n) (i : ℕ) (bytes : List UInt8) (h : i + bytes.length ≤ n) :
    (patch l i bytes).length = n := by
  rw [length_patch (by omega), hl]

theorem length_be16 (v : UInt16) : (be16 v).length = 2 := rfl

theorem length_be32 (v : UInt32) : (be32 v).length = 4 := rfl

theorem length_addressBytes (a : UInt32) : (addressBytes a).length = 4 := rfl

theorem length_ethernet (dst : Mac) (type : UInt16) : (ethernet dev dst type).length = 14 := by
  simp [ethernet, length_be16]

theorem length_ipv4Begin (destination : UInt32) (protocol : UInt8) (payload : ℕ) (mac : Mac) :
    (ipv4Begin dev s destination protocol payload mac).1.length = 34 := by
  rw [ipv4Begin, length_append, length_ethernet, length_patch]
  · simp [length_be16, length_addressBytes]
  · simp [length_be16, length_addressBytes]

theorem length_tcpSegment (tcp : Tcp.State) (flags : UInt8) (data : List UInt8) :
    (tcpSegment tcp flags data).length = 20 + data.length := by
  simp [tcpSegment, length_be16, length_be32]
  omega

/-! ### Between the replies -/

/-- The variables that carry a result from a frame to a caller, and the records. -/
def State.kept (s : State) :=
  ((s.wrapped, s.processed, s.resolved), (s.ntpServerIp, s.ntpRequestTimestamp, s.ntpReplyStatus, s.ntpReply),
    s.dnsReplyId, s.dnsReplyStatus, s.dnsReplyAddress)

/-- A change of other variables, in which frames may be sent that fit. -/
structure Minor (s s' : State) : Prop where
  sent : ∃ new, s'.sent = s.sent ++ new ∧ ∀ frame ∈ new, frame.length ≤ frameSize
  kept : s'.kept = s.kept

/-- **Minor changes and polls**, one after the other. -/
def Runs (poll : State → State) : State → State → Prop := ReflTransGen fun s s' => Minor s s' ∨ s' = poll s

section Runs

variable {s' : State}

theorem Runs.send (h : frame.length ≤ frameSize) : Runs poll s (s.send dev frame).2 :=
  .single (.inl ⟨⟨[frame], rfl, fun x hx => by rw [mem_singleton.mp hx]; exact h⟩, rfl⟩)

theorem Runs.quiet (hsent : s'.sent = s.sent) (hkept : s'.kept = s.kept) : Runs poll s s' :=
  .single (.inl ⟨⟨[], by rw [hsent, append_nil], fun x hx => absurd hx not_mem_nil⟩, hkept⟩)

theorem Runs.polled (s : State) : Runs poll s (poll s) := .single (.inr rfl)

theorem Runs.cancelRequested : Runs poll s (s.cancelRequested dev).2 := .quiet rfl rfl

/-- What minor changes and polls keep. -/
theorem Runs.lift {R : State → State → Prop} (h : Runs poll s s') (hrefl : ∀ s, R s s)
    (htrans : ∀ {s s' s''}, R s s' → R s' s'' → R s s'') (hminor : ∀ {s s'}, Minor s s' → R s s')
    (hpoll : ∀ s, R s (poll s)) : R s s' := by
  induction h with
  | refl => exact hrefl s
  | tail _ hstep ih =>
    rcases hstep with hstep | rfl
    · exact htrans ih (hminor hstep)
    · exact htrans ih (hpoll _)

theorem runs_awaitNeighbor (hop : UInt32) (spins : ℕ) : Runs poll s (awaitNeighbor dev poll hop spins s).2 := by
  induction spins generalizing s with
  | zero => exact .refl
  | succ spins ih =>
    have hcancel : Runs poll s (s.cancelRequested dev).2 := Runs.cancelRequested
    rw [awaitNeighbor]
    dsimp only
    split_ifs
    · exact hcancel
    · split
      · exact hcancel.trans (Runs.polled _)
      · exact (hcancel.trans (Runs.polled _)).trans ih

theorem runs_resolveNextHop (destination : UInt32) (spins : ℕ) :
    Runs poll s (resolveNextHop dev poll s destination spins).2 := by
  rw [resolveNextHop]
  split
  · exact .refl
  · refine ReflTransGen.trans (Runs.send (le_of_eq_of_le ?_ (show 42 ≤ frameSize by decide))) (runs_awaitNeighbor _ _)
    simp [length_ethernet, length_be16, length_addressBytes]

theorem runs_tcpSend (flags : UInt8) (data : List UInt8) : Runs poll s (tcpSend dev poll s flags data).2 := by
  have hresolve : Runs poll s (resolveNextHop dev poll s s.tcp.remoteIp 2000000).2 := runs_resolveNextHop _ _
  rw [tcpSend]
  split
  · rename_i s' heq
    rw [heq] at hresolve
    exact hresolve
  · rename_i n s' heq
    rw [heq] at hresolve
    split_ifs with hlong
    · exact hresolve
    · have hbegin : Runs poll s' (ipv4Begin dev s' s'.tcp.remoteIp 6 (20 + data.length) n.mac).2 := .quiet rfl rfl
      have hlength : (ipv4Begin dev s' s'.tcp.remoteIp 6 (20 + data.length) n.mac).1.length = 34 :=
        length_ipv4Begin _ _ _ _
      generalize ipv4Begin dev s' s'.tcp.remoteIp 6 (20 + data.length) n.mac = begun at hbegin hlength ⊢
      obtain ⟨headers, s₂⟩ := begun
      have hsegment := length_tcpSegment s₂.tcp flags data
      refine (hresolve.trans hbegin).trans (Runs.send ?_)
      rw [length_append, hlength, length_patch (by rw [length_be16, hsegment]; omega), hsegment, frameSize]
      omega

theorem runs_tcpReceive (hn : n < 2 ^ 64) (source : UInt32) : Runs poll s (tcpReceive dev poll s f n source) := by
  have htcp : ∀ tcp, Runs poll s { s with tcp := tcp } := fun tcp => .quiet rfl rfl
  rw [tcpReceive_eq hn]
  split_ifs
  · exact (htcp _).trans (runs_tcpSend _ _)
  · exact htcp _

theorem runs_icmpReply (hn : n ≤ frameSize) : Runs poll s (icmpReply dev s f n) := by
  rw [icmpReply]
  by_cases hshort : n < 42
  · rw [if_pos hshort]
    exact .refl
  rw [if_neg hshort, minus_of_le (by omega) (by rw [frameSize] at hn; omega)]
  refine Runs.send (le_of_eq_of_le ?_ hn)
  -- every byte that is written is one of the `n` bytes
  have hcopy := length_bytes f 0 n
  have hfrom := length_patch_eq hcopy 0 (f.bytes 6 6) (by rw [length_bytes]; omega)
  have hmac := length_patch_eq hfrom 6 (List.ofFn dev.mac) (by rw [length_ofFn]; omega)
  have hsource := length_patch_eq hmac 26 (f.bytes 30 4) (by rw [length_bytes]; omega)
  have htarget := length_patch_eq hsource 30 (addressBytes ip) (by rw [length_addressBytes]; omega)
  have htype := length_patch_eq htarget 34 [0] (by rw [length_singleton]; omega)
  have hzero := length_patch_eq htype 36 (be16 0) (by rw [length_be16]; omega)
  exact length_patch_eq hzero 36 _ (by rw [length_be16]; omega)

theorem runs_icmpReceive {total : ℕ} (hn : 14 + total ≤ frameSize) : Runs poll s (icmpReceive dev s f p total) := by
  rw [icmpReceive]
  split_ifs
  · exact runs_icmpReply hn
  · exact .quiet rfl rfl
  · exact .quiet rfl rfl
  · exact .refl

theorem runs_arpReceive : Runs poll s (arpReceive dev s f) := by
  have hstore : Runs poll s (neighborStore s (address f 28) (macAt f 22)) := .quiet rfl rfl
  rw [arpReceive]
  split_ifs
  · refine hstore.trans (Runs.send (le_of_eq_of_le ?_ (show 42 ≤ frameSize by decide)))
    have hpatch : (patch (f.bytes 14 8) 6 (be16 2)).length = 8 := by
      rw [length_patch (by rw [length_be16, length_bytes]), length_bytes]
    simp [length_ethernet, length_addressBytes, hpatch]
  · exact hstore

theorem runs_awaitDns (spins : ℕ) : Runs poll s (awaitDns dev poll spins s).2 := by
  induction spins generalizing s with
  | zero => exact .refl
  | succ spins ih =>
    have hcancel : Runs poll s (s.cancelRequested dev).2 := Runs.cancelRequested
    rw [awaitDns]
    dsimp only
    split_ifs
    · exact .refl
    · exact hcancel
    · exact (hcancel.trans (Runs.polled _)).trans ih

theorem runs_awaitNtp (spins : ℕ) : Runs poll s (awaitNtp poll spins s) := by
  induction spins generalizing s with
  | zero => exact .refl
  | succ spins ih =>
    rw [awaitNtp]
    split_ifs
    · exact .refl
    · exact (Runs.polled s).trans ih

end Runs

/-! ### What processing a frame comes to -/

/-- A frame that carries a UDP packet of `length` bytes from `source` for this machine. -/
structure CarriesUdp (frame : List UInt8) (source : UInt32) (length : ℕ) : Prop where
  ipv4 : read16 (buffer frame) 12 = 0x0800
  header : 20 ≤ ihl (buffer frame)
  udp : buffer frame 23 = 17
  source : address (buffer frame) 26 = source
  target : address (buffer frame) 30 = ip
  fits : 14 + ihl (buffer frame) + length ≤ frame.length

/-- The length of the packet in an IP packet. -/
def payload (frame : List UInt8) : ℕ :=
  (ipTotal .blank (buffer frame) frame.length (ihl (buffer frame))).1 - ihl (buffer frame)

theorem ipTotal_payload (hn : frame.length ≤ frameSize)
    (hihl : 14 + ihl (buffer frame) ≤ frame.length) :
    ∃ total, ipTotal s (buffer frame) frame.length (ihl (buffer frame)) = (total, s) ∧ ihl (buffer frame) ≤ total ∧
      14 + total ≤ frame.length ∧ payload frame = total - ihl (buffer frame) := by
  obtain ⟨total, htotal, hle, hin⟩ := ipTotal_spec (s := s) hn hihl
  have hsame : (ipTotal .blank (buffer frame) frame.length (ihl (buffer frame))).1 =
      (ipTotal s (buffer frame) frame.length (ihl (buffer frame))).1 := by
    rw [ipTotal, ipTotal]
    split_ifs
    · rfl
    · rfl
  exact ⟨total, htotal, hle, hin, by rw [payload, hsame, htotal]⟩

/-- The UDP packet in a frame has these ports, and at least so many bytes. -/
def Between (frame : List UInt8) (source destination : UInt16) (length : ℕ) : Prop :=
  read16 (udpOf frame) 0 = source ∧ read16 (udpOf frame) 2 = destination ∧
    length ≤ (read16 (udpOf frame) 4).toNat ∧ (read16 (udpOf frame) 4).toNat ≤ payload frame

/-- A frame carries a UDP packet for this machine between the ports of DNS. -/
def CarriesDns (frame : List UInt8) : Prop :=
  34 ≤ frame.length ∧ CarriesUdp frame (address (buffer frame) 26) (payload frame) ∧ Between frame 53 53000 8

instance (frame : List UInt8) (source : UInt32) (length : ℕ) : Decidable (CarriesUdp frame source length) :=
  decidable_of_iff (read16 (buffer frame) 12 = 0x0800 ∧ 20 ≤ ihl (buffer frame) ∧ buffer frame 23 = 17 ∧
    address (buffer frame) 26 = source ∧ address (buffer frame) 30 = ip ∧
    14 + ihl (buffer frame) + length ≤ frame.length)
    ⟨fun ⟨htype, hheader, hudp, hsource, htarget, hfits⟩ => ⟨htype, hheader, hudp, hsource, htarget, hfits⟩,
      fun h => ⟨h.ipv4, h.header, h.udp, h.source, h.target, h.fits⟩⟩

instance (frame : List UInt8) (source destination : UInt16) (length : ℕ) :
    Decidable (Between frame source destination length) := inferInstanceAs (Decidable (_ ∧ _ ∧ _ ∧ _))

instance (frame : List UInt8) : Decidable (CarriesDns frame) := inferInstanceAs (Decidable (_ ∧ _ ∧ _))

/-- **What processing a frame comes to**, once it has been counted: a response of DNS, a reply of NTP, or
nothing but minor changes and polls. -/
inductive Handled (poll : State → State) (s : State) (frame : List UInt8) : State → Prop
  | dns (h : CarriesDns frame) :
      Handled poll s frame (dnsReceive s (udpData frame) ((read16 (udpOf frame) 4).toNat - 8))
  | ntp {source : UInt32} (h : CarriesUdp frame source (payload frame)) (hports : Between frame 123 53001 56) :
      Handled poll s frame (ntpReceive s (udpData frame) ((read16 (udpOf frame) 4).toNat - 8) source)
  | other {s' : State} (hdns : ¬CarriesDns frame) (h : Runs poll s s') : Handled poll s frame s'

theorem ipReceive_handled (hn : frame.length ≤ frameSize) (hlong : 34 ≤ frame.length)
    (htype : read16 (buffer frame) 12 = 0x0800) :
    Handled poll s frame (ipReceive dev poll s (buffer frame) frame.length) := by
  have hsize : frame.length < 2 ^ 16 := by
    rw [frameSize] at hn
    omega
  rw [ipReceive, ← ihl]
  by_cases hihl : ihl (buffer frame) < 20 ∨ 14 + ihl (buffer frame) > frame.length
  · simp only [if_pos hihl]
    refine .other (fun ⟨_, h, _⟩ => ?_) .refl
    have hheader := h.header
    have hfits := h.fits
    omega
  obtain ⟨total, htotal, hle, hin, hpayload⟩ := ipTotal_payload (s := s) hn
    (show 14 + ihl (buffer frame) ≤ frame.length by omega)
  simp only [if_neg hihl, htotal]
  by_cases htarget : address (buffer frame) 30 ≠ ip
  · rw [if_pos htarget]
    exact .other (fun ⟨_, h, _⟩ => htarget h.target) .refl
  rw [if_neg htarget, minus_of_le hle (by omega), ← hpayload]
  by_cases hudp : buffer frame 23 = 17 ∧ 8 ≤ payload frame
  · have hicmp : ¬(buffer frame 23 = 1 ∧ 8 ≤ payload frame) := fun h => by
      rw [hudp.1] at h
      exact absurd h.1 (by decide)
    have hcarries : CarriesUdp frame (address (buffer frame) 26) (payload frame) :=
      ⟨htype, by omega, hudp.1, rfl, not_not.mp htarget, by omega⟩
    have hlength : (read16 (udpOf frame) 4).toNat < 2 ^ 64 := lt_trans (read16 (udpOf frame) 4).toNat_lt (by decide)
    rw [if_neg hicmp, if_pos hudp, udpReceive, ← udpOf]
    by_cases hdns : Between frame 53 53000 8
    · have height := hdns.2.2.1
      simp only [if_pos (show _ ∧ _ from hdns), minus_of_le height hlength]
      exact .dns ⟨hlong, hcarries, hdns⟩
    simp only [if_neg (show ¬(_ ∧ _) from hdns)]
    split_ifs with hntp
    · rw [minus_of_le (show 8 ≤ (read16 (udpOf frame) 4).toNat by omega) hlength]
      exact .ntp hcarries hntp
    · exact .other (fun h => hdns h.2.2) .refl
  · have hno : ¬CarriesDns frame := fun ⟨_, h, hports⟩ =>
      hudp ⟨h.udp, hports.2.2.1.trans hports.2.2.2⟩
    split_ifs
    · exact .other hno (runs_icmpReceive (hin.trans hn))
    · exact .other hno (runs_tcpReceive (by omega) _)
    · exact .other hno .refl

/-- **Processing a frame**: it is counted, and handled. -/
theorem process_handled (hn : n ≤ frameSize) :
    Handled poll { s with processed := s.processed ++ [f.bytes 0 n] } (f.bytes 0 n) (process dev poll s f n) := by
  have hlength : (f.bytes 0 n).length = n := length_bytes f 0 n
  have hbytes : (buffer (f.bytes 0 n)).bytes 0 n = f.bytes 0 n := ((agree_buffer f n).bytes (by omega)).symm
  rw [process_congr hn (agree_buffer f n), process, hbytes]
  generalize f.bytes 0 n = frame at hlength ⊢
  subst hlength
  dsimp only
  by_cases hip : read16 (buffer frame) 12 ≠ 0x0800 ∨ frame.length < 34
  · have hno : ¬CarriesDns frame := fun ⟨hlong, h, _⟩ =>
      hip.elim (fun hne => hne h.ipv4) (not_lt.mpr hlong)
    split_ifs
    · exact .other hno .refl
    · exact .other hno runs_arpReceive
    · exact .other hno .refl
  · have hparts := not_or.mp hip
    have htype := not_not.mp hparts.1
    have harp : ¬(read16 (buffer frame) 12 = 0x0806 ∧ 42 ≤ frame.length) := fun h => by
      rw [htype] at h
      exact absurd h.1 (by decide)
    rw [if_neg (by omega), if_neg harp, if_neg hip]
    exact ipReceive_handled hn (not_lt.mp hparts.2) htype

/-- **Polling the device**, at every depth, keeps what processing a frame keeps if polls do. -/
theorem networkPoll_lift {R : State → State → Prop} (hrefl : ∀ s, R s s)
    (htrans : ∀ {s s' s''}, R s s' → R s' s'' → R s s'') (hminor : ∀ {s s'}, Minor s s' → R s s')
    (hprocess : ∀ {poll : State → State}, (∀ s, R s (poll s)) → ∀ s f n, n ≤ frameSize → R s (process dev poll s f n))
    (depth : ℕ) (s : State) : R s (networkPoll dev depth s) := by
  have hframes : ∀ {poll : State → State}, (∀ s, R s (poll s)) → ∀ k s, R s (pollFrames dev (process dev poll) k s) := by
    intro poll hpoll k
    induction k with
    | zero => exact hrefl
    | succ k ih =>
      intro s
      have hcount : R s { s with polls := s.polls + 1 } :=
        hminor ⟨⟨[], (append_nil _).symm, fun _ h => absurd h not_mem_nil⟩, rfl⟩
      rw [pollFrames]
      split
      · exact hcount
      · rename_i a _
        exact htrans (htrans hcount (hprocess hpoll _ _ _ a.size_le)) (ih _)
  induction depth generalizing s with
  | zero => exact hrefl s
  | succ depth ih =>
    rw [networkPoll]
    split_ifs
    · exact hframes ih 16 s
    · exact hrefl s

section Effect

variable {given : List (List UInt8)} {s' s'' : State}

theorem Effect.refl (s : State) : Effect given s s :=
  ⟨rfl, ⟨[], by simp⟩, ⟨[], by simp⟩, rfl, rfl, rfl, .inl ⟨rfl, rfl⟩⟩

theorem Effect.trans (h : Effect given s s') (h' : Effect given s' s'') : Effect given s s'' := by
  obtain ⟨new, hsent, hfit⟩ := h.sent
  obtain ⟨new', hsent', hfit'⟩ := h'.sent
  obtain ⟨seen, hseen⟩ := h.processed
  obtain ⟨seen', hseen'⟩ := h'.processed
  refine ⟨h'.wrapped.trans h.wrapped, ⟨new ++ new', ?_, ?_⟩, ⟨seen ++ seen', ?_⟩,
    h'.resolved.trans h.resolved, h'.server.trans h.server, h'.timestamp.trans h.timestamp, ?_⟩
  · rw [hsent', hsent, append_assoc]
  · intro frame hframe
    rcases mem_append.mp hframe with hframe | hframe
    · exact hfit frame hframe
    · exact hfit' frame hframe
  · rw [hseen', hseen, append_assoc]
  -- what is known of the reply after the second part is known of the whole
  rw [hseen', hseen, append_assoc, drop_left]
  rcases h'.reply with ⟨hstatus, hreply⟩ | hstatus | ⟨frame, hframe, hpacket⟩
  · rcases h.reply with ⟨hstatus₁, hreply₁⟩ | hstatus₁ | ⟨frame, hframe, hpacket⟩
    · exact .inl ⟨hstatus.trans hstatus₁, hreply.trans hreply₁⟩
    · exact .inr (.inl (by rw [hstatus]; exact hstatus₁))
    · rw [hseen, drop_left] at hframe
      refine .inr (.inr ⟨frame, hframe.imp_right (mem_append_left seen'), ?_⟩)
      rw [hreply]
      exact hpacket
  · exact .inr (.inl hstatus)
  · rw [hseen', drop_left] at hframe
    rw [h.server, h.timestamp] at hpacket
    exact .inr (.inr ⟨frame, hframe.imp_right (mem_append_right seen), hpacket⟩)

/-- Frames that are counted already do no harm. -/
theorem Effect.weaken (h : Effect [] s s') : Effect given s s' := by
  refine ⟨h.wrapped, h.sent, h.processed, h.resolved, h.server, h.timestamp, ?_⟩
  rcases h.reply with hreply | hreply | ⟨frame, hframe, hpacket⟩
  · exact .inl hreply
  · exact .inr (.inl hreply)
  · exact .inr (.inr ⟨frame, .inr (hframe.resolve_left not_mem_nil), hpacket⟩)

theorem Minor.effect (h : Minor s s') : Effect given s s' := by
  have hkept := h.kept
  simp only [State.kept, Prod.mk.injEq] at hkept
  obtain ⟨⟨hwrapped, hprocessed, hresolved⟩, ⟨hserver, htimestamp, hstatus, hreply⟩, -⟩ := hkept
  exact ⟨hwrapped, h.sent, ⟨[], by rw [hprocessed, append_nil]⟩, hresolved, hserver, htimestamp, .inl ⟨hstatus, hreply⟩⟩

theorem Runs.effect (h : Runs poll s s') (hpoll : ∀ s, Effect [] s (poll s)) : Effect given s s' :=
  h.lift Effect.refl Effect.trans Minor.effect fun s => (hpoll s).weaken

theorem effect_dnsReceive : Effect given s (dnsReceive s f n) := by
  have hquiet : ∀ status address, Effect given s { s with dnsReplyStatus := status, dnsReplyAddress := address } :=
    fun _ _ => ⟨rfl, ⟨[], (append_nil _).symm, fun _ h => absurd h not_mem_nil⟩,
      ⟨[], (append_nil _).symm⟩, rfl, rfl, rfl, .inl ⟨rfl, rfl⟩⟩
  rw [dnsReceive]
  dsimp only
  split_ifs
  · exact Effect.refl s
  · exact Effect.refl s
  · exact hquiet _ _
  · split
    · exact hquiet _ _
    · exact hquiet _ _

/-- A reply that is not accepted. -/
theorem effect_refuse {status : ℤ} (h : status ≠ ntpOk) : Effect given s { s with ntpReplyStatus := status } where
  wrapped := rfl
  sent := ⟨[], (append_nil _).symm, fun _ h => absurd h not_mem_nil⟩
  processed := ⟨[], (append_nil _).symm⟩
  resolved := rfl
  server := rfl
  timestamp := rfl
  reply := .inr (.inl h)

/-- **A reply is accepted** only if it passes every check; the frame is the one it is in. -/
theorem effect_ntpReceive {d : ByteMem} {source : UInt32} (hframe : frame ∈ given)
    (hpacket : ∀ r, source = s.ntpServerIp → 48 ≤ n → d 0 &&& 7 = 4 → d 0 >>> 6 ≠ 3 → 1 ≤ d 1 ∧ d 1 ≤ 15 →
      read64 d 24 = s.ntpRequestTimestamp → read64 d 32 ≠ 0 ∧ read64 d 40 ≠ 0 → read64 d 32 ≤ read64 d 40 →
      r = ⟨source, d 1, read64 d 32, read64 d 40⟩ →
      IsNtpReply frame s.ntpServerIp s.ntpRequestTimestamp r) :
    Effect given s (ntpReceive s d n source) := by
  rw [ntpReceive]
  by_cases hsource : source ≠ s.ntpServerIp
  · rw [if_pos hsource]
    exact Effect.refl s
  rw [if_neg hsource]
  by_cases hshort : n < 48
  · rw [if_pos hshort]
    exact effect_refuse (by decide)
  rw [if_neg hshort]
  by_cases hmode : d 0 &&& 7 ≠ 4
  · simp only [if_pos hmode]
    exact effect_refuse (by decide)
  by_cases hleap : d 0 >>> 6 = 3
  · simp only [if_neg hmode, if_pos hleap]
    exact effect_refuse (by decide)
  by_cases hstratum : d 1 = 0 ∨ d 1 ≥ 16
  · simp only [if_neg hmode, if_neg hleap, if_pos hstratum]
    exact effect_refuse (by decide)
  by_cases horiginate : read64 d 24 ≠ s.ntpRequestTimestamp
  · simp only [if_neg hmode, if_neg hleap, if_neg hstratum, if_pos horiginate]
    exact effect_refuse (by decide)
  by_cases htimes : read64 d 32 = 0 ∨ read64 d 40 = 0 ∨ read64 d 40 < read64 d 32
  · simp only [if_neg hmode, if_neg hleap, if_neg hstratum, if_neg horiginate, if_pos htimes]
    exact effect_refuse (by decide)
  simp only [if_neg hmode, if_neg hleap, if_neg hstratum, if_neg horiginate, if_neg htimes]
  simp only [not_or] at hstratum htimes
  have hrange : 1 ≤ d 1 ∧ d 1 ≤ 15 := by
    have hpos : (d 1).toNat ≠ 0 := fun h0 => hstratum.1 (UInt8.toNat.inj h0)
    have hless : (d 1).toNat < 16 := UInt8.lt_iff_toNat_lt.mp (UInt8.not_le.mp hstratum.2)
    exact ⟨Nat.one_le_iff_ne_zero.mpr hpos, Nat.le_of_lt_succ hless⟩
  exact ⟨rfl, ⟨[], (append_nil _).symm, fun frame h => absurd h not_mem_nil⟩,
    ⟨[], (append_nil _).symm⟩, rfl, rfl, rfl, .inr (.inr ⟨frame, .inl hframe,
      hpacket _ (not_not.mp hsource) (by omega) (not_not.mp hmode) hleap hrange (not_not.mp horiginate)
        ⟨htimes.1, htimes.2.1⟩ (UInt64.not_lt.mp htimes.2.2) rfl⟩)⟩

/-- The frame is counted as processed, and its handler may use it. -/
theorem Effect.count (frame : List UInt8)
    (h : Effect [frame] { s with processed := s.processed ++ [frame] } s') : Effect [] s s' := by
  obtain ⟨new, hnew⟩ := h.processed
  have hall : s'.processed = s.processed ++ ([frame] ++ new) := by
    rw [hnew, append_assoc]
  refine ⟨h.wrapped, h.sent, ⟨_, hall⟩, h.resolved, h.server, h.timestamp, ?_⟩
  rcases h.reply with hreply | hreply | ⟨frame', hframe', hpacket⟩
  · exact .inl hreply
  · exact .inr (.inl hreply)
  · refine .inr (.inr ⟨frame', .inr ?_, hpacket⟩)
    rw [hall, drop_left]
    rw [hnew, drop_left] at hframe'
    exact mem_append.mpr hframe'

/-- **Processing a frame.** -/
theorem effect_process (hpoll : ∀ s, Effect [] s (poll s)) (hn : n ≤ frameSize) :
    Effect [] s (process dev poll s f n) := by
  refine Effect.count (f.bytes 0 n) ?_
  have hhandled : Handled poll _ (f.bytes 0 n) (process dev poll s f n) := process_handled hn
  generalize process dev poll s f n = s' at hhandled ⊢
  cases hhandled with
  | dns _ => exact effect_dnsReceive
  | @ntp source h hports =>
    obtain ⟨hport, hport', hlong, hlength⟩ := hports
    refine effect_ntpReceive (mem_singleton_self _)
      fun r hsource _ hmode hleap hstratum horiginate hnonzero hordered hr => ?_
    exact ⟨h.ipv4, h.header, h.udp, h.source.trans hsource, h.target, hport, hport',
      ⟨hlong, (Nat.add_le_add_left hlength _).trans h.fits⟩, hmode, hleap, hstratum, horiginate, hnonzero,
      hordered, by rw [hr, hsource]⟩
  | other _ h => exact h.effect hpoll

/-- **Polling the device**, at every depth. -/
theorem effect_networkPoll (depth : ℕ) (s : State) : Effect [] s (networkPoll dev depth s) :=
  networkPoll_lift Effect.refl Effect.trans Minor.effect (fun hpoll _ _ _ hn => effect_process hpoll hn) depth s

end Effect

/-- **What a frame can do**: whatever the state, whatever the device does meanwhile, and however the
first `n` bytes of a buffer were made, what lies behind them changes neither the state
nor the frames that are sent; no length is computed below zero; and every frame sent has at
most 1514 bytes. -/
theorem process_secure (dev : Device) (depth : ℕ) (s : State) (f f' : ByteMem) (n : ℕ) (hn : n ≤ 1514)
    (h : ∀ i < n, f i = f' i) :
    process dev (networkPoll dev depth) s f n = process dev (networkPoll dev depth) s f' n ∧
      (process dev (networkPoll dev depth) s f n).wrapped = s.wrapped ∧
      ∃ new, (process dev (networkPoll dev depth) s f n).sent = s.sent ++ new ∧ ∀ frame ∈ new, frame.length ≤ 1514 := by
  have heffect : Effect [] s (process dev (networkPoll dev depth) s f n) := effect_process (effect_networkPoll depth) hn
  exact ⟨process_congr hn h, heffect.wrapped, heffect.sent⟩

/-- A device that receives nothing. -/
def silent : Device where
  mac := fun _ => 2
  receive := fun _ => none
  send := fun _ => true
  cancel := fun _ => false

/-- A buffer with an echo request of 42 bytes, and a byte behind it. -/
def echoRequest (behind : UInt8) : ByteMem := fun i =>
  ([2, 2, 2, 2, 2, 2, 82, 85, 10, 0, 2, 2, 0x08, 0x00, 0x45, 0, 0, 28, 0, 1, 0, 0, 64, 1, 0, 0, 10, 0, 2, 2,
    10, 0, 2, 15, 8, 0, 0, 0, 0x64, 0x64, 0, 1, behind] : List UInt8).getD i 0

/-- The byte behind an echo request does not matter. -/
theorem process_echoRequest :
    (∀ i < 42, echoRequest 0 i = echoRequest 1 i) ∧
      process silent (networkPoll silent 1) (networkInit silent true .blank) (echoRequest 0) 42 =
        process silent (networkPoll silent 1) (networkInit silent true .blank) (echoRequest 1) 42 := by
  have hagree : ∀ i < 42, echoRequest 0 i = echoRequest 1 i := by decide
  exact ⟨hagree, (process_secure silent 1 (networkInit silent true .blank) (echoRequest 0) (echoRequest 1) 42
    (by decide) hagree).1⟩

end OS64.Net
