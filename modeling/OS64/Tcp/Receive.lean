import OS64.Tcp.Model
import Mathlib.Data.Fintype.Card

/-!
# What one segment does

Everything that data does to the connection is a *consumption*
(`OS64.Tcp.consume`): bytes that continue the stream are appended to the queue,
and a FIN after them is counted and closes the connection. A segment in order is
consumed, and after it the stored fragments that continue the stream, one after
another. `OS64.Tcp.Receives` lists the six things `tcp_receive` can do, once and
for all; the arguments about streams split on it and never unfold the code.

The bytes a segment makes the connection acknowledge are `OS64.Tcp.absorbed`,
read off the segment and the fragment table alone. The queue receives them up
to its capacity (`OS64.Tcp.queue_tcpReceive`), while the expected sequence
number moves over all of them (`OS64.Tcp.consume_remoteSeq`).
-/

namespace OS64.Tcp

open List Function

variable {s s' : State} {tcp : List UInt8} {source : UInt32}

/-! ### Consuming data -/

/-- Bytes that continue the stream, and a FIN after them if there is one. -/
def consume (s : State) (data : List UInt8) (fin : Bool) : State :=
  if fin then { tcpAppend s data with remoteSeq := (tcpAppend s data).remoteSeq + 1, state := 4 }
  else tcpAppend s data

/-- The number of sequence numbers that data and a FIN take up. -/
def advance (data : List UInt8) (fin : Bool) : ℕ := data.length + if fin then 1 else 0

section

variable (s : State)

@[simp] theorem tcpAppend_nil : tcpAppend s [] = s := by
  simp [tcpAppend]

@[simp] theorem consume_nil : consume s [] false = s := by
  rw [consume, if_neg Bool.false_ne_true, tcpAppend_nil]

section

variable (data : List UInt8)

@[simp] theorem consume_fragments (fin : Bool) : (consume s data fin).fragments = s.fragments := by
  cases fin <;> rfl

@[simp] theorem consume_queue (fin : Bool) :
    (consume s data fin).queue = s.queue ++ data.take (queueBytes - s.queue.length) := by
  cases fin <;> rfl

theorem consume_remoteSeq (fin : Bool) :
    (consume s data fin).remoteSeq = s.remoteSeq + UInt32.ofNat (advance data fin) := by
  cases fin with
  | false => rfl
  | true =>
    rw [advance, if_pos rfl, UInt32.ofNat_add, ← UInt32.add_assoc]
    rfl

theorem consume_state (fin : Bool) : (consume s data fin).state = if fin then 4 else s.state := by
  cases fin <;> rfl

end

theorem drainOne_eq (i : Fin 8) (f : Fragment) : drainOne s i f =
    { consume s f.data f.fin with fragments := update s.fragments i none } := by
  rw [drainOne, consume]
  cases f.fin <;> rfl

@[simp] theorem drainOne_queue (i : Fin 8) (f : Fragment) :
    (drainOne s i f).queue = (consume s f.data f.fin).queue := by
  rw [drainOne_eq]

@[simp] theorem drainOne_fragments (i : Fin 8) (f : Fragment) :
    (drainOne s i f).fragments = update s.fragments i none := by
  rw [drainOne_eq]

end

/-! ### The steps of `tcp_receive` -/

/-- The connection after the acknowledgement number of a segment, if it has
one, has been noted. -/
def noteAck (s : State) (tcp : List UInt8) : State :=
  if hasAck tcp then { s with lastAck := ack tcp } else s

@[simp] theorem noteAck_queue : (noteAck s tcp).queue = s.queue := by
  rw [noteAck]
  split <;> rfl

@[simp] theorem noteAck_remoteSeq : (noteAck s tcp).remoteSeq = s.remoteSeq := by
  rw [noteAck]
  split <;> rfl

@[simp] theorem noteAck_fragments : (noteAck s tcp).fragments = s.fragments := by
  rw [noteAck]
  split <;> rfl

@[simp] theorem noteAck_state : (noteAck s tcp).state = s.state := by
  rw [noteAck]
  split <;> rfl

/-- **All that a segment can do** to the connection. -/
inductive Receives (s : State) (tcp : List UInt8) (source : UInt32) : State → Prop
  /-- It is not for this connection. -/
  | foreign (h : fromPeer s tcp source = false) : Receives s tcp source s
  /-- It resets the connection. -/
  | reset (h : fromPeer s tcp source = true) (hrst : hasRst tcp = true) :
      Receives s tcp source { s with state := -2 }
  /-- It completes the handshake. -/
  | established (h : fromPeer s tcp source = true) (hrst : hasRst tcp = false)
      (hsyn : isSynAck tcp = true) (hstate : s.state = 1) :
      Receives s tcp source
        { s with remoteSeq := seq tcp + 1, localSeq := ack tcp, lastAck := ack tcp, state := 2 }
  /-- It is ahead of the stream and goes through the fragment table. -/
  | stored (h : fromPeer s tcp source = true) (hrst : hasRst tcp = false)
      (hsyn : ¬(isSynAck tcp = true ∧ s.state = 1))
      (hdata : payload tcp ≠ [] ∨ hasFin tcp = true) (hseq : seq tcp ≠ s.remoteSeq) :
      Receives s tcp source (tcpStoreFragment (noteAck s tcp) (seq tcp) (payload tcp) (hasFin tcp))
  /-- It is behind the stream. -/
  | stale (h : fromPeer s tcp source = true) (hrst : hasRst tcp = false)
      (hsyn : ¬(isSynAck tcp = true ∧ s.state = 1))
      (hdata : payload tcp ≠ [] ∨ hasFin tcp = true) (hseq : seq tcp ≠ s.remoteSeq) :
      Receives s tcp source (noteAck s tcp)
  /-- It continues the stream, or carries neither data nor FIN. -/
  | inOrder (h : fromPeer s tcp source = true) (hrst : hasRst tcp = false)
      (hsyn : ¬(isSynAck tcp = true ∧ s.state = 1))
      (hseq : (payload tcp = [] ∧ hasFin tcp = false) ∨ seq tcp = s.remoteSeq) :
      Receives s tcp source
        (tcpDrainFragments (consume (noteAck s tcp) (payload tcp) (hasFin tcp)))

theorem tcpReceive_receives (s : State) (tcp : List UInt8) (source : UInt32) :
    Receives s tcp source (tcpReceive s tcp source).1 := by
  by_cases hpeer : fromPeer s tcp source = true
  case neg =>
    rw [tcpReceive, if_pos hpeer]
    exact .foreign (Bool.eq_false_iff.mpr hpeer)
  rw [tcpReceive, if_neg (not_not.mpr hpeer)]
  by_cases hrst : hasRst tcp = true
  · rw [if_pos hrst]
    exact .reset hpeer hrst
  rw [if_neg hrst, ← noteAck]
  replace hrst := Bool.eq_false_iff.mpr hrst
  simp only [noteAck_state, noteAck_remoteSeq]
  by_cases hsyn : isSynAck tcp = true ∧ s.state = 1
  · rw [if_pos hsyn]
    have hack : Receives s tcp source
        { noteAck s tcp with
          remoteSeq := seq tcp + 1, localSeq := ack tcp, lastAck := ack tcp, state := 2 } ↔
        Receives s tcp source
        { s with
          remoteSeq := seq tcp + 1, localSeq := ack tcp, lastAck := ack tcp, state := 2 } := by
      rw [noteAck]
      split <;> rfl
    refine hack.mpr ?_
    exact .established hpeer hrst hsyn.1 hsyn.2
  rw [if_neg hsyn]
  by_cases hahead : (payload tcp ≠ [] ∨ hasFin tcp = true) ∧ seq tcp ≠ s.remoteSeq
  · rw [if_pos hahead]
    split
    · exact .stored hpeer hrst hsyn hahead.1 hahead.2
    · exact .stale hpeer hrst hsyn hahead.1 hahead.2
  · rw [if_neg hahead]
    have hconsume : (if hasFin tcp = true then
        { (if payload tcp ≠ [] then tcpAppend (noteAck s tcp) (payload tcp) else noteAck s tcp) with
          remoteSeq := (if payload tcp ≠ [] then tcpAppend (noteAck s tcp) (payload tcp)
            else noteAck s tcp).remoteSeq + 1, state := 4 }
        else if payload tcp ≠ [] then tcpAppend (noteAck s tcp) (payload tcp) else noteAck s tcp) =
        consume (noteAck s tcp) (payload tcp) (hasFin tcp) := by
      by_cases hempty : payload tcp = []
      · simp only [hempty, ne_eq, not_true_eq_false, if_false, consume, tcpAppend_nil]
      · simp only [ne_eq, not_false_eq_true, hempty, if_true, consume]
    simp only [hconsume]
    refine .inOrder hpeer hrst hsyn ?_
    by_cases hempty : payload tcp = [] ∧ hasFin tcp = false
    · exact .inl hempty
    · refine .inr (of_not_not fun hne => hahead ⟨?_, hne⟩)
      by_contra hcon
      rw [not_or, not_not] at hcon
      exact hempty ⟨hcon.1, Bool.eq_false_iff.mpr hcon.2⟩

/-! ### The fragment table -/

/-- Storing a fragment adds at most that fragment, and changes nothing else. -/
theorem tcpStoreFragment_cases (s : State) (q : UInt32) (data : List UInt8) (fin : Bool) :
    tcpStoreFragment s q data fin = s ∨ ∃ i, tcpStoreFragment s q data fin =
      { s with fragments := update s.fragments i (some ⟨q, fin, data⟩) } := by
  rw [tcpStoreFragment]
  split
  · exact .inl rfl
  · split
    · exact .inl rfl
    · split
      · rename_i i _
        exact .inr ⟨i, rfl⟩
      · exact .inl rfl

variable {fragments : Fin 8 → Option Fragment} {i : Fin 8} {f : Fragment}

/-- A fragment found to continue the stream is in the table and does. -/
theorem nextFragment_eq_some {next : UInt32} (h : nextFragment fragments next = some (i, f)) :
    fragments i = some f ∧ f.sequence = next := by
  obtain ⟨j, -, hj⟩ := exists_of_findSome?_eq_some h
  rcases hf : fragments j with _ | g
  · simp [hf] at hj
  · simp only [hf] at hj
    split at hj
    · rename_i hseq
      obtain ⟨rfl, rfl⟩ : j = i ∧ g = f := by simpa using hj
      exact ⟨hf, hseq⟩
    · simp at hj

/-- The slots in use. -/
def slots (fragments : Fin 8 → Option Fragment) : Finset (Fin 8) :=
  Finset.univ.filter fun i => (fragments i).isSome

theorem slots_update_none (h : fragments i = some f) :
    (slots (update fragments i none)).card + 1 = (slots fragments).card := by
  have hmem : i ∈ slots fragments := by simp [slots, h]
  have herase : slots (update fragments i none) = (slots fragments).erase i := by
    ext j
    by_cases hj : j = i <;> simp [slots, hj]
  rw [herase, Finset.card_erase_add_one hmem]

/-- As many rounds as there are slots in use leave nothing to drain. -/
theorem nextFragment_drainRounds : ∀ (n : ℕ) (s : State), (slots s.fragments).card ≤ n →
    nextFragment (drainRounds n s).fragments (drainRounds n s).remoteSeq = none
  | 0, s, hn => by
    -- with no slot in use the search has nothing to find
    rcases hnext : nextFragment s.fragments s.remoteSeq with _ | ⟨i, f⟩
    · exact hnext
    · have hsome := (nextFragment_eq_some hnext).1
      have hpos := slots_update_none hsome
      omega
  | n + 1, s, hn => by
    rcases hnext : nextFragment s.fragments s.remoteSeq with _ | ⟨i, f⟩
    · simp only [drainRounds, hnext]
    · have hsome := (nextFragment_eq_some hnext).1
      have hcard := slots_update_none hsome
      simp only [drainRounds, hnext]
      refine nextFragment_drainRounds n (drainOne s i f) ?_
      rw [drainOne_fragments]
      omega

/-- **Draining is complete**: no fragment that is left continues the stream. -/
theorem nextFragment_drained (s : State) :
    nextFragment (tcpDrainFragments s).fragments (tcpDrainFragments s).remoteSeq = none :=
  nextFragment_drainRounds 8 s (Finset.card_le_univ _)

/-- With nothing to drain nothing happens. -/
theorem tcpDrainFragments_of_none (h : nextFragment s.fragments s.remoteSeq = none) : tcpDrainFragments s = s := by
  simp only [tcpDrainFragments, drainRounds, h]

/-! ### What a segment makes the connection accept -/

/-- The fragments of a table that are drained from the sequence number `next`
on, in the order in which they are drained. -/
def chain : ℕ → (Fin 8 → Option Fragment) → UInt32 → List Fragment
  | 0, _, _ => []
  | n + 1, fragments, next => match nextFragment fragments next with
    | none => []
    | some (i, f) =>
      f :: chain n (update fragments i none) (next + UInt32.ofNat (advance f.data f.fin))

/-- What a segment makes the connection accept: its own data if it is in order,
and the stored fragments that then continue the stream. -/
def accepted (s : State) (tcp : List UInt8) (source : UInt32) : List Fragment :=
  if fromPeer s tcp source = true ∧ hasRst tcp = false ∧ ¬(isSynAck tcp = true ∧ s.state = 1) ∧
      ((payload tcp = [] ∧ hasFin tcp = false) ∨ seq tcp = s.remoteSeq) then
    ⟨seq tcp, hasFin tcp, payload tcp⟩ :: chain 8 s.fragments
      (s.remoteSeq + UInt32.ofNat (advance (payload tcp) (hasFin tcp)))
  else []

/-- The stream bytes of the fragments `fs`. -/
def bytesOf (fs : List Fragment) : List UInt8 := fs.flatMap Fragment.data

/-- The stream bytes a segment makes the connection acknowledge. -/
def absorbed (s : State) (tcp : List UInt8) (source : UInt32) : List UInt8 :=
  bytesOf (accepted s tcp source)

/-- Consuming one fragment after another. -/
def consumeAll (s : State) (fs : List Fragment) : State :=
  fs.foldl (fun s f => consume s f.data f.fin) s

@[simp] theorem consumeAll_nil (s : State) : consumeAll s [] = s := rfl

@[simp] theorem consumeAll_cons (s : State) (f : Fragment) (fs : List Fragment) :
    consumeAll s (f :: fs) = consumeAll (consume s f.data f.fin) fs := rfl

theorem consume_setFragments (s : State) (data : List UInt8) (fin : Bool)
    (t : Fin 8 → Option Fragment) : consume { s with fragments := t } data fin =
      { consume s data fin with fragments := t } := by
  cases fin <;> rfl

theorem consumeAll_setFragments (t : Fin 8 → Option Fragment) (fs : List Fragment) :
    ∀ s : State, consumeAll { s with fragments := t } fs = { consumeAll s fs with fragments := t } := by
  induction fs with
  | nil => exact fun s => rfl
  | cons f fs ih =>
    intro s
    rw [consumeAll_cons, consume_setFragments, ih]
    rfl

/-- Draining consumes the chain of the table, and only the table remembers
more. -/
theorem drainRounds_eq : ∀ (n : ℕ) (s : State), drainRounds n s =
    { consumeAll s (chain n s.fragments s.remoteSeq) with fragments := (drainRounds n s).fragments }
  | 0, s => rfl
  | n + 1, s => by
    rcases hnext : nextFragment s.fragments s.remoteSeq with _ | ⟨i, f⟩
    · simp only [drainRounds, chain, hnext, consumeAll_nil]
    · have ih := drainRounds_eq n (drainOne s i f)
      simp only [drainRounds, chain, hnext, consumeAll_cons]
      conv_lhs => rw [ih]
      rw [drainOne_eq, consumeAll_setFragments, ← consume_remoteSeq]

/-- The queue takes bytes as long as there is room, whether they come at once
or in parts. -/
theorem queue_consumeAll (fs : List Fragment) : ∀ s : State, s.queue.length ≤ queueBytes →
    (consumeAll s fs).queue = (s.queue ++ bytesOf fs).take queueBytes := by
  induction fs with
  | nil =>
    intro s hs
    rw [consumeAll_nil, bytesOf, flatMap_nil, append_nil, take_of_length_le hs]
  | cons f fs ih =>
    intro s hs
    have hqueue : (consume s f.data f.fin).queue = (s.queue ++ f.data).take queueBytes := by
      rw [consume_queue, take_append, take_of_length_le hs]
    have hlen : (consume s f.data f.fin).queue.length ≤ queueBytes := by
      rw [hqueue]
      exact length_take_le _ _
    rw [consumeAll_cons, ih _ hlen, hqueue, Stream.take_take_append, bytesOf, bytesOf, flatMap_cons, append_assoc]

/-- A segment with data or FIN that is not in order makes the connection accept
nothing. -/
theorem accepted_of_ne (hdata : payload tcp ≠ [] ∨ hasFin tcp = true) (hseq : seq tcp ≠ s.remoteSeq) :
    accepted s tcp source = [] := by
  rw [accepted, if_neg]
  rintro ⟨-, -, -, ⟨hempty, hfin⟩ | hq⟩
  · rcases hdata with hdata | hdata
    · exact hdata hempty
    · exact Bool.false_ne_true (hfin.symm.trans hdata)
  · exact hseq hq

/-- A segment in order: what it makes the connection accept is consumed, and
only the table remembers more. -/
theorem drain_accepted (h : fromPeer s tcp source = true) (hrst : hasRst tcp = false)
    (hsyn : ¬(isSynAck tcp = true ∧ s.state = 1))
    (hseq : (payload tcp = [] ∧ hasFin tcp = false) ∨ seq tcp = s.remoteSeq) :
    ∃ t, tcpDrainFragments (consume (noteAck s tcp) (payload tcp) (hasFin tcp)) =
      { consumeAll (noteAck s tcp) (accepted s tcp source) with fragments := t } := by
  refine ⟨(drainRounds 8 (consume (noteAck s tcp) (payload tcp) (hasFin tcp))).fragments, (drainRounds_eq 8 _).trans ?_⟩
  rw [accepted, if_pos ⟨h, hrst, hsyn, hseq⟩, consumeAll_cons, consume_fragments, consume_remoteSeq,
    noteAck_fragments, noteAck_remoteSeq]

/-- **The effect of a segment on the queue**: it takes the bytes the segment
makes the connection accept, as far as there is room. -/
theorem queue_tcpReceive (hroom : s.queue.length ≤ queueBytes) :
    (tcpReceive s tcp source).1.queue = (s.queue ++ absorbed s tcp source).take queueBytes := by
  -- what leaves the queue alone accepts nothing
  have hidle : accepted s tcp source = [] → s.queue = (s.queue ++ absorbed s tcp source).take queueBytes := by
    intro hnone
    rw [absorbed, hnone, bytesOf, flatMap_nil, append_nil, take_of_length_le hroom]
  have hr := tcpReceive_receives s tcp source
  generalize (tcpReceive s tcp source).1 = s' at hr
  cases hr with
  | foreign h => exact hidle (by simp [accepted, h])
  | reset h hrst => exact hidle (by simp [accepted, hrst])
  | established h hrst hsyn hstate => exact hidle (by simp [accepted, hsyn, hstate])
  | stored h hrst _ hdata hseq =>
    rcases tcpStoreFragment_cases (noteAck s tcp) (seq tcp) (payload tcp) (hasFin tcp) with he | ⟨i, he⟩
    · rw [he, noteAck_queue]
      exact hidle (accepted_of_ne hdata hseq)
    · rw [he]
      exact noteAck_queue.trans (hidle (accepted_of_ne hdata hseq))
  | stale h hrst _ hdata hseq =>
    rw [noteAck_queue]
    exact hidle (accepted_of_ne hdata hseq)
  | inOrder h hrst hsyn hseq =>
    obtain ⟨t, ht⟩ := drain_accepted h hrst hsyn hseq
    rw [ht]
    refine (queue_consumeAll _ _ ?_).trans ?_
    · rwa [noteAck_queue]
    · rw [noteAck_queue, absorbed]

/-! ### What a segment does to the sending side -/

/-- The peer and the sending side are as they were, and the connection is as far as it was, or
over. -/
structure Rests (s s' : State) : Prop where
  remoteIp : s'.remoteIp = s.remoteIp
  remotePort : s'.remotePort = s.remotePort
  localSeq : s'.localSeq = s.localSeq
  state : s'.state = s.state ∨ s'.state = 4 ∨ s'.state = -2

theorem Rests.refl (s : State) : Rests s s := ⟨rfl, rfl, rfl, .inl rfl⟩

theorem Rests.trans {s'' : State} (h : Rests s s') (h' : Rests s' s'') : Rests s s'' := by
  refine ⟨h'.remoteIp.trans h.remoteIp, h'.remotePort.trans h.remotePort, h'.localSeq.trans h.localSeq, ?_⟩
  rcases h'.state with hsame | hover
  · rw [hsame]
    exact h.state
  · exact .inr hover

/-- What has not begun or is over is not under way afterwards. -/
theorem Rests.state_eq (h : Rests s s') {n : ℤ} (hn : n ≠ 4 ∧ n ≠ -2) (hs : s'.state = n) : s.state = n := by
  rcases h.state with hsame | hover | hover
  · exact hsame.symm.trans hs
  · exact absurd (hs.symm.trans hover) hn.1
  · exact absurd (hs.symm.trans hover) hn.2

theorem rests_noteAck (s : State) (tcp : List UInt8) : Rests s (noteAck s tcp) := by
  rw [noteAck]
  split
  · exact ⟨rfl, rfl, rfl, .inl rfl⟩
  · exact Rests.refl s

theorem consumeAll_rests (fs : List Fragment) : ∀ s : State,
    Rests s (consumeAll s fs) ∧ (consumeAll s fs).lastAck = s.lastAck := by
  induction fs with
  | nil => exact fun s => ⟨Rests.refl s, rfl⟩
  | cons f fs ih =>
    intro s
    have hconsume : Rests s (consume s f.data f.fin) ∧ (consume s f.data f.fin).lastAck = s.lastAck := by
      cases f.fin with
      | false => exact ⟨⟨rfl, rfl, rfl, .inl rfl⟩, rfl⟩
      | true => exact ⟨⟨rfl, rfl, rfl, .inr (.inl rfl)⟩, rfl⟩
    obtain ⟨hrests, hack⟩ := ih (consume s f.data f.fin)
    exact ⟨hconsume.1.trans hrests, hack.trans hconsume.2⟩

/-- The segment is the answer to the SYN that is waited for. -/
def Answers (s : State) (tcp : List UInt8) (source : UInt32) : Prop :=
  fromPeer s tcp source = true ∧ hasRst tcp = false ∧ isSynAck tcp = true ∧ s.state = 1

/-- **All but the answer to the SYN leave the sending side alone**, but for noting an
acknowledgement of the peer. -/
theorem tcpReceive_rests (h : ¬Answers s tcp source) : Rests s (tcpReceive s tcp source).1 ∧
    ((tcpReceive s tcp source).1.lastAck = s.lastAck ∨ fromPeer s tcp source = true ∧
      hasAck tcp = true ∧ (tcpReceive s tcp source).1.lastAck = ack tcp) := by
  have hnoted : fromPeer s tcp source = true → (noteAck s tcp).lastAck = s.lastAck ∨
      fromPeer s tcp source = true ∧ hasAck tcp = true ∧ (noteAck s tcp).lastAck = ack tcp := by
    intro h
    rw [noteAck]
    split
    · exact .inr ⟨h, ‹_›, rfl⟩
    · exact .inl rfl
  have hnote := rests_noteAck s tcp
  have hr := tcpReceive_receives s tcp source
  generalize (tcpReceive s tcp source).1 = s' at hr
  cases hr with
  | foreign _ => exact ⟨Rests.refl s, .inl rfl⟩
  | reset _ _ => exact ⟨⟨rfl, rfl, rfl, .inr (.inr rfl)⟩, .inl rfl⟩
  | established hpeer hrst hsyn hstate => exact absurd ⟨hpeer, hrst, hsyn, hstate⟩ h
  | stored hpeer hrst hsyn hdata hseq =>
    rcases tcpStoreFragment_cases (noteAck s tcp) (seq tcp) (payload tcp) (hasFin tcp) with he | ⟨i, he⟩
    · rw [he]
      exact ⟨hnote, hnoted hpeer⟩
    · rw [he]
      exact ⟨⟨hnote.remoteIp, hnote.remotePort, hnote.localSeq, hnote.state⟩, hnoted hpeer⟩
  | stale hpeer hrst hsyn hdata hseq => exact ⟨hnote, hnoted hpeer⟩
  | inOrder hpeer hrst hsyn hseq =>
    obtain ⟨t, ht⟩ := drain_accepted hpeer hrst hsyn hseq
    obtain ⟨hrests, hack⟩ := consumeAll_rests (accepted s tcp source) (noteAck s tcp)
    have hall := hnote.trans hrests
    rw [ht]
    refine ⟨⟨hall.remoteIp, hall.remotePort, hall.localSeq, hall.state⟩, ?_⟩
    rw [hack]
    exact hnoted hpeer

/-- Once the SYN has been answered no segment answers it again. -/
theorem tcpReceive_sending (tcp : List UInt8) (source : UInt32) (hs : s.state ≠ 1) :
    (tcpReceive s tcp source).1.localSeq = s.localSeq ∧ (tcpReceive s tcp source).1.state ≠ 1 ∧
    ((tcpReceive s tcp source).1.lastAck = s.lastAck ∨ fromPeer s tcp source = true ∧
      hasAck tcp = true ∧ (tcpReceive s tcp source).1.lastAck = ack tcp) := by
  obtain ⟨hrests, hack⟩ := @tcpReceive_rests s tcp source fun h => hs h.2.2.2
  exact ⟨hrests.localSeq, fun h1 => hs (hrests.state_eq (by decide) h1), hack⟩

/-! ### Polling and handing out -/

@[simp] theorem poll_nil (s : State) : poll s [] = s := rfl

theorem poll_append (s : State) (gs hs : List Segment) : poll s (gs ++ hs) = poll (poll s gs) hs := foldl_append ..

/-- The segments the waiting loop of `network_tcp_receive` processes. -/
def polled : State → List Round → List Segment
  | _, [] => []
  | s, round :: rounds =>
    if s.queue ≠ [] ∨ s.state < 2 then []
    else match round with
      | .cancel => []
      | .poll segments => segments ++ polled (poll s segments) rounds

theorem waitForData_state : ∀ (rounds : List Round) (s : State), (waitForData s rounds).2 = poll s (polled s rounds)
  | [], s => rfl
  | round :: rounds, s => by
    by_cases hstop : s.queue ≠ [] ∨ s.state < 2
    · cases round <;> simp only [waitForData, polled, if_pos hstop, poll_nil]
    · cases round with
      | cancel => simp only [waitForData, polled, if_neg hstop, poll_nil]
      | poll segments =>
        simp only [waitForData, polled, if_neg hstop]
        exact (waitForData_state rounds _).trans (poll_append ..).symm

/-- The segments a call of `network_tcp_receive` processes. -/
def received (s : State) (capacity : ℕ) (rounds : List Round) : List Segment :=
  if s.state < 2 ∨ capacity = 0 then [] else polled s rounds

/-- **`network_tcp_receive` hands out the front of the queue**: what it returns
and what it leaves are together the queue as the polls made it, and it changes
nothing else. -/
theorem networkTcpReceive_spec (s : State) (capacity : ℕ) (rounds : List Round) :
    (networkTcpReceive s capacity rounds).data ++
      (networkTcpReceive s capacity rounds).state.queue = (poll s (received s capacity rounds)).queue ∧
    (networkTcpReceive s capacity rounds).state =
      { poll s (received s capacity rounds) with
        queue := (networkTcpReceive s capacity rounds).state.queue } := by
  rw [networkTcpReceive, received]
  by_cases hrefused : s.state < 2 ∨ capacity = 0
  · rw [if_pos hrefused, if_pos hrefused]
    exact ⟨rfl, rfl⟩
  · rw [if_neg hrefused, if_neg hrefused, ← waitForData_state]
    rcases waitForData s rounds with ⟨_ | _, t⟩
    · exact ⟨take_append_drop capacity t.queue, rfl⟩
    · exact ⟨rfl, rfl⟩

/-! ### A connection to run -/

/-- A connection to port 80 of the host 10.0.2.2, before its SYN. -/
def opened : State := networkTcpConnect 0x0202000a 80 0

/-- A segment of the peer of `OS64.Tcp.opened`, with a sequence number below
2¹⁶. -/
def fromServer (flags : UInt8) (q : ℕ) (data : List UInt8) : Segment where
  bytes := [0, 80, 192, 0, 0, 0, UInt8.ofNat (q / 256), UInt8.ofNat (q % 256), 100, 0, 0, 1,
    0x50, flags, 16, 0, 0, 0, 0, 0] ++ data
  source := 0x0202000a

theorem flags_fromServer (f : UInt8) (q : ℕ) (data : List UInt8) : flags (fromServer f q data).bytes = f := rfl

theorem payload_fromServer (f : UInt8) (q : ℕ) (data : List UInt8) : payload (fromServer f q data).bytes = data := by
  have hheader : header (fromServer f q data).bytes = 20 := by
    rw [header, show byte (fromServer f q data).bytes 12 = 0x50 from rfl]
    decide
  rw [payload, hheader]
  rfl

end OS64.Tcp
