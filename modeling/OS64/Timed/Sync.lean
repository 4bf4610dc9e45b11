import OS64.Timed.Model
import OS64.Net.Frames

/-!
# Who can set the clock

`timed_sync` believes a time only if it comes in a packet that answers a request of
the same call. The reply is kept in variables that every packet on the port of
NTP can reach, at any time, and the attempts of one call send the same timestamp. What
carries the argument is that the status is cleared after the server's address has been
set and before the request is sent: if it is 1 later, some frame processed since then
was a reply from that address to that timestamp, and the reply is what that frame
held (`OS64.Net.networkNtpQuery_reply`, from the last clause of
`OS64.Net.Effect`). An older reply is gone, and a packet that fails a check can
only make the attempt fail.

`OS64.Timed.timedSync_spec` is the result for the clock.
-/

namespace OS64

namespace Net

open List

variable {s' s'' : State}

variable {dev : Device} {poll : State → State} {s : State}

/-! ### Asking a server -/

/-- What happens meanwhile is recorded behind what happened before. -/
structure Continues (s s' : State) : Prop where
  processed : ∃ new, s'.processed = s.processed ++ new
  resolved : ∃ new, s'.resolved = s.resolved ++ new

theorem Continues.refl (s : State) : Continues s s := ⟨⟨[], (append_nil _).symm⟩, ⟨[], (append_nil _).symm⟩⟩

theorem Continues.trans (h : Continues s s') (h' : Continues s' s'') : Continues s s'' := by
  obtain ⟨⟨seen, hseen⟩, ⟨names, hnames⟩⟩ := h
  obtain ⟨⟨seen', hseen'⟩, ⟨names', hnames'⟩⟩ := h'
  refine ⟨⟨seen ++ seen', ?_⟩, ⟨names ++ names', ?_⟩⟩
  · rw [hseen', hseen, append_assoc]
  · rw [hnames', hnames, append_assoc]

theorem Effect.continues (h : Effect [] s s') : Continues s s' := ⟨h.processed, ⟨[], by rw [h.resolved, append_nil]⟩⟩

theorem Runs.continues (h : Runs poll s s') (hpoll : ∀ s, Effect [] s (poll s)) : Continues s s' :=
  (h.effect hpoll : Effect [] s s').continues

/-- What was recorded since before, at two moments. -/
theorem drop_recorded {α : Type} {l l' l'' : List α} (h : ∃ new, l' = l ++ new) (h' : ∃ new, l'' = l' ++ new) :
    l''.drop l.length = l'.drop l.length ++ l''.drop l'.length := by
  obtain ⟨new, rfl⟩ := h
  obtain ⟨new', rfl⟩ := h'
  rw [drop_left, drop_left, append_assoc, drop_left]

/-- A frame that was processed later was processed since before. -/
theorem Continues.mem_processed (h : Continues s s') (h' : Continues s' s'') {frame : List UInt8}
    (hframe : frame ∈ s''.processed.drop s'.processed.length) : frame ∈ s''.processed.drop s.processed.length := by
  rw [drop_recorded h.processed h'.processed]
  exact mem_append_right _ hframe

/-- A name that was resolved is so afterwards. -/
theorem Continues.mem_resolved (h : Continues s s') (h' : Continues s' s'')
    {x : List UInt8 × UInt32} (hx : x ∈ s'.resolved.drop s.resolved.length) :
    x ∈ s''.resolved.drop s.resolved.length := by
  rw [drop_recorded h.resolved h'.resolved]
  exact mem_append_left _ hx

/-- And one that was resolved later, since before. -/
theorem Continues.mem_resolved_later (h : Continues s s') (h' : Continues s' s'')
    {x : List UInt8 × UInt32} (hx : x ∈ s''.resolved.drop s'.resolved.length) :
    x ∈ s''.resolved.drop s.resolved.length := by
  rw [drop_recorded h.resolved h'.resolved]
  exact mem_append_right _ hx

/-- What `network_resolve` returns for a name, and that it is recorded. -/
structure Resolves (s : State) (name : List UInt8) (x : ℤ × UInt32 × State) : Prop where
  continues : Continues s x.2.2
  recorded : x.1 = 1 → (name, x.2.1) ∈ x.2.2.resolved.drop s.resolved.length

section Query

variable (hpoll : ∀ s, Effect [] s (poll s))

include hpoll

/-- The query changes variables of DNS, and waits. -/
theorem continues_dnsAsk (mac : Mac) (labels : List UInt8) (spins : ℕ) :
    Continues s (dnsAsk dev poll s mac labels spins).2 := by
  have hwait : ∀ s₁ : State, Continues s₁ (awaitDns dev poll spins s₁).2 := fun s₁ =>
    (runs_awaitDns spins).continues hpoll
  obtain ⟨hseen, hnames⟩ := hwait (State.send dev _ _).2
  exact ⟨hseen, hnames⟩

omit hpoll in
theorem resolves_not {name : List UInt8} (h : Continues s s') {code : ℤ} (hcode : code ≠ 1) :
    Resolves s name (code, 0, s') := ⟨h, fun hone => absurd hone hcode⟩

omit hpoll in
theorem resolves_found {name : List UInt8} (h : Continues s s') (a : UInt32) : Resolves s name (s'.resolve name a) := by
  obtain ⟨names, hnames⟩ := h.resolved
  have hrecord : Continues s' (s'.resolve name a).2.2 := ⟨⟨[], (append_nil _).symm⟩, ⟨_, rfl⟩⟩
  refine ⟨h.trans hrecord, fun _ => h.mem_resolved_later hrecord ?_⟩
  rw [State.resolve, drop_left]
  exact mem_singleton_self _

theorem resolves_networkResolve (name : List UInt8) (spins : ℕ) :
    Resolves s name (networkResolve dev poll s name spins) := by
  rw [networkResolve]
  by_cases hready : ¬s.ready = true
  · rw [if_pos hready]
    exact resolves_not (Continues.refl s) (by decide)
  rw [if_neg hready]
  by_cases hnumeric : networkParseIpv4 name ≠ 0
  · rw [if_pos hnumeric]
    exact resolves_found (Continues.refl s) _
  rw [if_neg hnumeric]
  have hhop : Continues s (resolveNextHop dev poll s dnsServer spins).2 := (runs_resolveNextHop _ _).continues hpoll
  generalize resolveNextHop dev poll s dnsServer spins = hop at hhop ⊢
  obtain ⟨_ | n, s₁⟩ := hop
  · exact resolves_not hhop (by decide)
  dsimp only
  split_ifs
  · exact resolves_not hhop (by decide)
  split
  · exact resolves_not hhop (by decide)
  · rename_i labels _
    have hask : Continues s (dnsAsk dev poll s₁ n.mac labels spins).2 :=
      hhop.trans (continues_dnsAsk hpoll n.mac labels spins)
    generalize dnsAsk dev poll s₁ n.mac labels spins = asked at hask ⊢
    obtain ⟨_ | _, s₂⟩ := asked
    · exact resolves_not hask (by decide)
    · dsimp only
      split_ifs with hstatus
      · exact resolves_found hask _
      · exact resolves_not hask hstatus

omit hpoll in
/-- The state in which the reply is awaited. -/
theorem ntpAsk_eq (dev : Device) (poll : State → State) (s : State) (a : UInt32) (mac : Mac) (timestamp : UInt64) (spins : ℕ) :
    ∃ id sent, ntpAsk dev poll s a mac timestamp spins =
      if ¬dev.send s.sent.length then
        (false, { s with
          ipId := id, ntpServerIp := a, ntpRequestTimestamp := timestamp, ntpReplyStatus := 0, sent := sent })
      else (true, awaitNtp poll spins { s with
          ipId := id, ntpServerIp := a, ntpRequestTimestamp := timestamp, ntpReplyStatus := 0, sent := sent }) :=
  ⟨_, _, rfl⟩

/-- **A reply belongs to the request**: if the status is 1 in the end, a frame processed since the
request was sent is the reply that is kept. -/
theorem ntpAsk_spec (dev : Device) (s : State) (a : UInt32) (mac : Mac) (timestamp : UInt64) (spins : ℕ) :
    Continues s (ntpAsk dev poll s a mac timestamp spins).2 ∧
      ((ntpAsk dev poll s a mac timestamp spins).2.ntpReplyStatus = ntpOk →
        ∃ frame ∈ (ntpAsk dev poll s a mac timestamp spins).2.processed.drop s.processed.length,
          IsNtpReply frame a timestamp (ntpAsk dev poll s a mac timestamp spins).2.ntpReply) := by
  have hzero : (0 : ℤ) ≠ ntpOk := by decide
  obtain ⟨id, sent, heq⟩ := ntpAsk_eq dev poll s a mac timestamp spins
  rw [heq]
  split_ifs
  · have heffect : Effect [] { s with
        ipId := id, ntpServerIp := a, ntpRequestTimestamp := timestamp, ntpReplyStatus := 0, sent := sent } _ :=
      (runs_awaitNtp spins).effect hpoll
    refine ⟨⟨heffect.processed, ⟨[], ?_⟩⟩, fun hok => ?_⟩
    · exact heffect.resolved.trans (append_nil _).symm
    · -- the status was cleared before the request was sent
      rcases heffect.reply with ⟨hstatus, -⟩ | hstatus | ⟨frame, hframe, hreply⟩
      · exact absurd (hstatus.symm.trans hok) hzero
      · exact absurd hok hstatus
      · exact ⟨frame, hframe.resolve_left not_mem_nil, hreply⟩
  · refine ⟨⟨⟨[], (append_nil _).symm⟩, ⟨[], (append_nil _).symm⟩⟩, fun h => ?_⟩
    exact absurd h hzero

/-- **What a server's answer is worth**: a query that returns 1 hands over the reply in a frame that was
processed during the query, from an address to which the name of the server was
resolved in it. -/
theorem networkNtpQuery_reply (dev : Device) (s : State) (server : List UInt8) (timestamp : UInt64) (spins : ℕ)
    (r : NtpResult) :
    Continues s (networkNtpQuery dev poll s server timestamp spins).2.2 ∧
      ((networkNtpQuery dev poll s server timestamp spins).2.1 = some r →
        ∃ a, (server, a) ∈
            (networkNtpQuery dev poll s server timestamp spins).2.2.resolved.drop s.resolved.length ∧
          ∃ frame ∈ (networkNtpQuery dev poll s server timestamp spins).2.2.processed.drop s.processed.length,
            IsNtpReply frame a timestamp r) := by
  rw [networkNtpQuery]
  by_cases hdown : ¬s.ready = true ∨ timestamp = 0
  · rw [if_pos hdown]
    exact ⟨Continues.refl s, fun h => by cases h⟩
  rw [if_neg hdown]
  have hresolve : Resolves s server (networkResolve dev poll s server spins) :=
    resolves_networkResolve hpoll server spins
  generalize networkResolve dev poll s server spins = resolved at hresolve ⊢
  obtain ⟨code, a, s₁⟩ := resolved
  dsimp only
  by_cases hcode : code ≠ 1
  · rw [if_pos hcode]
    exact ⟨hresolve.continues, fun h => by cases h⟩
  rw [if_neg hcode]
  have hname := hresolve.recorded (not_not.mp hcode)
  have hhop : Continues s₁ (resolveNextHop dev poll s₁ a spins).2 := (runs_resolveNextHop _ _).continues hpoll
  generalize resolveNextHop dev poll s₁ a spins = hop at hhop ⊢
  obtain ⟨_ | n, s₂⟩ := hop
  · exact ⟨hresolve.continues.trans hhop, fun h => by cases h⟩
  dsimp only
  obtain ⟨hask, hreply⟩ := ntpAsk_spec hpoll dev s₂ a n.mac timestamp spins
  generalize ntpAsk dev poll s₂ a n.mac timestamp spins = asked at hask hreply ⊢
  have hbefore : Continues s s₂ := hresolve.continues.trans hhop
  obtain ⟨_ | _, s₃⟩ := asked
  · exact ⟨hbefore.trans hask, fun h => by cases h⟩
  dsimp only
  split_ifs with hok
  · refine ⟨hbefore.trans hask, fun h => ⟨a, ?_, ?_⟩⟩
    · exact hresolve.continues.mem_resolved (hhop.trans hask) hname
    · obtain ⟨frame, hframe, hpacket⟩ := hreply hok
      cases h
      exact ⟨frame, hbefore.mem_processed hask hframe, hpacket⟩
  · exact ⟨hbefore.trans hask, fun h => by cases h⟩
  · exact ⟨hbefore.trans hask, fun h => by cases h⟩

end Query

end Net

namespace Timed

open Net (Continues IsNtpReply)

variable {dev : Net.Device} {poll : Net.State → Net.State} {tsc : ℕ → UInt64} {files : Files} {t : State}
  {s : Net.State}

/-! ### The configuration -/

/-- The clock is the same in both. -/
structure SameClock (t t' : State) : Prop where
  running : t'.running = t.running
  correction : t'.realtimeCorrectionNs = t.realtimeCorrectionNs
  synchronized : t'.synchronized = t.synchronized
  lastSync : t'.lastSyncEpoch = t.lastSyncEpoch
  baseTsc : t'.baseTsc = t.baseTsc
  baseUtc : t'.baseUtcNs = t.baseUtcNs
  hz : t'.tscHz = t.tscHz
  readings : t'.readings = t.readings

theorem SameClock.refl (t : State) : SameClock t t := ⟨rfl, rfl, rfl, rfl, rfl, rfl, rfl, rfl⟩

theorem SameClock.trans {t' t'' : State} (h : SameClock t t') (h' : SameClock t' t'') : SameClock t t'' :=
  ⟨h'.running.trans h.running, h'.correction.trans h.correction, h'.synchronized.trans h.synchronized,
    h'.lastSync.trans h.lastSync, h'.baseTsc.trans h.baseTsc, h'.baseUtc.trans h.baseUtc, h'.hz.trans h.hz,
    h'.readings.trans h.readings⟩

theorem sameClock_assign (t : State) (key value : List UInt8) : SameClock t (assign t key value) := by
  rw [assign]
  split_ifs
  all_goals exact ⟨rfl, rfl, rfl, rfl, rfl, rfl, rfl, rfl⟩

theorem sameClock_loadConfig (files : Files) (t : State) : SameClock t (loadConfig files t) := by
  refine loadConfig_induction (fun key value h => h.trans (sameClock_assign _ key value)) files
    (fun _ => SameClock.refl t) ?_
  exact ⟨rfl, rfl, rfl, rfl, rfl, rfl, rfl, rfl⟩

/-! ### Setting the clock -/

/-- The monotonic time at a reading of the counter. -/
def monotonicAt (tsc : ℕ → UInt64) (t : State) (reading : ℕ) : UInt64 :=
  elapsedNs t.tscHz (tsc reading - t.baseTsc)

/-- The time at a reading of the counter. -/
def realtimeAt (tsc : ℕ → UInt64) (t : State) (reading : ℕ) : Int64 :=
  (t.baseUtcNs + monotonicAt tsc t reading).toInt64 + t.realtimeCorrectionNs

theorem timedGetRealtimeNs_eq (h : t.running = true) (tsc : ℕ → UInt64) :
    timedGetRealtimeNs tsc t = (some (realtimeAt tsc t t.readings), { t with readings := t.readings + 1 }) := by
  rw [timedGetRealtimeNs, if_neg (not_not.mpr h)]
  rfl

/-- The time at a reading of the counter, in the format of NTP. -/
def timeAt (tsc : ℕ → UInt64) (t : State) (reading : ℕ) : UInt64 :=
  ntpFromNs ((t.baseUtcNs + elapsedNs t.tscHz (tsc reading - t.baseTsc)).toInt64 + t.realtimeCorrectionNs)

theorem SameClock.timeAt {t' : State} (h : SameClock t t') (tsc : ℕ → UInt64) (reading : ℕ) :
    timeAt tsc t' reading = Timed.timeAt tsc t reading := by
  rw [Timed.timeAt, Timed.timeAt, h.baseUtc, h.hz, h.baseTsc, h.correction]

/-- A reply was received from the server during a call: the frame that holds it was processed, and the
server's name was resolved to the address it came from. -/
def Received (server : List UInt8) (t1 : UInt64) (r : Net.NtpResult) (s s' : Net.State) : Prop :=
  ∃ a, (server, a) ∈ s'.resolved.drop s.resolved.length ∧
    ∃ frame ∈ s'.processed.drop s.processed.length, IsNtpReply frame a t1 r

/-- A reply of any attempt was received during the call. -/
theorem attempts_received (dev : Net.Device) (s : Net.State) (hpoll : ∀ s, Net.Effect [] s (poll s)) (server : List UInt8) (t1 : UInt64)
    (spins retries : ℕ) (result : ℤ) (r : Net.NtpResult) :
    Continues s (attempts dev poll server t1 spins retries result s).2.2 ∧
      ((attempts dev poll server t1 spins retries result s).2.1 = some r →
        Received server t1 r s (attempts dev poll server t1 spins retries result s).2.2) := by
  induction retries generalizing result s with
  | zero => exact ⟨Continues.refl s, fun h => by cases h⟩
  | succ retries ih =>
    rw [attempts]
    have hquery := Net.networkNtpQuery_reply hpoll dev s server t1 spins r
    generalize Net.networkNtpQuery dev poll s server t1 spins = answer at hquery ⊢
    obtain ⟨code, reply, s₁⟩ := answer
    dsimp only
    split_ifs
    · exact hquery
    · obtain ⟨hcontinues, hlater⟩ := @ih s₁ code
      refine ⟨hquery.1.trans hcontinues, fun h => ?_⟩
      obtain ⟨a, hname, frame, hframe, hreply⟩ := hlater h
      exact ⟨a, hquery.1.mem_resolved_later hcontinues hname, frame, hquery.1.mem_processed hcontinues hframe, hreply⟩

/-- The clock is left as it was. -/
structure Unchanged (t t' : State) : Prop where
  correction : t'.realtimeCorrectionNs = t.realtimeCorrectionNs
  synchronized : t'.synchronized = t.synchronized
  lastSync : t'.lastSyncEpoch = t.lastSyncEpoch

/-- A reply has been accepted. -/
structure Accepted (tsc : ℕ → UInt64) (t t' : State) (t1 : UInt64) (r : Net.NtpResult) : Prop where
  positive : 0 ≤ delayNs t1 (timeAt tsc t t.readings) r
  short : delayNs t1 (timeAt tsc t t.readings) r ≤ 30000000000
  correction : t'.realtimeCorrectionNs = t.realtimeCorrectionNs + offsetNs t1 (timeAt tsc t t.readings) r
  offset : t'.lastOffsetNs = offsetNs t1 (timeAt tsc t t.readings) r
  delay : t'.lastDelayNs = delayNs t1 (timeAt tsc t t.readings) r
  configured : t'.configured = t.configured
  hz : t'.tscHz = t.tscHz
  baseTsc : t'.baseTsc = t.baseTsc
  next : t'.nextAttemptNs = monotonicAt tsc t' (t'.readings - 1) + t.syncInterval.toUInt64 * 1000000000

/-- A reply sets the clock only if the delay is believable. -/
theorem applyReply_spec (h : t.running = true) (tsc : ℕ → UInt64) (t1 : UInt64) (r : Net.NtpResult) :
    ((delayNs t1 (timeAt tsc t t.readings) r < 0 ∨ delayNs t1 (timeAt tsc t t.readings) r > 30000000000) ∧
        (applyReply tsc t t1 r).1 ≠ 1 ∧ Unchanged t (applyReply tsc t t1 r).2) ∨
      Accepted tsc t (applyReply tsc t t1 r).2 t1 r := by
  rw [applyReply, timedGetRealtimeNs_eq h]
  dsimp only
  rw [realtimeAt, monotonicAt, ← timeAt]
  by_cases hdelay : delayNs t1 (timeAt tsc t t.readings) r < 0 ∨ delayNs t1 (timeAt tsc t t.readings) r > 30000000000
  · rw [if_pos hdelay]
    exact .inl ⟨hdelay, show (-11 : ℤ) ≠ 1 by decide, rfl, rfl, rfl⟩
  · rw [if_neg hdelay]
    rw [not_or] at hdelay
    exact .inr ⟨Int64.not_lt.mp hdelay.1, Int64.not_lt.mp hdelay.2, rfl, rfl, rfl, rfl, rfl, rfl, rfl⟩

/-- The attempts of a call of `timed_sync`. -/
def queried (dev : Net.Device) (poll : Net.State → Net.State) (tsc : ℕ → UInt64) (files : Files) (t : State)
    (s : Net.State) : ℤ × Option Net.NtpResult × Net.State :=
  let u := loadConfig files t
  attempts dev poll u.server (timeAt tsc t t.readings) (u.timeoutMs * 1400).toNat u.retries.toNat (-5) s

theorem queried_received (dev : Net.Device) (depth : ℕ) (tsc : ℕ → UInt64) (files : Files) (t : State) (s : Net.State)
    (r : Net.NtpResult) : (queried dev (Net.networkPoll dev depth) tsc files t s).2.1 = some r →
      Received (loadConfig files t).server (timeAt tsc t t.readings) r s
        (queried dev (Net.networkPoll dev depth) tsc files t s).2.2 :=
  (attempts_received dev s (Net.effect_networkPoll depth) _ _ _ _ _ r).2

/-- The variables of a call once the time of the request has been read. -/
def begun (files : Files) (t : State) : State := { loadConfig files t with readings := t.readings + 1 }

theorem timeAt_begun (tsc : ℕ → UInt64) (files : Files) (t : State) (reading : ℕ) :
    timeAt tsc (begun files t) reading = timeAt tsc t reading :=
  (sameClock_loadConfig files t).timeAt tsc reading

/-- **A call of `timed_sync`** asks, and applies the reply or waits. -/
theorem timedSync_eq (hrunning : t.running = true) (hready : s.ready = true) :
    timedSync dev poll tsc files t s = match queried dev poll tsc files t s with
      | (_, some reply, s) =>
        ((applyReply tsc (begun files t) (timeAt tsc t t.readings) reply).1,
          (applyReply tsc (begun files t) (timeAt tsc t t.readings) reply).2, s)
      | (result, none, s) =>
        (result, { begun files t with
          lastError := result, failures := (begun files t).failures + 1, readings := t.readings + 2
          nextAttemptNs := monotonicAt tsc (begun files t) (t.readings + 1) + 30000000000 }, s) := by
  have hload := sameClock_loadConfig files t
  have hrunning' := hload.running.trans hrunning
  rw [timedSync]
  rw [if_neg (not_or.mpr ⟨not_not.mpr hrunning', not_not.mpr hready⟩), timedGetRealtimeNs_eq hrunning', queried, begun]
  dsimp only
  rw [realtimeAt, monotonicAt, ← timeAt, hload.readings, hload.timeAt]
  rfl

theorem timedSync_down (h : ¬(t.running = true ∧ s.ready = true)) :
    timedSync dev poll tsc files t s = (-1, ((loadConfig files t).failed (-1)).2, s) := by
  rw [timedSync]
  rw [(sameClock_loadConfig files t).running, if_pos (not_and_or.mp h)]
  rfl

/-- **Who can set the clock**: whatever frames arrive, in whatever order and during whatever attempts,
`timed_sync` leaves the correction, the flag and the time of the last synchronization as they
were, unless a packet from an address of the server, processed during the call, answers the
time at which this very call began, passes every check, and gives with the time of its arrival a
delay between 0 and 30 seconds; the correction is then what this packet says. -/
theorem timedSync_spec (dev : Net.Device) (depth : ℕ) (tsc : ℕ → UInt64) (files : Files) (t : State)
    (s : Net.State) :
    Unchanged t (timedSync dev (Net.networkPoll dev depth) tsc files t s).2.1 ∨
      ∃ r, Received (loadConfig files t).server (timeAt tsc t t.readings) r s
          (timedSync dev (Net.networkPoll dev depth) tsc files t s).2.2 ∧
        0 ≤ delayNs (timeAt tsc t t.readings) (timeAt tsc t (t.readings + 1)) r ∧
        delayNs (timeAt tsc t t.readings) (timeAt tsc t (t.readings + 1)) r ≤ 30000000000 ∧
        (timedSync dev (Net.networkPoll dev depth) tsc files t s).2.1.realtimeCorrectionNs =
          t.realtimeCorrectionNs + offsetNs (timeAt tsc t t.readings) (timeAt tsc t (t.readings + 1)) r := by
  have hload := sameClock_loadConfig files t
  by_cases hup : t.running = true ∧ s.ready = true
  swap
  · rw [timedSync_down hup]
    exact .inl ⟨hload.correction, hload.synchronized, hload.lastSync⟩
  have hreceived := queried_received dev depth tsc files t s
  rw [timedSync_eq hup.1 hup.2]
  generalize queried dev (Net.networkPoll dev depth) tsc files t s = answer at hreceived ⊢
  obtain ⟨result, _ | reply, s₁⟩ := answer
  · exact .inl ⟨hload.correction, hload.synchronized, hload.lastSync⟩
  · rcases applyReply_spec (t := begun files t) (hload.running.trans hup.1) tsc (timeAt tsc t t.readings) reply with
      ⟨-, -, hsame⟩ | haccepted
    · exact .inl ⟨hsame.correction.trans hload.correction, hsame.synchronized.trans hload.synchronized,
        hsame.lastSync.trans hload.lastSync⟩
    · obtain ⟨hpos, hless, hset, -⟩ := haccepted
      rw [timeAt_begun] at hpos hless hset
      refine .inr ⟨reply, hreceived reply rfl, hpos, hless, ?_⟩
      rw [← hload.correction]
      exact hset

end Timed

end OS64
