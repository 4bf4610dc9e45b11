import OS64.Net.Model
import OS64.Fat.Model

/-!
# The clock

The part of `kernel/core/timed.c` that sets the clock by the network: the
configuration, the time in nanoseconds since 1970 and in the format of NTP, and
`timed_sync`.

The counter of the processor is a sequence of readings, `tsc`, one for each `rdtsc`.
The two files with the configuration are given as they are when they are read. The
calendar and the display of the time are left out, as `timed_sync` does not use them.
-/

namespace OS64.Timed

open Text Fat

/-! ### State -/

/-- The variables of `timed.c`, and the number of readings of the counter so far. -/
structure State where
  running : Bool
  configured : Bool
  enabled : Bool
  synchronized : Bool
  lastError : ℤ
  realtimeCorrectionNs : Int64
  lastOffsetNs : Int64
  lastDelayNs : Int64
  baseTsc : UInt64
  baseUtcNs : UInt64
  tscHz : UInt64
  lastSyncEpoch : UInt64
  nextAttemptNs : UInt64
  lastAddress : UInt32
  lastStratum : UInt8
  timeoutMs : UInt32
  retries : UInt32
  syncInterval : UInt32
  updates : UInt64
  failures : UInt64
  server : List UInt8
  readings : ℕ

/-- The files with the configuration: `etc/ntp.conf` in the archive, and
`/var/lib/os64/ntp.conf` as far as it is read. -/
structure Files where
  archive : Option (List UInt8)
  var : Option (List UInt8)

/-! ### Configuration -/

/-- `parse_uint`. -/
def parseUint (s : List UInt8) : Option ℕ :=
  if s = [] then none
  else s.foldl (fun v c => v.bind fun v =>
    if ¬isDigit c ∨ v > 1000000 then none else some (v * 10 + (c.toNat - 48))) (some 0)

/-- The characters of a host name other than the dot. -/
def isHostChar (c : UInt8) : Bool := (97 ≤ c ∧ c ≤ 122) ∨ (65 ≤ c ∧ c ≤ 90) ∨ isDigit c ∨ c = 45

/-- The loop of `hostname_valid`, with the number of characters so far and their
number in the label. -/
def hostnameValidFrom (n label : ℕ) : List UInt8 → Bool
  | [] => n ≠ 0 ∧ label ≠ 0
  | c :: s =>
    if ¬isHostChar c ∧ c ≠ 46 then false
    else if c = 46 ∧ label = 0 then false
    else
      let label := if c = 46 then 0 else label + 1
      if n + 1 ≥ 96 ∨ label > 63 then false else hostnameValidFrom (n + 1) label s

/-- `hostname_valid`. -/
def hostnameValid (s : List UInt8) : Bool := hostnameValidFrom 0 0 s

/-- A number in a range. -/
def parseRange (value : List UInt8) (low high : ℕ) : Option UInt32 :=
  match parseUint value with
  | none => none
  | some v => if low ≤ v ∧ v ≤ high then some (UInt32.ofNat v) else none

/-- What `parse_config` does with a key and its value. The last three keys are told by
their length and first letter. -/
def assign (t : State) (key value : List UInt8) : State :=
  if key = chars ['s', 'e', 'r', 'v', 'e', 'r'] ∧ value.length < 96 then
    if hostnameValid (cstr value) then { t with server := (cstr value).take 95 } else t
  else if key = chars ['e', 'n', 'a', 'b', 'l', 'e', 'd'] then
    { t with enabled := value = chars ['t', 'r', 'u', 'e'] }
  else if key.length = 10 ∧ key.head? = some 116 then
    { t with timeoutMs := (parseRange value 100 30000).getD t.timeoutMs }
  else if key.length = 7 ∧ key.head? = some 114 then
    { t with retries := (parseRange value 1 5).getD t.retries }
  else if key.length = 13 ∧ key.head? = some 115 then
    { t with syncInterval := (parseRange value 60 86400).getD t.syncInterval }
  else t

/-- What follows the line. -/
def nextLine (d : List UInt8) : List UInt8 := (d.dropWhile (· != 10)).drop 1

/-- The loop of `parse_config`; `fuel` is the size of the file. -/
def parseConfigFrom : ℕ → State → List UInt8 → State
  | 0, t, _ => t
  | fuel + 1, t, d =>
    match d.dropWhile fun c => c == 32 || c == 9 || c == 13 || c == 10 with
    | [] => t
    | c :: rest =>
      if c = 35 then parseConfigFrom fuel t (nextLine (c :: rest))
      else
        let key := (c :: rest).takeWhile fun c => c != 61 && c != 10
        match (c :: rest).drop key.length with
        | 61 :: rest =>
          let value := rest.takeWhile fun c => c != 13 && c != 10
          parseConfigFrom fuel (assign t key value) (rest.drop value.length)
        | rest => parseConfigFrom fuel t (nextLine rest)

/-- `parse_config`. -/
def parseConfig (t : State) (d : List UInt8) : State := parseConfigFrom d.length t d

/-- A file that is there is read. -/
def parseFile (t : State) : Option (List UInt8) → State
  | none => t
  | some d => parseConfig t d

/-- `load_config`. -/
def loadConfig (files : Files) (t : State) : State :=
  if t.configured then t
  else parseFile (parseFile { t with configured := true } files.archive) (files.var.map (·.take 512))

variable {P : State → Prop} {t : State}

/-- What every assignment keeps is kept when the configuration is parsed. -/
theorem parseConfigFrom_induction (hassign : ∀ {t} key value, P t → P (assign t key value))
    (h : P t) (fuel : ℕ) (d : List UInt8) : P (parseConfigFrom fuel t d) := by
  induction fuel generalizing t d with
  | zero => exact h
  | succ fuel ih =>
    rw [parseConfigFrom]
    split
    · exact h
    · split_ifs
      · exact ih h _
      · dsimp only
        split
        · exact ih (hassign _ _ h) _
        · exact ih h _

/-- And when it is loaded. -/
theorem loadConfig_induction (hassign : ∀ {t} key value, P t → P (assign t key value))
    (files : Files) (h : t.configured = true → P t) (h' : P { t with configured := true }) : P (loadConfig files t) := by
  have hfile : ∀ {t}, P t → ∀ file, P (parseFile t file) := by
    rintro t h (_ | d)
    · exact h
    · exact parseConfigFrom_induction hassign h _ d
  rw [loadConfig]
  split_ifs with hconfigured
  · exact h hconfigured
  · exact hfile (hfile h' _) _

/-! ### Time -/

/-- `NS_SECOND`. -/
def nsSecond : Int64 := 1000000000

/-- `NTP_EPOCH`. -/
def ntpEpoch : UInt64 := 2208988800

/-- `elapsed_ns`. -/
def elapsedNs (tscHz ticks : UInt64) : UInt64 :=
  ticks / tscHz * 1000000000 + ticks % tscHz * 1000000000 / tscHz

/-- `timed_monotonic_ns`. -/
def timedMonotonicNs (tsc : ℕ → UInt64) (t : State) : UInt64 × State :=
  (elapsedNs t.tscHz (tsc t.readings - t.baseTsc), { t with readings := t.readings + 1 })

/-- `timed_get_realtime_ns`. -/
def timedGetRealtimeNs (tsc : ℕ → UInt64) (t : State) : Option Int64 × State :=
  if ¬t.running then (none, t)
  else
    let (now, t) := timedMonotonicNs tsc t
    (some ((t.baseUtcNs + now).toInt64 + t.realtimeCorrectionNs), t)

/-- `ntp_from_ns`. -/
def ntpFromNs (ns : Int64) : UInt64 :=
  let sec := (ns / nsSecond).toUInt64 + ntpEpoch
  let frac := (ns % nsSecond).toUInt64
  sec <<< 32 ||| (frac <<< 32) / nsSecond.toUInt64

/-- `fixed_delta_ns`. -/
def fixedDeltaNs (a b : UInt64) : Int64 :=
  let d := (a - b).toInt64
  let q := d / 4294967296
  let r := d % 4294967296
  q * nsSecond + r * nsSecond / 4294967296

/-- The offset that `timed_sync` computes from the times of a request and its reply. -/
def offsetNs (t1 t4 : UInt64) (reply : Net.NtpResult) : Int64 :=
  (fixedDeltaNs reply.receiveTimestamp t1 + fixedDeltaNs reply.transmitTimestamp t4) / 2

/-- The round-trip delay that it computes. -/
def delayNs (t1 t4 : UInt64) (reply : Net.NtpResult) : Int64 :=
  fixedDeltaNs t4 t1 - fixedDeltaNs reply.transmitTimestamp reply.receiveTimestamp

/-! ### Setting the clock -/

section

variable (dev : Net.Device) (poll : Net.State → Net.State)

/-- The loop of `timed_sync` over the attempts; `result` is that of the last one. -/
def attempts (server : List UInt8) (t1 : UInt64) (spins : ℕ) :
    ℕ → ℤ → Net.State → ℤ × Option Net.NtpResult × Net.State
  | 0, result, s => (result, none, s)
  | retries + 1, _, s =>
    match Net.networkNtpQuery dev poll s server t1 spins with
    | (result, reply, s) =>
      if result = Net.ntpOk then (result, reply, s) else attempts server t1 spins retries result s

/-- An attempt has failed. -/
def State.failed (t : State) (code : ℤ) : ℤ × State :=
  (code, { t with lastError := code, failures := t.failures + 1 })

/-- The end of `timed_sync`, with a reply. -/
def applyReply (tsc : ℕ → UInt64) (t : State) (t1 : UInt64) (reply : Net.NtpResult) : ℤ × State :=
  match timedGetRealtimeNs tsc t with
  | (none, t) => t.failed (-11)
  | (some t4ns, t) =>
    let t4 := ntpFromNs t4ns
    let offset := offsetNs t1 t4 reply
    let delay := delayNs t1 t4 reply
    let t := { t with lastOffsetNs := offset, lastDelayNs := delay }
    if delay < 0 ∨ delay > 30000000000 then t.failed (-11)
    else
      let t := { t with
        realtimeCorrectionNs := t.realtimeCorrectionNs + offset
        synchronized := true
        lastError := 0
        lastAddress := reply.address
        lastStratum := reply.stratum
        lastSyncEpoch := ((t4ns + offset) / nsSecond).toUInt64 }
      let (now, t) := timedMonotonicNs tsc t
      (1, { t with nextAttemptNs := now + t.syncInterval.toUInt64 * 1000000000, updates := t.updates + 1 })

/-- `timed_sync`. -/
def timedSync (tsc : ℕ → UInt64) (files : Files) (t : State) (s : Net.State) : ℤ × State × Net.State :=
  let t := loadConfig files t
  if ¬t.running ∨ ¬s.ready then
    let (code, t) := t.failed (-1)
    (code, t, s)
  else match timedGetRealtimeNs tsc t with
    | (none, t) => (-11, t, s)
    | (some t1ns, t) =>
      let t1 := ntpFromNs t1ns
      match attempts dev poll t.server t1 (t.timeoutMs * 1400).toNat t.retries.toNat (-5) s with
      | (_, some reply, s) =>
        let (code, t) := applyReply tsc t t1 reply
        (code, t, s)
      | (result, none, s) =>
        let (code, t) := t.failed result
        let (now, t) := timedMonotonicNs tsc t
        (code, { t with nextAttemptNs := now + 30000000000 }, s)

end

end OS64.Timed
