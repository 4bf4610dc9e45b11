import Mathlib.Data.List.FinRange

/-!
# The services

`kernel/core/service.c`: a table of ten services, each with a state and counters,
and for all but two of them another service it depends on.

What stands behind a service is the rest of the kernel. Nothing is said about it:
the rest has some state, and a call into it answers with a number and changes that
state in any way (`OS64.Services.Subsystems`). None of it calls back into this
file. The two texts a service has are not modelled, as no function here reads them
but to print them, and `service_find`, which returns an index.
-/

namespace OS64.Services

/-- `service_count`. -/
def serviceCount : ℕ := 10

/-- `service_state_t`. -/
inductive State where
  | stopped
  | starting
  | ready
  | failed
  deriving DecidableEq, Repr

/-- The part of `service_t` that changes. -/
structure Service where
  state : State
  exitCode : Int32
  generation : UInt64
  cycles : UInt64
  errors : UInt64
  metric : UInt64
  deriving DecidableEq

/-- The functions of the rest of the kernel that are called. -/
inductive Routine where
  | fsCount
  | memoryFreeBytes
  | memoryHeapBytes
  | timedInit
  | timedStart
  | timedStop
  | timedPoll
  | timedUpdates
  | diskSync
  | authUserCount
  | networkInit
  | networkPoll
  | networkRxPackets
  | networkTxPackets
  | networkReady
  | displayCharacters
  | displayReady
  | logInit
  | logPoll
  | logCount
  | graphicsInit
  | graphicsPoll
  | graphicsFrames
  | graphicsReady
  | graphicsStop
  deriving DecidableEq

/-- How the rest of the kernel answers a call; of a `void` function the answer is
not used. -/
abbrev Subsystems (W : Type*) : Type _ := Routine → W → UInt64 × W

variable {W : Type*}

/-- The table, and the state of the rest of the kernel. -/
structure System (W : Type*) where
  table : Fin serviceCount → Service
  world : W

/-- The service a service depends on: the column of `services` with the same
name, where `none` is -1. The services are, in their order, `fsd`, `memoryd`, `timed`, `diskd`,
`userd`, `acpid`, `netd`, `displayd`, `graphicsd` and `logd`. -/
def dependency (i : Fin serviceCount) : Option (Fin serviceCount) :=
  match i.val with
  | 0 => none
  | 1 => none
  | 2 => some ⟨1, by decide⟩
  | 3 => some ⟨0, by decide⟩
  | 4 => some ⟨3, by decide⟩
  | 5 => some ⟨2, by decide⟩
  | 6 => some ⟨3, by decide⟩
  | 7 => some ⟨1, by decide⟩
  | 8 => some ⟨7, by decide⟩
  | _ => some ⟨2, by decide⟩

/-- The record of a service is replaced. -/
def System.put (s : System W) (i : Fin serviceCount) (v : Service) : System W :=
  { s with table := Function.update s.table i v }

/-- A call whose answer is not used. -/
def System.call (sub : Subsystems W) (r : Routine) (s : System W) : System W :=
  { s with world := (sub r s.world).2 }

/-! ### Polling -/

/-- `service_init`. -/
def serviceInit (sub : Subsystems W) (s : System W) : System W :=
  let s := { s with table := fun _ => ⟨.stopped, 0, 0, 0, 0, 0⟩ }
  (s.call sub .timedInit).call sub .timedStop

/-- `fail`. -/
def fail (v : Service) (code : Int32) : Service :=
  { v with state := .failed, exitCode := code, errors := v.errors + 1 }

/-- A service is ready if its subsystem says so, and fails with `code` otherwise. -/
def readyOrFail (v : Service) (ok : UInt64) (code : Int32) : Service :=
  if ok ≠ 0 then { v with state := .ready } else fail v code

/-- A service is ready once its metric is not 0. -/
def readyOnce (v : Service) : Service := if v.metric ≠ 0 then { v with state := .ready } else v

/-- The cases of `poll_one`, on a service that is polled. -/
def inspect (sub : Subsystems W) (i : Fin serviceCount) (v : Service) (w : W) : Service × W :=
  match i.val with
  | 0 =>
    let (count, w) := sub .fsCount w
    (readyOnce { v with metric := count }, w)
  | 1 =>
    let (free, w) := sub .memoryFreeBytes w
    let (heap, w) := sub .memoryHeapBytes w
    (readyOrFail { v with metric := free } heap 12, w)
  | 2 =>
    let (_, w) := sub .timedPoll w
    let (updates, w) := sub .timedUpdates w
    (readyOnce { v with metric := updates }, w)
  | 3 =>
    if v.state = .starting then
      let (ok, w) := sub .diskSync w
      (if ok = 0 then fail v 5 else { v with metric := v.metric + 1, state := .ready }, w)
    else ({ v with metric := v.metric + 1 }, w)
  | 4 =>
    let (count, w) := sub .authUserCount w
    (readyOrFail { v with metric := count } count 2, w)
  | 5 => ({ v with metric := 1, state := .ready }, w)
  | 6 =>
    let (_, w) := sub .networkPoll w
    let (rx, w) := sub .networkRxPackets w
    let (tx, w) := sub .networkTxPackets w
    let (ok, w) := sub .networkReady w
    (readyOrFail { v with metric := rx + tx } ok 19, w)
  | 7 =>
    let (characters, w) := sub .displayCharacters w
    let (ok, w) := sub .displayReady w
    (readyOrFail { v with metric := characters } ok 6, w)
  | 9 =>
    let (_, w) := sub .logPoll w
    let (count, w) := sub .logCount w
    let (again, w) := sub .logCount w
    (if again ≠ 0 then { v with metric := count, state := .ready }
      else { v with metric := 1, state := .ready }, w)
  | _ =>
    let (_, w) := sub .graphicsPoll w
    let (frames, w) := sub .graphicsFrames w
    let (ok, w) := sub .graphicsReady w
    (readyOrFail { v with metric := frames } ok 6, w)

/-- `poll_one`. -/
def pollOne (sub : Subsystems W) (s : System W) (i : Fin serviceCount) : System W :=
  let v := s.table i
  if v.state ≠ .starting ∧ v.state ≠ .ready then s
  else
    let (v, w) := inspect sub i { v with cycles := v.cycles + 1 } s.world
    { s.put i v with world := w }

/-- `service_poll_all`. -/
def servicePollAll (sub : Subsystems W) (s : System W) : System W :=
  (List.finRange serviceCount).foldl (pollOne sub) s

/-! ### Starting and stopping -/

/-- The service an `int` means. -/
def index (id : Int32) : Option (Fin serviceCount) :=
  if h : 0 ≤ id.toInt ∧ id.toInt.toNat < serviceCount then some ⟨id.toInt.toNat, h.2⟩ else none

/-- The dependency of a service is ready, or it has none. -/
def dependencyReady (s : System W) (i : Fin serviceCount) : Bool :=
  match dependency i with
  | none => true
  | some d => (s.table d).state = .ready

/-- `service_start` on a service of the table, with what it returns. -/
def startAt (sub : Subsystems W) (s : System W) (i : Fin serviceCount) : System W × Bool :=
  let v := s.table i
  if v.state = .ready ∨ v.state = .starting then (s, true)
  else if ¬dependencyReady s i then (s.put i (fail v 69), false)
  else
    let v := { v with state := .starting, exitCode := 0, generation := v.generation + 1 }
    let s := s.put i v
    let s := if i.val = 2 then s.call sub .timedStart else s
    if i.val = 6 then
      let (ok, w) := sub .networkInit s.world
      let s := { s with world := w }
      if ok = 0 then (s.put i (fail v 19), false) else (s, true)
    else if i.val = 8 then
      let (ok, w) := sub .graphicsInit s.world
      let s := { s with world := w }
      if ok = 0 then (s.put i (fail v 6), false) else (s, true)
    else if i.val = 9 then (s.call sub .logInit, true)
    else (s, true)

/-- `service_start`. -/
def serviceStart (sub : Subsystems W) (s : System W) (id : Int32) : System W × Bool :=
  match index id with
  | none => (s, false)
  | some i => startAt sub s i

/-- `service_stop`. -/
def serviceStop (sub : Subsystems W) (s : System W) (id : Int32) : System W × Bool :=
  match index id with
  | none => (s, false)
  | some i =>
    let s := s.put i { s.table i with state := .stopped, exitCode := 0 }
    let s := if i.val = 2 then s.call sub .timedStop else s
    let s := if i.val = 8 then s.call sub .graphicsStop else s
    (s, true)

/-- The loop of `service_wait_ready`. -/
def pollWhileStarting (sub : Subsystems W) (i : Fin serviceCount) : ℕ → System W → System W
  | 0, s => s
  | polls + 1, s =>
    if (s.table i).state = .starting then pollWhileStarting sub i polls (pollOne sub s i) else s

/-- `service_wait_ready`. -/
def serviceWaitReady (sub : Subsystems W) (s : System W) (id : Int32) (polls : UInt32) : System W × Bool :=
  match index id with
  | none => (s, false)
  | some i =>
    let (s, started) := startAt sub s i
    if ¬started then (s, false)
    else
      let s := pollWhileStarting sub i polls.toNat s
      let s := if (s.table i).state = .starting then s.put i (fail (s.table i) 110) else s
      (s, (s.table i).state = .ready)

end OS64.Services
