import OS64.Services.Model
import OS64.Lib.Runs
import Mathlib.Tactic.IntervalCases

/-!
# Running services and what they depend on

A service is started only if the service it depends on is ready, and nothing looks
at the dependency again. So the property that a running service depends on a ready
one (`OS64.Services.DependenciesReady`) is kept by `service_start` and
`service_wait_ready`: they change one service only, and that service was not ready, so nothing
that runs depends on it (`OS64.Services.DependenciesReady.put`). It is lost

* by `service_stop` of a service on which a running service depends, and
* by `service_poll_all`, if a service fails there and one that depends on it does not.

`OS64.Services.dependenciesReady_iff` says that it is lost in no other way.
-/

namespace OS64.Services

open List Function

variable {W : Type*} {sub : Subsystems W} {s : System W} {i d : Fin serviceCount}

/-! ### The property -/

/-- The service is starting or ready. -/
def Running (s : System W) (i : Fin serviceCount) : Prop :=
  (s.table i).state = .starting ∨ (s.table i).state = .ready

instance (s : System W) : DecidablePred (Running s) := fun _ => inferInstanceAs (Decidable (_ ∨ _))

/-- Whenever a service is starting or ready, the service it depends on is ready. -/
def DependenciesReady (s : System W) : Prop :=
  ∀ i d, dependency i = some d → Running s i → (s.table d).state = .ready

theorem dependency_lt (h : dependency i = some d) : d < i := by
  revert i d
  decide

/-- What becomes of one service that is not ready does not matter to the others. -/
theorem DependenciesReady.put (h : DependenciesReady s) {v : Service} (hstate : (s.table i).state ≠ .ready)
    (hv : v.state = .starting ∨ v.state = .ready → ∀ d, dependency i = some d → (s.table d).state = .ready) :
    DependenciesReady (s.put i v) := by
  have hat : ∀ j, (s.put i v).table j = if j = i then v else s.table j := fun j => update_apply s.table i v j
  intro j d hd hj
  have hdi : d ≠ i := by
    rintro rfl
    -- then a running service depended on one that is not ready
    have hji : j ≠ d := (dependency_lt hd).ne'
    rw [Running, hat, if_neg hji] at hj
    exact hstate (h j d hd hj)
  rw [hat, if_neg hdi]
  by_cases hji : j = i
  · rw [Running, hat, if_pos hji] at hj
    exact hv hj d (hji ▸ hd)
  · rw [Running, hat, if_neg hji] at hj
    exact h j d hd hj

/-- The rest of the kernel does not matter. -/
theorem DependenciesReady.withTable {s' : System W} (h : DependenciesReady s) (htable : s'.table = s.table) :
    DependenciesReady s' := by
  intro i d hd hi
  rw [Running, htable] at hi
  rw [htable]
  exact h i d hd hi

/-! ### Polling -/

/-- The subsystem behind a service answers a poll that it does not work. Five
services ask for that each time, and `diskd` while it is starting. -/
def Ails (sub : Subsystems W) (i : Fin serviceCount) (v : Service) (w : W) : Prop :=
  match i.val with
  | 0 => False
  | 1 => (sub .memoryHeapBytes (sub .memoryFreeBytes w).2).1 = 0
  | 2 => False
  | 3 => v.state = .starting ∧ (sub .diskSync w).1 = 0
  | 4 => (sub .authUserCount w).1 = 0
  | 5 => False
  | 6 => (sub .networkReady (sub .networkTxPackets (sub .networkRxPackets (sub .networkPoll w).2).2).2).1 = 0
  | 7 => (sub .displayReady (sub .displayCharacters w).2).1 = 0
  | 9 => False
  | _ => (sub .graphicsReady (sub .graphicsFrames (sub .graphicsPoll w).2).2).1 = 0

theorem readyOrFail_state (v : Service) (ok : UInt64) (code : Int32) :
    (readyOrFail v ok code).state = if ok = 0 then .failed else .ready := by
  rw [readyOrFail]
  by_cases hok : ok = 0
  · rw [if_neg (not_not.mpr hok), if_pos hok, fail]
  · rw [if_pos hok, if_neg hok]

/-- **What a poll does to a service that runs**: it fails if its subsystem ails; if not, it
runs on, and is ready if it was. -/
theorem inspect_state (sub : Subsystems W) (i : Fin serviceCount) {v : Service} (w : W) (hv : v.state = .starting ∨ v.state = .ready) :
    (Ails sub i v w → (inspect sub i v w).1.state = .failed) ∧
      (¬Ails sub i v w → (inspect sub i v w).1.state = .starting ∧ v.state = .starting ∨
        (inspect sub i v w).1.state = .ready) := by
  have honce : ∀ u : Service, u.state = v.state →
      (readyOnce u).state = .starting ∧ v.state = .starting ∨ (readyOnce u).state = .ready := by
    intro u hu
    rw [readyOnce]
    split_ifs
    · exact .inr rfl
    · rcases hv with hv | hv
      · exact .inl ⟨hu.trans hv, hv⟩
      · exact .inr (hu.trans hv)
  have horFail : ∀ (u : Service) (ok : UInt64) (code : Int32),
      (ok = 0 → (readyOrFail u ok code).state = .failed) ∧
        (¬ok = 0 → (readyOrFail u ok code).state = .starting ∧ v.state = .starting ∨
          (readyOrFail u ok code).state = .ready) := by
    intro u ok code
    rw [readyOrFail_state]
    exact ⟨fun hok => if_pos hok, fun hok => .inr (if_neg hok)⟩
  obtain ⟨n, hn⟩ := i
  rw [serviceCount] at hn
  interval_cases n
  · exact ⟨False.elim, fun _ => honce _ rfl⟩
  · exact horFail _ _ _
  · exact ⟨False.elim, fun _ => honce _ rfl⟩
  · -- `diskd` is only asked while it is starting
    by_cases hstart : v.state = .starting
    · by_cases hok : (sub .diskSync w).1 = 0
      · refine ⟨fun _ => ?_, fun hnot => absurd ⟨hstart, hok⟩ hnot⟩
        simp only [inspect, if_pos hstart, if_pos hok, fail]
      · refine ⟨fun hails => absurd hails.2 hok, fun _ => .inr ?_⟩
        simp only [inspect, if_pos hstart, if_neg hok]
    · refine ⟨fun hails => absurd hails.1 hstart, fun _ => .inr ?_⟩
      simp only [inspect, if_neg hstart]
      exact hv.resolve_left hstart
  · exact horFail _ _ _
  · exact ⟨False.elim, fun _ => .inr rfl⟩
  · exact horFail _ _ _
  · exact horFail _ _ _
  · exact horFail _ _ _
  · refine ⟨False.elim, fun _ => .inr ?_⟩
    simp only [inspect]
    split_ifs
    · rfl
    · rfl

theorem pollOne_of_ne {j : Fin serviceCount} (h : j ≠ i) : (pollOne sub s i).table j = s.table j := by
  rw [pollOne]
  split_ifs
  · rfl
  · exact update_of_ne h _ _

theorem pollOne_of_not_running (h : ¬Running s i) : pollOne sub s i = s := by
  rw [pollOne, if_pos (not_or.mp h)]

theorem pollOne_table (h : Running s i) : (pollOne sub s i).table i =
    (inspect sub i { s.table i with cycles := (s.table i).cycles + 1 } s.world).1 := by
  have hrun : ¬((s.table i).state ≠ .starting ∧ (s.table i).state ≠ .ready) := fun hnot => not_or.mpr hnot h
  rw [pollOne, if_neg hrun]
  exact update_self _ _ _

/-- **One poll**: a service runs on unless its subsystem ails. -/
theorem running_pollOne : Running (pollOne sub s i) i ↔ Running s i ∧ ¬Ails sub i (s.table i) s.world := by
  by_cases hrun : Running s i
  · have hails : Ails sub i { s.table i with cycles := (s.table i).cycles + 1 } s.world ↔
        Ails sub i (s.table i) s.world := Iff.rfl
    rw [Running, pollOne_table hrun, and_iff_right hrun, ← hails]
    obtain ⟨hfails, hruns⟩ := inspect_state sub i s.world
      (v := { s.table i with cycles := (s.table i).cycles + 1 }) hrun
    constructor
    · rintro hstate hbad
      rw [hfails hbad] at hstate
      simp at hstate
    · intro hgood
      exact (hruns hgood).imp And.left id
  · rw [pollOne_of_not_running hrun]
    exact ⟨fun h => absurd h hrun, fun h => absurd h.1 hrun⟩

theorem ready_pollOne (h : (s.table i).state = .ready) :
    ((pollOne sub s i).table i).state = .ready ↔ ¬Ails sub i (s.table i) s.world := by
  have hrun : Running s i := .inr h
  rw [← and_iff_right hrun (b := ¬Ails sub i (s.table i) s.world), ← running_pollOne]
  refine ⟨.inr, fun hafter => ?_⟩
  rcases (inspect_state sub i s.world
    (v := { s.table i with cycles := (s.table i).cycles + 1 }) hrun).2
      (running_pollOne.mp hafter).2 with hstart | hready
  · rw [h] at hstart
    cases hstart.2
  · rw [pollOne_table hrun, hready]

theorem foldl_pollOne_of_notMem {l : List (Fin serviceCount)} (h : i ∉ l) :
    (l.foldl (pollOne sub) s).table i = s.table i := by
  induction l generalizing s with
  | nil => rfl
  | cons j l ih =>
    rw [mem_cons, not_or] at h
    rw [foldl_cons, ih h.2, pollOne_of_ne h.1]

/-- The state in which `service_poll_all` polls a service. -/
def turn (sub : Subsystems W) (s : System W) (i : Fin serviceCount) : System W :=
  ((List.finRange serviceCount).take i).foldl (pollOne sub) s

/-- `service_poll_all` polls each service once, in the state its turn finds. -/
theorem servicePollAll_table (sub : Subsystems W) (s : System W) (i : Fin serviceCount) : (turn sub s i).table i = s.table i ∧
    (servicePollAll sub s).table i = (pollOne sub (turn sub s i) i).table i := by
  have hlt : i.val < (List.finRange serviceCount).length := by
    exact i.isLt
  have hsplit : List.finRange serviceCount = (List.finRange serviceCount).take i ++
      i :: (List.finRange serviceCount).drop (i + 1) := by
    conv_lhs => rw [← take_append_drop i (List.finRange serviceCount), drop_eq_getElem_cons hlt, getElem_finRange]
    rfl
  have hnodup := nodup_finRange serviceCount
  rw [hsplit, nodup_append] at hnodup
  obtain ⟨-, hafter, hbefore⟩ := hnodup
  refine ⟨foldl_pollOne_of_notMem fun hmem => hbefore i hmem i mem_cons_self rfl, ?_⟩
  rw [servicePollAll, hsplit, foldl_append, foldl_cons, foldl_pollOne_of_notMem (nodup_cons.mp hafter).1]
  rfl

theorem running_servicePollAll :
    Running (servicePollAll sub s) i ↔ Running s i ∧ ¬Ails sub i (s.table i) (turn sub s i).world := by
  obtain ⟨hturn, hafter⟩ := servicePollAll_table sub s i
  rw [Running, hafter, ← Running, running_pollOne, Running, hturn, ← Running]

theorem ready_servicePollAll (h : (s.table i).state = .ready) :
    ((servicePollAll sub s).table i).state = .ready ↔ ¬Ails sub i (s.table i) (turn sub s i).world := by
  obtain ⟨hturn, hafter⟩ := servicePollAll_table sub s i
  rw [hafter, ready_pollOne (by rw [hturn, h]), hturn]

/-! ### Starting -/

/-- `service_start` on a service that does not run: it is starting or has failed
then, and is starting only if its dependency is ready. -/
theorem startAt_table (sub : Subsystems W) (hrun : ¬Running s i) :
    ∃ v, (startAt sub s i).1.table = (s.put i v).table ∧ v.state ≠ .ready ∧
      (v.state = .starting → dependencyReady s i = true) := by
  have hrun' : ¬((s.table i).state = .ready ∨ (s.table i).state = .starting) := fun h => hrun h.symm
  rw [startAt, if_neg hrun']
  by_cases hdep : dependencyReady s i = true
  · rw [if_neg (not_not.mpr hdep)]
    -- a service whose subsystem does not come up is recorded a second time
    dsimp only
    split_ifs
    all_goals first
      | exact ⟨_, rfl, nofun, fun _ => hdep⟩
      | exact ⟨_, update_idem _ _ _, nofun, fun _ => hdep⟩
  · rw [if_pos hdep]
    exact ⟨_, rfl, State.noConfusion, State.noConfusion⟩

theorem DependenciesReady.startAt (h : DependenciesReady s) (i : Fin serviceCount) :
    DependenciesReady (startAt sub s i).1 := by
  by_cases hrun : Running s i
  · rw [Services.startAt, if_pos hrun.symm]
    exact h
  · obtain ⟨v, htable, hready, hstarting⟩ := startAt_table sub hrun
    refine (h.put (v := v) (fun hr => hrun (.inr hr)) fun hv d hd => ?_).withTable htable
    have hdep := hstarting (hv.resolve_right hready)
    rw [dependencyReady, hd] at hdep
    exact of_decide_eq_true hdep

/-- A service that is starting is polled, and keeps being so. -/
theorem DependenciesReady.pollWhileStarting (h : DependenciesReady s) (i : Fin serviceCount) (polls : ℕ) :
    DependenciesReady (pollWhileStarting sub i polls s) := by
  induction polls generalizing s with
  | zero => exact h
  | succ polls ih =>
    rw [Services.pollWhileStarting]
    split_ifs with hstart
    · refine ih ?_
      have hrun : Running s i := .inl hstart
      have hnot : (s.table i).state ≠ .ready := by
        rw [hstart]
        exact State.noConfusion
      refine (h.put (i := i) (v := (pollOne sub s i).table i) hnot fun _ d hd => h i d hd hrun).withTable ?_
      funext j
      by_cases hj : j = i
      · rw [hj]
        exact (update_self i _ s.table).symm
      · rw [pollOne_of_ne hj]
        exact (update_of_ne hj _ s.table).symm
    · exact h

theorem DependenciesReady.serviceWaitReady (h : DependenciesReady s) (id : Int32) (polls : UInt32) :
    DependenciesReady (serviceWaitReady sub s id polls).1 := by
  rw [Services.serviceWaitReady]
  split
  · exact h
  · rename_i i hi
    have hstart : DependenciesReady (Services.startAt sub s i).1 := h.startAt i
    have hwait : DependenciesReady (Services.pollWhileStarting sub i polls.toNat (Services.startAt sub s i).1) :=
      hstart.pollWhileStarting i polls.toNat
    dsimp only
    split_ifs with hstarted hstarting
    · refine hwait.put ?_ fun hv => ?_
      · rw [hstarting]
        exact State.noConfusion
      · rcases hv with hv | hv
        · cases hv
        · cases hv
    · exact hwait
    · exact hstart

/-! ### Runs -/

/-- A call of the service interface. -/
inductive Call where
  | start (id : Int32)
  | stop (id : Int32)
  | waitReady (id : Int32) (polls : UInt32)
  | pollAll

/-- The effect of a call. -/
def step (sub : Subsystems W) (s : System W) : Call → System W
  | .start id => (serviceStart sub s id).1
  | .stop id => (serviceStop sub s id).1
  | .waitReady id polls => (serviceWaitReady sub s id polls).1
  | .pollAll => servicePollAll sub s

/-- When a call leaves no running service without what it depends on: a service
that is stopped has no running dependents, and where a subsystem ails at its poll,
those of the running services that depend on it ail at theirs. -/
def KeepsReady (sub : Subsystems W) (s : System W) : Call → Prop
  | .stop id => ∀ d, index id = some d → ∀ i, dependency i = some d → ¬Running s i
  | .pollAll => ∀ i d, dependency i = some d → Running s i →
      Ails sub d (s.table d) (turn sub s d).world → Ails sub i (s.table i) (turn sub s i).world
  | _ => True

theorem dependenciesReady_serviceStop (h : DependenciesReady s) (id : Int32) :
    DependenciesReady (serviceStop sub s id).1 ↔ KeepsReady sub s (.stop id) := by
  rw [serviceStop, KeepsReady]
  rcases hid : index id with _ | d
  · simpa using h
  · simp only [Option.some.injEq, forall_eq']
    have htable : ∀ v : Service, (if d.val = 8 then
        (if d.val = 2 then (s.put d v).call sub .timedStop else s.put d v).call sub .graphicsStop
        else if d.val = 2 then (s.put d v).call sub .timedStop else s.put d v).table = (s.put d v).table := by
      intro v
      split_ifs <;> rfl
    have hat : ∀ v j, (s.put d v).table j = if j = d then v else s.table j := fun v j => update_apply s.table d v j
    constructor
    · intro hafter i hi hrun
      have hne : i ≠ d := (dependency_lt hi).ne'
      have hready := hafter i d hi (by rw [Running, htable, hat, if_neg hne]; exact hrun)
      rw [htable, hat, if_pos rfl] at hready
      cases hready
    · intro hnone
      refine DependenciesReady.withTable (s := s.put d _) ?_ (htable _)
      intro i e he hi
      rw [Running, hat] at hi
      split_ifs at hi with hid
      · simp at hi
      · have hne : e ≠ d := fun heq => hnone i (heq ▸ he) hi
        rw [hat, if_neg hne]
        exact h i e he hi

theorem dependenciesReady_servicePollAll (h : DependenciesReady s) :
    DependenciesReady (servicePollAll sub s) ↔ KeepsReady sub s .pollAll := by
  constructor
  · intro hafter i d hd hi hails
    by_contra hnot
    have hready := hafter i d hd (running_servicePollAll.mpr ⟨hi, hnot⟩)
    exact (ready_servicePollAll (h i d hd hi)).mp hready hails
  · intro hkeeps i d hd hi
    obtain ⟨hrun, hnot⟩ := running_servicePollAll.mp hi
    exact (ready_servicePollAll (h i d hd hrun)).mpr fun hails => hnot (hkeeps i d hd hrun hails)

theorem dependenciesReady_step (h : DependenciesReady s) (call : Call) :
    DependenciesReady (step sub s call) ↔ KeepsReady sub s call := by
  cases call with
  | start id =>
    refine iff_of_true ?_ trivial
    rw [step, serviceStart]
    split
    · exact h
    · exact h.startAt _
  | stop id => exact dependenciesReady_serviceStop h id
  | waitReady id polls => exact iff_of_true (h.serviceWaitReady id polls) trivial
  | pollAll => exact dependenciesReady_servicePollAll h

/-- **Running services depend on ready ones** exactly as long as every call keeps it so:
whatever the rest of the kernel answers and whatever is called after `service_init`,
the property holds at every point if and only if no service with running dependents is
stopped, and none fails in a poll that they survive. -/
theorem dependenciesReady_iff (sub : Subsystems W) (s : System W) (calls : List Call) :
    (∀ before after, calls = before ++ after → DependenciesReady (before.foldl (step sub) (serviceInit sub s))) ↔
    Runs.Throughout (fun before call =>
      KeepsReady sub (before.foldl (step sub) (serviceInit sub s)) call) calls := by
  refine Runs.forall_states_iff ?_ fun _ call _ h => dependenciesReady_step h call
  intro i d _ hi
  rcases hi with hi | hi
  · cases hi
  · cases hi

/-- `fsd` is stopped while `diskd`, which depends on it, is ready. -/
theorem diskd_ready_without_fsd :
    let s := [.waitReady 0 8, .waitReady 3 8, .stop 0].foldl (step fun _ _ => (1, ()))
      (serviceInit (fun _ _ => (1, ())) ⟨fun _ => ⟨.stopped, 0, 0, 0, 0, 0⟩, ()⟩)
    Running s ⟨3, by decide⟩ ∧ ¬DependenciesReady s := by
  intro s
  have hdisk : Running s ⟨3, by decide⟩ := by decide +kernel
  refine ⟨hdisk, fun h => ?_⟩
  have hready := h ⟨3, by decide⟩ ⟨0, by decide⟩ (by decide) hdisk
  exact absurd hready (by decide +kernel)

end OS64.Services
