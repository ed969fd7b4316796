/-
  PlcBridge.Bridge.Service

  The whole service: the pollers that run the drivers, the OPC UA server with
  its runner and its write-bridge thread, and `main`, which at Ctrl-C stops the
  drivers one after the other and then the server (runtime/src/main.rs,
  `start_native_server` and `ServerHandle::wait`).

  To the system of the writes this adds who may move when: a driver only turns
  inside a cycle of its poller, clients only call while the runner runs, and the
  thread ends when its wait timed out and the flag is up, or when all senders of
  its channel are gone.  Seen from the writes, a run of the service is a run of
  that system (`sys_of_runs`).
-/
import PlcBridge.Bridge.Agreement
import PlcBridge.Bridge.Progress
import PlcBridge.Runtime.Poller
import PlcBridge.Runtime.StaleTags

namespace PlcBridge.Bridge

open PlcBridge.Lib PlcBridge.Opcua PlcBridge.Runtime

-- ============================================================================
-- The parties
-- ============================================================================

/-- Where `main` stands. -/
inductive Main where
  | serving
  /-- About to stop driver `i`. -/
  | stopping (i : Nat)
  /-- In `stop` of driver `i`, the signal sent. -/
  | locking (i : Nat)
  | joining (i : Nat)
  /-- In `ServerHandle::wait`. -/
  | awaiting
  | joiningThread
  | done
deriving DecidableEq

/-- Where the server's task stands. -/
inductive ServerTask where
  | listening
  /-- The runner is told to end. -/
  | awaitingRunner
  /-- `write_bridge_shutdown` is set. -/
  | flagged
  /-- `bridge_tx` is dropped. -/
  | finished
deriving DecidableEq

/-- `write_bridge_shutdown`. -/
def ServerTask.flag : ServerTask → Bool
  | .listening | .awaitingRunner => false
  | .flagged | .finished => true

structure Service where
  sys : Sys
  pollers : List RuntimeDriver
  main : Main
  task : ServerTask
  /-- `ServerHandle::shutdown` was called. -/
  shutdownSent : Bool
  /-- With the runner go the data sources, and their senders. -/
  runnerEnded : Bool
  /-- The wait of the bridge thread ended without a write; next it looks at the
      flag. -/
  timedOut : Bool

def Service.init (sys : Sys) (pollers : List RuntimeDriver) : Service where
  sys := sys
  pollers := pollers
  main := .serving
  task := .listening
  shutdownSent := false
  runnerEnded := false
  timedOut := false

inductive ServiceEvent where
  | bridge (e : Event)
  | poll (i j : Nat) (e : TaskEvent)
  /-- A cycle ends well, and the tags of the PLC are checked for staleness. -/
  | cycleOk (i j : Nat) (health : Except String (Option String)) (now : DateTime)
  | timeout
  | checkFlag
  | disconnected
  | ctrlC
  | stopSignal
  | stopTake
  | stopJoined
  | shutdown
  /-- The server's task sees the shutdown request. -/
  | notice
  | runnerEnds
  | raiseFlag
  | dropSender
  | awaited
  | threadJoined

-- ============================================================================
-- Steps
-- ============================================================================

namespace Service

variable (s : Service)

/-- Some task of poller `i` is inside `read_cycle`, and not connecting. -/
def inCycle (i : Nat) : Bool :=
  (s.pollers[i]?).any fun rd => rd.tasks.any fun t => t.phase.isCycle

/-- Whether an event of the writes' system can happen now. -/
def admits : Event → Bool
  | .call .. => !s.runnerEnded
  | .receive => !s.timedOut
  | .turn i _ => s.inCycle i
  -- The thread's end and the staleness checks are events of the service.
  | .stop | .update _ => false
  | _ => true

def pollerStep (i : Nat) (e : PollerEvent) : Option Service :=
  (s.pollers[i]?).bind fun rd => (rd.step e).map fun rd' => { s with pollers := s.pollers.set i rd' }

def withRegistry (r : TagRegistry) : Service := { s with sys := { s.sys with registry := r } }

/-- Every call has returned. -/
def Quiet : Prop := ∀ c ∈ s.sys.calls, c.result.isSome

instance : Decidable s.Quiet := inferInstanceAs (Decidable (∀ c ∈ s.sys.calls, c.result.isSome))

/-- The thread waits for a write, and there is none. -/
def starved : Bool :=
  match s.sys.thread, s.sys.bridge with
  | .idle, [] => !s.timedOut
  | _, _ => false

/-- The thread returns. -/
def stopThread : Service :=
  { s with sys := { s.sys with bridge := [], thread := .stopped }, timedOut := false }

end Service

def Service.step (routing : String → Option Nat) (s : Service) : ServiceEvent → Option Service
  | .bridge e =>
      if s.admits e then (Bridge.step routing s.sys e).map fun sys => { s with sys := sys } else none
  | .poll i j e =>
      match e with
      | .finish (.ok _) => none
      | e => s.pollerStep i (.task j e)
  | .cycleOk i j health now =>
      (s.pollers[i]?).bind fun rd =>
        match checkStaleTags rd.name now s.sys.registry with
        | (.ok (), r) => (s.withRegistry r).pollerStep i (.task j (.finish (.ok health)))
        | (.error _, r) => (s.withRegistry r).pollerStep i (.task j .panic)
  | .timeout => if s.starved then some { s with timedOut := true } else none
  | .checkFlag =>
      if s.timedOut then some (if s.task.flag then s.stopThread else { s with timedOut := false }) else none
  | .disconnected =>
      if s.starved ∧ s.runnerEnded ∧ s.task = .finished then some s.stopThread else none
  | .ctrlC => if s.main = .serving then some { s with main := .stopping 0 } else none
  | .stopSignal =>
      match s.main with
      | .stopping i => { s with main := .locking i }.pollerStep i .signal
      | _ => none
  | .stopTake =>
      match s.main with
      | .locking i =>
          (s.pollers[i]?).bind fun rd =>
            { s with main := if rd.pollHandle.isNone then .stopping (i + 1) else .joining i }.pollerStep i .take
      | _ => none
  | .stopJoined =>
      match s.main with
      | .joining i => { s with main := .stopping (i + 1) }.pollerStep i .joined
      | _ => none
  | .shutdown =>
      if s.main = .stopping s.pollers.length then some { s with main := .awaiting, shutdownSent := true }
      else none
  | .notice =>
      if s.task = .listening ∧ s.shutdownSent then some { s with task := .awaitingRunner } else none
  -- The runner ends when told to, or with an error of its own.
  | .runnerEnds => if s.runnerEnded = false ∧ s.Quiet then some { s with runnerEnded := true } else none
  | .raiseFlag => if s.task = .awaitingRunner ∧ s.runnerEnded then some { s with task := .flagged } else none
  | .dropSender => if s.task = .flagged then some { s with task := .finished } else none
  | .awaited => if s.main = .awaiting ∧ s.task = .finished then some { s with main := .joiningThread } else none
  | .threadJoined =>
      match s.main, s.sys.thread with
      | .joiningThread, .stopped => some { s with main := .done }
      | _, _ => none

-- ============================================================================
-- What a step does
-- ============================================================================

namespace Service

/-- The steps of the service, by what they do. -/
inductive Moves (routing : String → Option Nat) (s : Service) : ServiceEvent → Service → Prop
  | bridge {e sys} : s.admits e = true → Bridge.step routing s.sys e = some sys →
      Moves routing s (.bridge e) { s with sys := sys }
  | poll {i j e rd rd'} : s.pollers[i]? = some rd → RuntimeDriver.Moves rd (.task j e) rd' →
      Moves routing s (.poll i j e) { s with pollers := s.pollers.set i rd' }
  | check {i j health now e rd rd'} : s.pollers[i]? = some rd → RuntimeDriver.Moves rd (.task j e) rd' →
      Moves routing s (.cycleOk i j health now)
        { s with
          sys := { s.sys with registry := (checkStaleTags rd.name now s.sys.registry).2 }
          pollers := s.pollers.set i rd' }
  | timeout : s.sys.thread = .idle → s.sys.bridge = [] → s.timedOut = false →
      Moves routing s .timeout { s with timedOut := true }
  | goOn : s.timedOut = true → Moves routing s .checkFlag { s with timedOut := false }
  | stopThread : s.timedOut = true → s.task.flag = true → Moves routing s .checkFlag s.stopThread
  | disconnected : s.sys.thread = .idle → s.sys.bridge = [] → s.timedOut = false → s.task = .finished →
      Moves routing s .disconnected s.stopThread
  | ctrlC : s.main = .serving → Moves routing s .ctrlC { s with main := .stopping 0 }
  | stopSignal {i rd rd'} : s.main = .stopping i → s.pollers[i]? = some rd →
      RuntimeDriver.Moves rd .signal rd' →
      Moves routing s .stopSignal { s with main := .locking i, pollers := s.pollers.set i rd' }
  | stopTake {i rd rd'} : s.main = .locking i → s.pollers[i]? = some rd → RuntimeDriver.Moves rd .take rd' →
      rd.pollHandle.isSome →
      Moves routing s .stopTake { s with main := .joining i, pollers := s.pollers.set i rd' }
  | stopNone {i rd rd'} : s.main = .locking i → s.pollers[i]? = some rd → RuntimeDriver.Moves rd .take rd' →
      rd.pollHandle = none →
      Moves routing s .stopTake { s with main := .stopping (i + 1), pollers := s.pollers.set i rd' }
  | stopJoined {i rd rd'} : s.main = .joining i → s.pollers[i]? = some rd →
      RuntimeDriver.Moves rd .joined rd' →
      Moves routing s .stopJoined { s with main := .stopping (i + 1), pollers := s.pollers.set i rd' }
  | shutdown : s.main = .stopping s.pollers.length →
      Moves routing s .shutdown { s with main := .awaiting, shutdownSent := true }
  | notice : s.task = .listening → Moves routing s .notice { s with task := .awaitingRunner }
  | runnerEnds : s.runnerEnded = false → s.Quiet → Moves routing s .runnerEnds { s with runnerEnded := true }
  | raiseFlag : s.task = .awaitingRunner → s.runnerEnded = true →
      Moves routing s .raiseFlag { s with task := .flagged }
  | dropSender : s.task = .flagged → Moves routing s .dropSender { s with task := .finished }
  | awaited : s.main = .awaiting → s.task = .finished →
      Moves routing s .awaited { s with main := .joiningThread }
  | threadJoined : s.main = .joiningThread → s.sys.thread = .stopped →
      Moves routing s .threadJoined { s with main := .done }

variable {routing : String → Option Nat} {s s' : Service} {e : ServiceEvent}

theorem pollerStep_eq_some {i : Nat} {pe : PollerEvent} (h : s.pollerStep i pe = some s') :
    ∃ rd rd', s.pollers[i]? = some rd ∧ RuntimeDriver.Moves rd pe rd' ∧
      s' = { s with pollers := s.pollers.set i rd' } := by
  obtain ⟨rd, hrd, h⟩ := Option.bind_eq_some_iff.mp h
  obtain ⟨rd', hstep, rfl⟩ := Option.map_eq_some_iff.mp h
  exact ⟨rd, rd', hrd, RuntimeDriver.moves_of_step hstep, rfl⟩

theorem starved_iff :
    s.starved = true ↔ s.sys.thread = .idle ∧ s.sys.bridge = [] ∧ s.timedOut = false := by
  unfold starved
  split
  · rename_i hthread hbridge
    simp [hthread, hbridge]
  · rename_i hother
    refine ⟨fun h => absurd h (by simp), ?_⟩
    rintro ⟨hthread, hbridge, -⟩
    exact absurd hbridge (hother hthread)

theorem moves_cycleOk {i j : Nat} {health : Except String (Option String)} {now : DateTime}
    (h : s.step routing (.cycleOk i j health now) = some s') :
    Moves routing s (.cycleOk i j health now) s' := by
  obtain ⟨rd, hrd, h⟩ := Option.bind_eq_some_iff.mp h
  rcases except_cases (checkStaleTags rd.name now s.sys.registry) with ⟨r, hcheck⟩ | ⟨msg, r, hcheck⟩
  all_goals
    have hr : r = (checkStaleTags rd.name now s.sys.registry).2 := by rw [hcheck]
    simp only [hcheck] at h
    obtain ⟨rd₁, rd', hrd₁, hmove, rfl⟩ := pollerStep_eq_some h
    obtain rfl := Option.some.inj (hrd.symm.trans hrd₁)
    rw [hr]
    exact .check hrd hmove

theorem moves_of_step (h : s.step routing e = some s') : Moves routing s e s' := by
  cases e with
  | bridge e =>
      simp only [step] at h
      split at h
      · rename_i hadmits
        obtain ⟨sys, hsys, rfl⟩ := Option.map_eq_some_iff.mp h
        exact .bridge hadmits hsys
      · exact absurd h (by simp)
  | poll i j e =>
      simp only [step] at h
      split at h
      · exact absurd h (by simp)
      · obtain ⟨rd, rd', hrd, hmove, rfl⟩ := pollerStep_eq_some h
        exact .poll hrd hmove
  | cycleOk i j health now => exact moves_cycleOk h
  | timeout =>
      simp only [step] at h
      split at h
      · rename_i hstarved
        obtain rfl := Option.some.inj h
        obtain ⟨hthread, hbridge, htimed⟩ := starved_iff.mp hstarved
        exact .timeout hthread hbridge htimed
      · exact absurd h (by simp)
  | checkFlag =>
      simp only [step] at h
      split at h
      · rename_i htimed
        obtain rfl := Option.some.inj h
        split
        · rename_i hflag
          exact .stopThread htimed hflag
        · exact .goOn htimed
      · exact absurd h (by simp)
  | disconnected =>
      simp only [step] at h
      split at h
      · rename_i hall
        obtain rfl := Option.some.inj h
        obtain ⟨hthread, hbridge, htimed⟩ := starved_iff.mp hall.1
        exact .disconnected hthread hbridge htimed hall.2.2
      · exact absurd h (by simp)
  | ctrlC =>
      simp only [step] at h
      split at h
      · rename_i hmain
        obtain rfl := Option.some.inj h
        exact .ctrlC hmain
      · exact absurd h (by simp)
  | stopSignal =>
      simp only [step] at h
      split at h
      · rename_i i hmain
        obtain ⟨rd, rd', hrd, hmove, rfl⟩ := pollerStep_eq_some h
        exact .stopSignal hmain hrd hmove
      · exact absurd h (by simp)
  | stopTake =>
      simp only [step] at h
      split at h
      · rename_i i hmain
        obtain ⟨rd, hrd, h⟩ := Option.bind_eq_some_iff.mp h
        obtain ⟨rd₁, rd', hrd₁, hmove, rfl⟩ := pollerStep_eq_some h
        obtain rfl := Option.some.inj (hrd.symm.trans hrd₁)
        cases hhandle : rd.pollHandle with
        | none => exact .stopNone hmain hrd hmove hhandle
        | some j => exact .stopTake hmain hrd hmove (by rw [hhandle]; rfl)
      · exact absurd h (by simp)
  | stopJoined =>
      simp only [step] at h
      split at h
      · rename_i i hmain
        obtain ⟨rd, rd', hrd, hmove, rfl⟩ := pollerStep_eq_some h
        exact .stopJoined hmain hrd hmove
      · exact absurd h (by simp)
  | shutdown =>
      simp only [step] at h
      split at h
      · rename_i hmain
        obtain rfl := Option.some.inj h
        exact .shutdown hmain
      · exact absurd h (by simp)
  | notice =>
      simp only [step] at h
      split at h
      · rename_i hall
        obtain rfl := Option.some.inj h
        exact .notice hall.1
      · exact absurd h (by simp)
  | runnerEnds =>
      simp only [step] at h
      split at h
      · rename_i hall
        obtain rfl := Option.some.inj h
        exact .runnerEnds hall.1 hall.2
      · exact absurd h (by simp)
  | raiseFlag =>
      simp only [step] at h
      split at h
      · rename_i hall
        obtain rfl := Option.some.inj h
        exact .raiseFlag hall.1 hall.2
      · exact absurd h (by simp)
  | dropSender =>
      simp only [step] at h
      split at h
      · rename_i htask
        obtain rfl := Option.some.inj h
        exact .dropSender htask
      · exact absurd h (by simp)
  | awaited =>
      simp only [step] at h
      split at h
      · rename_i hall
        obtain rfl := Option.some.inj h
        exact .awaited hall.1 hall.2
      · exact absurd h (by simp)
  | threadJoined =>
      simp only [step] at h
      split at h
      · rename_i hmain hthread
        obtain rfl := Option.some.inj h
        exact .threadJoined hmain hthread
      · exact absurd h (by simp)

-- ============================================================================
-- The order of the shutdown
-- ============================================================================

end Service

/-- How many drivers have been stopped, of `n`. -/
def Main.past (n : Nat) : Main → Nat
  | .serving => 0
  | .stopping i | .locking i | .joining i => i
  | .awaiting | .joiningThread | .done => n

/-- The server's task has been waited for. -/
def Main.afterTask : Main → Bool
  | .joiningThread | .done => true
  | _ => false

namespace Service

variable {routing : String → Option Nat} {s s' : Service} {e : ServiceEvent}

/-- Who has ended by when. -/
structure Ordered (s : Service) : Prop where
  tracked : ∀ rd ∈ s.pollers, rd.Tracked
  stopped : ∀ (k : Nat) (rd : RuntimeDriver), k < s.main.past s.pollers.length → s.pollers[k]? = some rd →
    rd.Dead
  flag : s.task.flag = true → s.runnerEnded = true
  thread : s.sys.thread = .stopped → s.task.flag = true
  timedOut : s.timedOut = true → s.sys.thread = .idle
  quiet : s.runnerEnded = true → s.Quiet
  awaited : s.main.afterTask = true → s.task = .finished
  joined : s.main = .done → s.sys.thread = .stopped

/-- A poller moves. -/
theorem tracked_set {i : Nat} {rd rd' : RuntimeDriver} {pe : PollerEvent}
    (h : ∀ rd ∈ s.pollers, rd.Tracked) (hrd : s.pollers[i]? = some rd)
    (hmove : RuntimeDriver.Moves rd pe rd') : ∀ rd₁ ∈ s.pollers.set i rd', rd₁.Tracked := by
  intro rd₁ hrd₁
  rcases List.mem_or_eq_of_mem_set hrd₁ with hold | rfl
  · exact h rd₁ hold
  · exact (h rd (List.mem_of_getElem? hrd)).of_moves hmove

theorem dead_set {i n : Nat} {rd rd' : RuntimeDriver} {pe : PollerEvent}
    (h : ∀ (k : Nat) (rd : RuntimeDriver), k < n → s.pollers[k]? = some rd → rd.Dead)
    (hrd : s.pollers[i]? = some rd) (hmove : RuntimeDriver.Moves rd pe rd') (hstart : ∀ ms, pe ≠ .start ms) :
    ∀ (k : Nat) (rd₁ : RuntimeDriver), k < n → (s.pollers.set i rd')[k]? = some rd₁ → rd₁.Dead := by
  intro k rd₁ hk hrd₁
  rcases getElem?_set_cases hrd hrd₁ with ⟨rfl, rfl⟩ | hold
  · exact (h i rd hk hrd).of_moves hstart hmove
  · exact h k rd₁ hk hold

/-- A `stop` of poller `i` returns. -/
theorem dead_set_succ {i : Nat} {rd rd' : RuntimeDriver} {pe : PollerEvent}
    (h : ∀ (k : Nat) (rd : RuntimeDriver), k < i → s.pollers[k]? = some rd → rd.Dead)
    (htracked : ∀ rd ∈ s.pollers, rd.Tracked) (hrd : s.pollers[i]? = some rd)
    (hmove : RuntimeDriver.Moves rd pe rd') (hreturns : rd.Returns pe) (hstart : ∀ ms, pe ≠ .start ms) :
    ∀ (k : Nat) (rd₁ : RuntimeDriver), k < i + 1 → (s.pollers.set i rd')[k]? = some rd₁ → rd₁.Dead := by
  intro k rd₁ hk hrd₁
  by_cases hki : k < i
  · exact dead_set h hrd hmove hstart k rd₁ hki hrd₁
  · obtain rfl : k = i := by omega
    rw [List.getElem?_set_self (List.getElem?_eq_some_iff.mp hrd).1] at hrd₁
    obtain rfl := Option.some.inj hrd₁
    exact (htracked rd (List.mem_of_getElem? hrd)).dead_of_returns hreturns hmove

theorem ne_stop_of_admits {e : Event} (h : s.admits e = true) : e ≠ .stop := by
  rintro rfl
  exact absurd h (by simp [admits])

theorem ne_receive_of_admits {e : Event} (h : s.admits e = true) (htimed : s.timedOut = true) :
    e ≠ .receive := by
  rintro rfl
  exact absurd h (by simp [admits, htimed])

theorem ne_call_of_admits {e : Event} (h : s.admits e = true) (hended : s.runnerEnded = true) (tagId : String)
    (mode : WriteMode) (value : Option Variant) : e ≠ .call tagId mode value := by
  rintro rfl
  exact absurd h (by simp [admits, hended])

theorem Ordered.bridge (h : Ordered s) {e : Event} {sys : Sys} (hadmits : s.admits e = true)
    (hstep : Bridge.step routing s.sys e = some sys) : Ordered { s with sys := sys } := by
  have hattends := attends_of_step hstep
  have he := ne_stop_of_admits hadmits
  refine ⟨h.tracked, h.stopped, h.flag, ?_, ?_, ?_, h.awaited, ?_⟩
  · intro hstopped
    exact h.thread (thread_of_attends hattends he hstopped)
  · intro htimed
    exact idle_of_attends hattends (h.timedOut htimed) (ne_receive_of_admits hadmits htimed) he
  · intro hended
    exact returned_of_attends hattends (ne_call_of_admits hadmits hended) (h.quiet hended)
  · intro hdone
    exact stopped_of_attends hattends (h.joined hdone)

theorem Ordered.stopThread (h : Ordered s) (hflag : s.task.flag = true) : Ordered s.stopThread :=
  ⟨h.tracked, h.stopped, h.flag, fun _ => hflag, fun hfalse => absurd hfalse (by simp [Service.stopThread]),
    h.quiet, h.awaited, fun _ => rfl⟩

/-- `main` and the pollers move, and nobody else. -/
theorem Ordered.setPoller (h : Ordered s) {i : Nat} {rd rd' : RuntimeDriver} {pe : PollerEvent} {main : Main}
    (hrd : s.pollers[i]? = some rd) (hmove : RuntimeDriver.Moves rd pe rd')
    (hdead : ∀ (k : Nat) (rd₁ : RuntimeDriver), k < main.past s.pollers.length →
      (s.pollers.set i rd')[k]? = some rd₁ → rd₁.Dead) (hmain : main.afterTask = s.main.afterTask)
    (hdone : main = .done → s.main = .done) : Ordered { s with main := main, pollers := s.pollers.set i rd' } :=
  ⟨tracked_set h.tracked hrd hmove, by rw [List.length_set]; exact hdead, h.flag, h.thread, h.timedOut,
    h.quiet, fun hafter => h.awaited (hmain.symm.trans hafter), fun hmain => h.joined (hdone hmain)⟩

theorem Ordered.of_moves (h : Ordered s) (hmove : Moves routing s e s') : Ordered s' := by
  cases hmove with
  | bridge hadmits hstep => exact h.bridge hadmits hstep
  | poll hrd hmove =>
      exact h.setPoller hrd hmove (dead_set h.stopped hrd hmove (by simp)) rfl id
  | check hrd hmove =>
      have hset := h.setPoller hrd hmove (dead_set h.stopped hrd hmove (by simp)) rfl id
      exact ⟨hset.tracked, hset.stopped, hset.flag, hset.thread, hset.timedOut, hset.quiet, hset.awaited,
        hset.joined⟩
  | timeout hthread _ _ =>
      exact ⟨h.tracked, h.stopped, h.flag, h.thread, fun _ => hthread, h.quiet, h.awaited, h.joined⟩
  | goOn _ =>
      exact ⟨h.tracked, h.stopped, h.flag, h.thread, fun hfalse => absurd hfalse (by simp), h.quiet, h.awaited,
        h.joined⟩
  | stopThread _ hflag => exact h.stopThread hflag
  | disconnected _ _ _ htask => exact h.stopThread (by rw [htask]; rfl)
  | ctrlC _ =>
      exact ⟨h.tracked, fun k rd hk => absurd hk (Nat.not_lt_zero k), h.flag, h.thread, h.timedOut, h.quiet,
        fun hafter => absurd hafter (by simp [Main.afterTask]), fun hdone => absurd hdone (by simp)⟩
  | stopSignal hmain hrd hmove =>
      have hdead := h.stopped
      rw [hmain] at hdead
      exact h.setPoller hrd hmove (dead_set hdead hrd hmove (by simp)) (by rw [hmain]; rfl) (by simp)
  | stopTake hmain hrd hmove _ =>
      have hdead := h.stopped
      rw [hmain] at hdead
      exact h.setPoller hrd hmove (dead_set hdead hrd hmove (by simp)) (by rw [hmain]; rfl) (by simp)
  | stopNone hmain hrd hmove hhandle =>
      have hdead := h.stopped
      rw [hmain] at hdead
      exact h.setPoller hrd hmove (dead_set_succ hdead h.tracked hrd hmove (.inr ⟨rfl, hhandle⟩) (by simp))
        (by rw [hmain]; rfl) (by simp)
  | stopJoined hmain hrd hmove =>
      have hdead := h.stopped
      rw [hmain] at hdead
      exact h.setPoller hrd hmove (dead_set_succ hdead h.tracked hrd hmove (.inl rfl) (by simp))
        (by rw [hmain]; rfl) (by simp)
  | shutdown hmain =>
      have hdead := h.stopped
      rw [hmain] at hdead
      exact ⟨h.tracked, hdead, h.flag, h.thread, h.timedOut, h.quiet,
        fun hafter => absurd hafter (by simp [Main.afterTask]), fun hdone => absurd hdone (by simp)⟩
  | notice htask =>
      refine ⟨h.tracked, h.stopped, fun hflag => absurd hflag (by simp [ServerTask.flag]), ?_, h.timedOut,
        h.quiet, ?_, h.joined⟩
      · intro hstopped
        have hflag := h.thread hstopped
        rw [htask] at hflag
        exact absurd hflag (by simp [ServerTask.flag])
      · intro hafter
        exact absurd (htask.symm.trans (h.awaited hafter)) (by simp)
  | runnerEnds _ hquiet =>
      exact ⟨h.tracked, h.stopped, fun _ => rfl, h.thread, h.timedOut, fun _ => hquiet, h.awaited, h.joined⟩
  | raiseFlag htask hended =>
      refine ⟨h.tracked, h.stopped, fun _ => hended, fun _ => rfl, h.timedOut, h.quiet, ?_, h.joined⟩
      intro hafter
      exact absurd (htask.symm.trans (h.awaited hafter)) (by simp)
  | dropSender htask =>
      exact ⟨h.tracked, h.stopped, fun _ => h.flag (by rw [htask]; rfl), fun _ => rfl, h.timedOut, h.quiet,
        fun _ => rfl, h.joined⟩
  | awaited hmain htask =>
      have hdead := h.stopped
      rw [hmain] at hdead
      exact ⟨h.tracked, hdead, h.flag, h.thread, h.timedOut, h.quiet, fun _ => htask,
        fun hdone => absurd hdone (by simp)⟩
  | threadJoined hmain hthread =>
      have hdead := h.stopped
      rw [hmain] at hdead
      exact ⟨h.tracked, hdead, h.flag, h.thread, h.timedOut, h.quiet,
        fun _ => h.awaited (by rw [hmain]; rfl), fun _ => hthread⟩

end Service

end PlcBridge.Bridge
