/-
  PlcBridge.Runtime.Poller

  `RuntimeDriver` (runtime/src/runtime_driver.rs): `start` spawns a task that
  polls a protocol driver, `stop` tells it to end and waits for it.  The task
  pauses after failed cycles; inside a cycle the protocol driver may have to
  connect, and its `connect_with_backoff` pauses after each failed attempt.

  `start` and `stop` may be called by anyone at any time.  Time is the
  scheduler's: a tick, the end of a pause, the fate of a connection attempt and
  the result of a cycle come when they come.
-/
import PlcBridge.Lib.Runs
import PlcBridge.Lib.Transitions
import Mathlib.Algebra.Group.Nat.Defs

namespace PlcBridge.Runtime

open PlcBridge.Lib

-- ============================================================================
-- Connecting
-- ============================================================================

/-- `u64::saturating_mul`. -/
def saturatingMul64 (a b : Nat) : Nat := min (a * b) (2 ^ 64 - 1)

/-- The loop of `connect_with_backoff`: the pauses it has made, in seconds, and
    the one it makes if the attempt fails. -/
structure Connect where
  slept : List Nat
  backoff : Nat

def Connect.new : Connect := ⟨[], 1⟩

/-- After a pause, `max_backoff_secs` being that of the protocol driver. -/
def Connect.again (maxBackoffSecs : UInt64) (k : Connect) : Connect where
  slept := k.slept ++ [k.backoff]
  backoff := min (saturatingMul64 k.backoff 2) maxBackoffSecs.toNat

-- ============================================================================
-- The polling task
-- ============================================================================

/-- How a cycle ends: after a success the driver is asked for its health. -/
inductive CycleResult where
  | ok (health : Except String (Option String))
  | err (e : String)

def CycleResult.isErr : CycleResult → Bool
  | .ok _ => false
  | .err _ => true

/-- A cycle: the pause before it, and the pauses of each time it connected. -/
structure Cycle where
  pause : Nat
  connects : List (List Nat)

inductive Phase where
  /-- The initial jitter. -/
  | jitter
  /-- At the `select!` of the loop. -/
  | waiting
  /-- At the `select!` inside it, sleeping. -/
  | backoff
  | cycle (c : Cycle)
  /-- An attempt to connect is under way. -/
  | connecting (c : Cycle) (k : Connect)
  /-- The pause after a failed one. -/
  | retrying (c : Cycle) (k : Connect)
  | exited
  | panicked

/-- Inside `read_cycle`, and not connecting. -/
def Phase.isCycle : Phase → Bool
  | .cycle _ => true
  | _ => false

structure PollTask where
  /-- The version of the shutdown channel it has seen. -/
  seen : Nat
  phase : Phase
  backoffSecs : Nat
  /-- The cycles it has finished, oldest first. -/
  cycles : List (Cycle × CycleResult)

/-- The bound `RuntimeDriver::new` sets. -/
def maxBackoffSecs : Nat := 30

/-- The pause before the next cycle, by how this one ended. -/
def nextBackoff (backoffSecs : Nat) : CycleResult → Nat
  | .ok _ => 0
  | .err _ => if backoffSecs = 0 then 1 else min (saturatingMul64 backoffSecs 2) maxBackoffSecs

inductive TaskEvent where
  | jitterOver
  | tick
  | backoffOver
  /-- `shutdown_rx.changed()` is ready. -/
  | shutdown
  | connect
  | refused
  | retry
  | connected
  | finish (r : CycleResult)
  | panic

namespace PollTask

/-- `max` is the `max_backoff_secs` of the protocol driver, `version` that of
    the shutdown channel. -/
def step (max : UInt64) (version : Nat) (t : PollTask) (e : TaskEvent) : Option PollTask :=
  match t.phase, e with
  | .jitter, .jitterOver => some { t with phase := .waiting }
  | .waiting, .tick => some { t with phase := if 0 < t.backoffSecs then .backoff else .cycle ⟨0, []⟩ }
  | .backoff, .backoffOver => some { t with phase := .cycle ⟨t.backoffSecs, []⟩ }
  | .waiting, .shutdown | .backoff, .shutdown =>
      if t.seen ≠ version then some { t with seen := version, phase := .exited } else none
  | .cycle c, .connect => some { t with phase := .connecting c .new }
  | .connecting c k, .refused => some { t with phase := .retrying c k }
  | .retrying c k, .retry => some { t with phase := .connecting c (k.again max) }
  | .connecting c k, .connected =>
      some { t with phase := .cycle { c with connects := c.connects ++ [k.slept] } }
  | .cycle c, .finish r =>
      some { t with
        phase := .waiting
        backoffSecs := nextBackoff t.backoffSecs r
        cycles := t.cycles ++ [(c, r)] }
  | .cycle _, .panic => some { t with phase := .panicked }
  | _, _ => none

/-- Neither returned nor panicked. -/
def alive (t : PollTask) : Bool :=
  match t.phase with
  | .exited | .panicked => false
  | _ => true

/-- Inside `connect_with_backoff`. -/
def isConnecting (t : PollTask) : Bool :=
  match t.phase with
  | .connecting .. | .retrying .. => true
  | _ => false

theorem alive_of_isCycle {t : PollTask} (h : t.phase.isCycle = true) : t.alive = true := by
  cases hphase : t.phase with
  | cycle c => rw [alive, hphase]
  | _ =>
      rw [hphase] at h
      exact absurd h (by simp [Phase.isCycle])

/-- The steps of a task, by what they do. -/
inductive Moves (max : UInt64) (version : Nat) (t : PollTask) : TaskEvent → PollTask → Prop
  | jitterOver : t.phase = .jitter → Moves max version t .jitterOver { t with phase := .waiting }
  | pause : t.phase = .waiting → 0 < t.backoffSecs →
      Moves max version t .tick { t with phase := .backoff }
  | poll : t.phase = .waiting → t.backoffSecs = 0 →
      Moves max version t .tick { t with phase := .cycle ⟨t.backoffSecs, []⟩ }
  | backoffOver : t.phase = .backoff →
      Moves max version t .backoffOver { t with phase := .cycle ⟨t.backoffSecs, []⟩ }
  | shutdown : t.phase = .waiting ∨ t.phase = .backoff → t.seen ≠ version →
      Moves max version t .shutdown { t with seen := version, phase := .exited }
  | connect {c} : t.phase = .cycle c → Moves max version t .connect { t with phase := .connecting c .new }
  | refused {c k} : t.phase = .connecting c k →
      Moves max version t .refused { t with phase := .retrying c k }
  | retry {c k} : t.phase = .retrying c k →
      Moves max version t .retry { t with phase := .connecting c (k.again max) }
  | connected {c k} : t.phase = .connecting c k →
      Moves max version t .connected { t with phase := .cycle { c with connects := c.connects ++ [k.slept] } }
  | finish {c} (r : CycleResult) : t.phase = .cycle c →
      Moves max version t (.finish r)
        { t with
          phase := .waiting
          backoffSecs := nextBackoff t.backoffSecs r
          cycles := t.cycles ++ [(c, r)] }
  | panic {c} : t.phase = .cycle c → Moves max version t .panic { t with phase := .panicked }

variable {max : UInt64} {version : Nat} {t t' : PollTask} {e : TaskEvent}

theorem moves_of_step (h : t.step max version e = some t') : Moves max version t e t' := by
  unfold step at h
  split at h
  · rename_i hphase
    obtain rfl := Option.some.inj h
    exact .jitterOver hphase
  · rename_i hphase
    obtain rfl := Option.some.inj h
    split
    · rename_i hpause
      exact .pause hphase hpause
    · rename_i hpause
      have hzero : t.backoffSecs = 0 := by omega
      rw [← hzero]
      exact .poll hphase hzero
  · rename_i hphase
    obtain rfl := Option.some.inj h
    exact .backoffOver hphase
  · rename_i hphase
    split at h
    · rename_i hseen
      obtain rfl := Option.some.inj h
      exact .shutdown (.inl hphase) hseen
    · exact absurd h (by simp)
  · rename_i hphase
    split at h
    · rename_i hseen
      obtain rfl := Option.some.inj h
      exact .shutdown (.inr hphase) hseen
    · exact absurd h (by simp)
  · rename_i c hphase
    obtain rfl := Option.some.inj h
    exact .connect hphase
  · rename_i c k hphase
    obtain rfl := Option.some.inj h
    exact .refused hphase
  · rename_i c k hphase
    obtain rfl := Option.some.inj h
    exact .retry hphase
  · rename_i c k hphase
    obtain rfl := Option.some.inj h
    exact .connected hphase
  · rename_i c r hphase
    obtain rfl := Option.some.inj h
    exact .finish r hphase
  · rename_i c hphase
    obtain rfl := Option.some.inj h
    exact .panic hphase
  · exact absurd h (by simp)

/-- A task that has ended takes no step. -/
theorem Moves.alive (h : Moves max version t e t') : t.alive = true := by
  cases h with
  | shutdown hphase _ => rcases hphase with hphase | hphase <;> simp [PollTask.alive, hphase]
  | _ => simp_all [PollTask.alive]

end PollTask

-- ============================================================================
-- Starting and stopping
-- ============================================================================

structure RuntimeDriver where
  name : String
  /-- In milliseconds. -/
  pollInterval : Nat
  /-- `max_backoff_secs` of the protocol driver. -/
  connectMax : UInt64
  /-- How often the shutdown channel has been written. -/
  version : Nat
  /-- Every task spawned so far. -/
  tasks : List PollTask
  pollHandle : Option Nat
  /-- The task a `stop` waits for, holding the lock of `poll_handle`. -/
  joining : Option Nat
  /-- Calls of `stop` that have sent the signal and wait for the lock. -/
  stopping : Nat

inductive PollerEvent where
  | start (initialJitterMs : Nat)
  /-- `shutdown_tx.send(true)`, the beginning of a `stop`. -/
  | signal
  /-- A `stop` gets the lock and takes the handle; it returns if there is none. -/
  | take
  /-- A `stop` returns. -/
  | joined
  | task (i : Nat) (e : TaskEvent)

namespace RuntimeDriver

def new (name : String) (pollInterval : Nat) (connectMax : UInt64) : RuntimeDriver where
  name := name
  pollInterval := pollInterval
  connectMax := connectMax
  version := 0
  tasks := []
  pollHandle := none
  joining := none
  stopping := 0

/-- A new task: its receiver is a clone of one that has never looked, and an
    interval of zero is a panic. -/
def spawned (rd : RuntimeDriver) (initialJitterMs : Nat) : PollTask where
  seen := 0
  phase := if rd.pollInterval = 0 then .panicked else if 0 < initialJitterMs then .jitter else .waiting
  backoffSecs := 0
  cycles := []

def step (rd : RuntimeDriver) : PollerEvent → Option RuntimeDriver
  | .start ms =>
      match rd.joining, rd.pollHandle with
      | some _, _ => none
      | none, some _ => some rd
      | none, none =>
          if ms < rd.pollInterval ∨ ms = 0 ∧ rd.pollInterval = 0 then
            some { rd with tasks := rd.tasks ++ [rd.spawned ms], pollHandle := some rd.tasks.length }
          else none
  | .signal => some { rd with version := rd.version + 1, stopping := rd.stopping + 1 }
  | .take =>
      match rd.joining, rd.stopping with
      | none, n + 1 => some { rd with pollHandle := none, joining := rd.pollHandle, stopping := n }
      | _, _ => none
  | .joined =>
      match rd.joining with
      | some i =>
          if (rd.tasks[i]?).all (!·.alive) then some { rd with joining := none } else none
      | none => none
  | .task i e =>
      match rd.tasks[i]? with
      | some t => (t.step rd.connectMax rd.version e).map fun t' => { rd with tasks := rd.tasks.set i t' }
      | none => none

/-- PollTask `i` has not ended. -/
def Alive (rd : RuntimeDriver) (i : Nat) : Prop := ∃ t, rd.tasks[i]? = some t ∧ t.alive = true

/-- Every task has ended. -/
def Dead (rd : RuntimeDriver) : Prop := ∀ i, ¬ rd.Alive i

/-- The steps, by what they do. -/
inductive Moves (rd : RuntimeDriver) : PollerEvent → RuntimeDriver → Prop
  | running {ms} : rd.pollHandle.isSome → Moves rd (.start ms) rd
  | start {ms} : rd.joining = none → rd.pollHandle = none →
      Moves rd (.start ms)
        { rd with tasks := rd.tasks ++ [rd.spawned ms], pollHandle := some rd.tasks.length }
  | signal : Moves rd .signal { rd with version := rd.version + 1, stopping := rd.stopping + 1 }
  | take {n} : rd.joining = none → rd.stopping = n + 1 →
      Moves rd .take { rd with pollHandle := none, joining := rd.pollHandle, stopping := n }
  | joined {i} : rd.joining = some i → ¬ rd.Alive i → Moves rd .joined { rd with joining := none }
  | task {i t t' e} : rd.tasks[i]? = some t → PollTask.Moves rd.connectMax rd.version t e t' →
      Moves rd (.task i e) { rd with tasks := rd.tasks.set i t' }

variable {rd rd' : RuntimeDriver} {e : PollerEvent}

theorem moves_of_step (h : rd.step e = some rd') : Moves rd e rd' := by
  cases e with
  | start ms =>
      simp only [step] at h
      split at h
      · exact absurd h (by simp)
      · rename_i i hjoining hhandle
        obtain rfl := Option.some.inj h
        exact .running (by rw [hhandle]; rfl)
      · rename_i hjoining hhandle
        split at h
        · obtain rfl := Option.some.inj h
          exact .start hjoining hhandle
        · exact absurd h (by simp)
  | signal =>
      obtain rfl := Option.some.inj h
      exact .signal
  | take =>
      simp only [step] at h
      split at h
      · rename_i n hjoining hstopping
        obtain rfl := Option.some.inj h
        exact .take hjoining hstopping
      · exact absurd h (by simp)
  | joined =>
      simp only [step] at h
      split at h
      · rename_i i hjoining
        split at h
        · rename_i hended
          obtain rfl := Option.some.inj h
          refine .joined hjoining ?_
          rintro ⟨t, ht, halive⟩
          rw [ht, Option.all_some, halive] at hended
          exact absurd hended (by decide)
        · exact absurd h (by simp)
      · exact absurd h (by simp)
  | task i e =>
      simp only [step] at h
      split at h
      · rename_i t ht
        obtain ⟨t', ht', rfl⟩ := Option.map_eq_some_iff.mp h
        exact .task ht (PollTask.moves_of_step ht')
      · exact absurd h (by simp)

-- ============================================================================
-- One poller
-- ============================================================================

/-- Whoever lives can be stopped: its handle is in the slot or with the `stop`
    that waits for it, and it will notice the signal. -/
structure Tracked (rd : RuntimeDriver) : Prop where
  handle : rd.joining.isSome → rd.pollHandle = none
  owner : ∀ i, rd.Alive i → rd.pollHandle = some i ∨ rd.joining = some i
  seen : ∀ (i : Nat) (t : PollTask), rd.tasks[i]? = some t → t.alive = true → t.seen = 0

theorem alive_congr {i : Nat} (h : rd'.tasks = rd.tasks) : rd'.Alive i ↔ rd.Alive i := by
  rw [Alive, Alive, h]

theorem alive_concat {t : PollTask} {i : Nat} {handle : Option Nat}
    (h : Alive { rd with tasks := rd.tasks ++ [t], pollHandle := handle } i) :
    rd.Alive i ∨ i = rd.tasks.length := by
  obtain ⟨t', ht', halive⟩ := h
  rcases getElem?_concat_cases ht' with hold | ⟨hi, -⟩
  · exact .inl ⟨t', hold, halive⟩
  · exact .inr hi

/-- The step of a task wakes nobody. -/
theorem alive_set {i j : Nat} {t t' : PollTask} (ht : rd.tasks[i]? = some t) (halive : t.alive = true)
    (h : Alive { rd with tasks := rd.tasks.set i t' } j) : rd.Alive j := by
  obtain ⟨t₁, ht₁, halive₁⟩ := h
  rcases getElem?_set_cases ht ht₁ with ⟨rfl, -⟩ | hold
  · exact ⟨t, ht, halive⟩
  · exact ⟨t₁, hold, halive₁⟩

theorem tracked_new (name : String) (pollInterval : Nat) (connectMax : UInt64) :
    Tracked (new name pollInterval connectMax) where
  handle := fun _ => rfl
  owner := by
    rintro i ⟨t, ht, -⟩
    exact absurd ht (by simp [new])
  seen := by
    intro i t ht
    exact absurd ht (by simp [new])

theorem seen_of_moves {max : UInt64} {version : Nat} {t t' : PollTask} {e : TaskEvent}
    (h : PollTask.Moves max version t e t') (halive : t'.alive = true) : t'.seen = t.seen := by
  cases h with
  | shutdown _ _ => exact absurd halive (by simp [PollTask.alive])
  | _ => rfl

theorem Tracked.of_moves (h : Tracked rd) (hmove : Moves rd e rd') : Tracked rd' := by
  cases hmove with
  | running _ => exact h
  | @start ms hjoining hhandle =>
      refine ⟨?_, ?_, ?_⟩
      · intro hsome
        rw [hjoining] at hsome
        exact absurd hsome (by simp)
      · intro i halive
        rcases alive_concat halive with hold | rfl
        · rcases h.owner i hold with hi | hi
          · exact absurd (hhandle.symm.trans hi) (by simp)
          · exact absurd (hjoining.symm.trans hi) (by simp)
        · exact .inl rfl
      · intro i t ht halive
        rcases getElem?_concat_cases ht with hold | ⟨-, rfl⟩
        · exact h.seen i t hold halive
        · rfl
  | signal => exact ⟨h.handle, h.owner, h.seen⟩
  | take hjoining _ =>
      refine ⟨fun _ => rfl, ?_, h.seen⟩
      intro i halive
      rcases h.owner i halive with hi | hi
      · exact .inr hi
      · exact absurd (hjoining.symm.trans hi) (by simp)
  | joined hjoining hended =>
      refine ⟨fun hsome => absurd hsome (by simp), ?_, h.seen⟩
      intro i halive
      rcases h.owner i halive with hi | hi
      · exact .inl hi
      · rw [hjoining] at hi
        rw [Option.some.inj hi] at hended
        exact absurd halive hended
  | @task i t t' e ht hmove =>
      refine ⟨h.handle, ?_, ?_⟩
      · intro j halive
        exact h.owner j (alive_set ht hmove.alive halive)
      · intro j t₁ ht₁ halive
        rcases getElem?_set_cases ht ht₁ with ⟨-, rfl⟩ | hold
        · rw [seen_of_moves hmove halive]
          exact h.seen i t ht hmove.alive
        · exact h.seen j t₁ hold halive

theorem Tracked.unique (h : Tracked rd) {i j : Nat} (hi : rd.Alive i) (hj : rd.Alive j) : i = j := by
  rcases h.owner i hi with hi' | hi' <;> rcases h.owner j hj with hj' | hj'
  · exact Option.some.inj (hi'.symm.trans hj')
  · have hnone := h.handle (by rw [hj']; rfl)
    exact absurd (hnone.symm.trans hi') (by simp)
  · have hnone := h.handle (by rw [hi']; rfl)
    exact absurd (hnone.symm.trans hj') (by simp)
  · exact Option.some.inj (hi'.symm.trans hj')

/-- A `stop` ends. -/
def Returns (rd : RuntimeDriver) (e : PollerEvent) : Prop :=
  e = .joined ∨ e = .take ∧ rd.pollHandle = none

/-- It leaves nobody behind. -/
theorem Tracked.dead_of_returns (h : Tracked rd) (hreturns : rd.Returns e) (hmove : Moves rd e rd') :
    rd'.Dead := by
  intro i halive
  rcases hreturns with rfl | ⟨rfl, hhandle⟩
  · cases hmove with
    | @joined j hjoining hended =>
        rcases h.owner i halive with hi | hi
        · have hnone := h.handle (by rw [hjoining]; rfl)
          exact absurd (hnone.symm.trans hi) (by simp)
        · rw [hjoining] at hi
          rw [Option.some.inj hi] at hended
          exact hended halive
  · cases hmove with
    | take hjoining _ =>
        rcases h.owner i halive with hi | hi
        · exact absurd (hhandle.symm.trans hi) (by simp)
        · exact absurd (hjoining.symm.trans hi) (by simp)

/-- Without a `start`, nothing comes to life, and what has ended stays as it
    is. -/
theorem Dead.tasks_of_moves (hended : rd.Dead) (hstart : ∀ ms, e ≠ .start ms) (hmove : Moves rd e rd') :
    rd'.tasks = rd.tasks := by
  cases hmove with
  | running _ => rfl
  | @start ms _ _ => exact absurd rfl (hstart ms)
  | signal => rfl
  | take _ _ => rfl
  | joined _ _ => rfl
  | @task i t t' e ht hmove => exact absurd ⟨t, ht, hmove.alive⟩ (hended i)

theorem Dead.of_moves (hended : rd.Dead) (hstart : ∀ ms, e ≠ .start ms) (hmove : Moves rd e rd') :
    rd'.Dead :=
  fun i halive => hended i ((alive_congr (hended.tasks_of_moves hstart hmove)).mp halive)

/-- Any order of steps. -/
abbrev Runs (rd rd' : RuntimeDriver) : Prop := Reaches step (fun _ _ => True) rd rd'

theorem tracked_of_runs {name : String} {pollInterval : Nat} {connectMax : UInt64}
    (h : Runs (new name pollInterval connectMax) rd) : Tracked rd := by
  refine h.invariant (tracked_new name pollInterval connectMax) ?_
  intro rd₁ e rd₂ h₁ _ hstep
  exact h₁.of_moves (moves_of_step hstep)

/-- Whoever calls `start` and `stop`, and in whatever order: there is never more
    than one poller; when a `stop` returns there is none, and nothing happens
    until the next `start`; and once a `stop` has been called, every poller that
    waits, of whatever `start`, can end. -/
theorem one_poller {name : String} {pollInterval : Nat} {connectMax : UInt64}
    (h : Runs (new name pollInterval connectMax) rd) :
    (∀ i j, rd.Alive i → rd.Alive j → i = j) ∧
    (∀ e rd₁, rd.Returns e → rd.step e = some rd₁ →
      ∀ rd₂, Reaches step (fun _ e => ∀ ms, e ≠ .start ms) rd₁ rd₂ →
        rd₂.tasks = rd₁.tasks ∧ rd₂.Dead) ∧
    (0 < rd.version → ∀ (i : Nat) (t : PollTask), rd.tasks[i]? = some t →
      t.phase = .waiting ∨ t.phase = .backoff →
      ∃ rd', rd.step (.task i .shutdown) = some rd' ∧ ¬ rd'.Alive i) := by
  have htracked := tracked_of_runs h
  refine ⟨fun i j hi hj => htracked.unique hi hj, ?_, ?_⟩
  · intro e rd₁ hreturns hstep rd₂ hlater
    have hended := htracked.dead_of_returns hreturns (moves_of_step hstep)
    refine hlater.invariant (I := fun rd₂ => rd₂.tasks = rd₁.tasks ∧ rd₂.Dead) ⟨rfl, hended⟩ ?_
    intro rd₃ e₃ rd₄ h₃ hstart hstep₃
    have hmove := moves_of_step hstep₃
    exact ⟨(h₃.2.tasks_of_moves hstart hmove).trans h₃.1, h₃.2.of_moves hstart hmove⟩
  · intro hversion i t ht hphase
    have halive : t.alive = true := by
      rcases hphase with hphase | hphase <;> rw [PollTask.alive, hphase]
    have hseen : t.seen ≠ rd.version := by
      rw [htracked.seen i t ht halive]
      omega
    have hstep : t.step rd.connectMax rd.version .shutdown =
        some { t with seen := rd.version, phase := .exited } := by
      rcases hphase with hphase | hphase <;> simp only [PollTask.step, hphase, if_pos hseen]
    refine ⟨{ rd with tasks := rd.tasks.set i { t with seen := rd.version, phase := .exited } }, ?_, ?_⟩
    · simp only [step, ht, hstep, Option.map_some]
    · rintro ⟨t', ht', halive'⟩
      rw [List.getElem?_set_self (List.getElem?_eq_some_iff.mp ht).1] at ht'
      obtain rfl := Option.some.inj ht'
      exact absurd halive' (by simp [PollTask.alive])

/-- Where a list of steps leads. -/
def after (rd : RuntimeDriver) (es : List PollerEvent) : RuntimeDriver :=
  (runEvents step (fun _ _ => True) es rd).getD rd

theorem runs_after {rd : RuntimeDriver} {es : List PollerEvent}
    (h : (runEvents step (fun _ _ => True) es rd).isSome = true) : Runs rd (rd.after es) :=
  Reaches.refl.runEvents es (Option.getD_of_ne_none (Option.isSome_iff_ne_none.mp h) _).symm

def everySecond : RuntimeDriver := new "Modbus" 1000 4

/-- Started, stopped and started again. -/
def restarted : List PollerEvent :=
  [.start 3, .signal, .task 0 .jitterOver, .task 0 .tick, .take, .task 0 (.finish (.ok (.ok none))),
   .task 0 .shutdown, .joined, .start 0]

/-- The second poller can end at once. -/
theorem one_poller_restarted :
    ((everySecond.after restarted).tasks.map PollTask.alive = [false, true]) ∧
    ∃ rd', (everySecond.after restarted).step (.task 1 .shutdown) = some rd' ∧ ¬ rd'.Alive 1 := by
  have hruns : Runs everySecond (everySecond.after restarted) := runs_after (by decide +kernel)
  refine ⟨by decide +kernel, ?_⟩
  exact (one_poller hruns).2.2 (by decide +kernel) 1 (everySecond.spawned 0) rfl (.inl rfl)

-- ============================================================================
-- A device that cannot be reached
-- ============================================================================

/-- A `stop` waits for task `i`, which tries to connect. -/
def StopBlocked (i : Nat) (rd : RuntimeDriver) : Prop :=
  rd.joining = some i ∧ ∃ t, rd.tasks[i]? = some t ∧ t.isConnecting = true

/-- Only a connection gets the task out of there. -/
theorem isConnecting_of_moves {max : UInt64} {version : Nat} {t t' : PollTask} {e : TaskEvent}
    (h : PollTask.Moves max version t e t') (hconnecting : t.isConnecting = true) (hne : e ≠ .connected) :
    t'.isConnecting = true := by
  cases h with
  | refused _ => rfl
  | retry _ => rfl
  | connect _ => rfl
  | connected _ => exact absurd rfl hne
  | shutdown hphase _ =>
      rcases hphase with hphase | hphase <;>
        exact absurd hconnecting (by simp [PollTask.isConnecting, hphase])
  | jitterOver hphase | pause hphase _ | poll hphase _ | backoffOver hphase | finish _ hphase
  | panic hphase => exact absurd hconnecting (by simp [PollTask.isConnecting, hphase])

theorem alive_of_isConnecting {t : PollTask} (h : t.isConnecting = true) : t.alive = true := by
  cases hphase : t.phase <;> simp_all [PollTask.isConnecting, PollTask.alive]

theorem StopBlocked.of_moves {i : Nat} (h : StopBlocked i rd) (hne : e ≠ .task i .connected)
    (hmove : Moves rd e rd') : StopBlocked i rd' := by
  obtain ⟨hjoining, t, ht, hconnecting⟩ := h
  cases hmove with
  | running _ => exact ⟨hjoining, t, ht, hconnecting⟩
  | start hfree _ => exact absurd (hfree.symm.trans hjoining) (by simp)
  | signal => exact ⟨hjoining, t, ht, hconnecting⟩
  | take hfree _ => exact absurd (hfree.symm.trans hjoining) (by simp)
  | joined hjoining' hended =>
      rw [hjoining] at hjoining'
      rw [← Option.some.inj hjoining'] at hended
      exact absurd ⟨t, ht, alive_of_isConnecting hconnecting⟩ hended
  | @task j t₁ t' e ht₁ hmove =>
      refine ⟨hjoining, ?_⟩
      by_cases hij : j = i
      · subst hij
        obtain rfl := Option.some.inj (ht₁.symm.trans ht)
        refine ⟨t', List.getElem?_set_self (List.getElem?_eq_some_iff.mp ht).1, ?_⟩
        exact isConnecting_of_moves hmove hconnecting fun h => hne (h ▸ rfl)
      · exact ⟨t, by rw [List.getElem?_set_ne hij]; exact ht, hconnecting⟩

/-- A `stop` called while the protocol driver tries to connect does not return
    as long as no attempt succeeds, however often `stop` is called; and nobody
    can call `start` or get through another `stop` meanwhile. -/
theorem stop_waits_for_connection {i : Nat} (hblocked : StopBlocked i rd)
    (hrun : Reaches step (fun _ e => e ≠ .task i .connected) rd rd') :
    StopBlocked i rd' ∧ (∀ ms, rd'.step (.start ms) = none) ∧
    ∀ e, rd'.Returns e → rd'.step e = none := by
  have hblocked' : StopBlocked i rd' := by
    refine hrun.invariant hblocked ?_
    intro rd₁ e rd₂ h₁ hne hstep
    exact h₁.of_moves hne (moves_of_step hstep)
  refine ⟨hblocked', ?_, ?_⟩
  · intro ms
    simp only [step, hblocked'.1]
  · intro e hreturns
    by_contra hsome
    obtain ⟨rd'', hstep⟩ := Option.ne_none_iff_exists'.mp hsome
    have hmove := moves_of_step hstep
    rcases hreturns with rfl | ⟨rfl, -⟩
    · obtain ⟨hjoining, -⟩ := hblocked'.of_moves (by simp) hmove
      cases hmove with
      | joined _ _ => exact absurd hjoining (by simp)
    · cases hmove with
      | take hfree _ => exact absurd (hfree.symm.trans hblocked'.1) (by simp)

/-- A `stop` during the first cycle's connect. -/
def stoppedConnecting : List PollerEvent :=
  [.start 0, .task 0 .tick, .task 0 .connect, .task 0 .refused, .signal, .take]

/-- The next attempt fails too, and `stop` is called again. -/
def stillRefused : List PollerEvent := [.task 0 .retry, .signal, .task 0 .refused]

theorem stop_waits_for_connection_refused :
    StopBlocked 0 (everySecond.after (stoppedConnecting ++ stillRefused)) ∧
    (everySecond.after (stoppedConnecting ++ stillRefused)).step .joined = none := by
  have hblocked : StopBlocked 0 (everySecond.after stoppedConnecting) := by
    exact ⟨rfl, _, rfl, rfl⟩
  have hruns : Reaches step (fun _ e => e ≠ .task 0 .connected) (everySecond.after stoppedConnecting)
      (everySecond.after (stoppedConnecting ++ stillRefused)) := by
    exact ((Reaches.refl.next (e := .task 0 .retry) (by simp) rfl).next (e := .signal) (by simp) rfl).next
      (e := .task 0 .refused) (by simp) rfl
  obtain ⟨hstill, -, hreturns⟩ := stop_waits_for_connection hblocked hruns
  exact ⟨hstill, hreturns .joined (.inl rfl)⟩

end RuntimeDriver

-- ============================================================================
-- Pauses
-- ============================================================================

/-- The pause after `k` failed cycles in a row. -/
def pauseAfter : Nat → Nat
  | 0 => 0
  | k + 1 => min (2 ^ k) maxBackoffSecs

/-- The pause after attempt `k` to connect, counted from 0: the first is not
    bounded by `max`. -/
def retryPause (max : UInt64) : Nat → Nat
  | 0 => 1
  | k + 1 => min (2 ^ (k + 1)) max.toNat

/-- How many cycles at the end failed in a row. -/
def failuresAtEnd (results : List CycleResult) : Nat := (results.reverse.takeWhile CycleResult.isErr).length

@[simp] theorem failuresAtEnd_ok (results : List CycleResult) (health : Except String (Option String)) :
    failuresAtEnd (results ++ [.ok health]) = 0 := by
  simp [failuresAtEnd, CycleResult.isErr]

@[simp] theorem failuresAtEnd_err (results : List CycleResult) (e : String) :
    failuresAtEnd (results ++ [.err e]) = failuresAtEnd results + 1 := by
  rw [failuresAtEnd, List.reverse_append, List.reverse_singleton, List.singleton_append,
    List.takeWhile_cons_of_pos rfl, List.length_cons]
  rfl

/-- Doubling follows the powers of two up to the bound. -/
theorem nextBackoff_pauseAfter (k : Nat) (e : String) :
    nextBackoff (pauseAfter k) (.err e) = pauseAfter (k + 1) := by
  cases k with
  | zero => rfl
  | succ k =>
      have hpos : 0 < 2 ^ k := Nat.two_pow_pos k
      have hne : pauseAfter (k + 1) ≠ 0 := by
        simp only [pauseAfter, maxBackoffSecs]
        omega
      have hdouble : 2 ^ (k + 1) = 2 ^ k * 2 := Nat.pow_succ 2 k
      rw [nextBackoff, if_neg hne, saturatingMul64, pauseAfter, pauseAfter, maxBackoffSecs]
      omega

theorem nextBackoff_failuresAtEnd (results : List CycleResult) (r : CycleResult) :
    nextBackoff (pauseAfter (failuresAtEnd results)) r = pauseAfter (failuresAtEnd (results ++ [r])) := by
  cases r with
  | ok health =>
      rw [failuresAtEnd_ok]
      rfl
  | err e => rw [failuresAtEnd_err, nextBackoff_pauseAfter]

theorem again_backoff (max : UInt64) {k : Connect} {n : Nat} (h : k.backoff = retryPause max n) :
    (k.again max).backoff = retryPause max (n + 1) := by
  have hmax := max.toNat_lt
  simp only [Connect.again, h, saturatingMul64]
  cases n with
  | zero =>
      simp only [retryPause]
      omega
  | succ n =>
      have hdouble : 2 ^ (n + 1 + 1) = 2 ^ (n + 1) * 2 := Nat.pow_succ 2 (n + 1)
      rw [retryPause, retryPause]
      omega

/-- The pauses of a connection. -/
def IsRetryRun (max : UInt64) (slept : List Nat) : Prop :=
  slept = (List.range slept.length).map (retryPause max)

structure Connect.Paced (max : UInt64) (k : Connect) : Prop where
  slept : IsRetryRun max k.slept
  backoff : k.backoff = retryPause max k.slept.length

theorem paced_new (max : UInt64) : Connect.new.Paced max := ⟨rfl, rfl⟩

theorem Connect.Paced.again {max : UInt64} {k : Connect} (h : k.Paced max) : (k.again max).Paced max := by
  have hlength : (k.again max).slept.length = k.slept.length + 1 := List.length_append
  refine ⟨?_, ?_⟩
  · rw [IsRetryRun, hlength, List.range_succ, List.map_append, ← h.slept, List.map_singleton,
      ← h.backoff]
    rfl
  · rw [hlength]
    exact again_backoff max h.backoff

structure Cycle.Paced (max : UInt64) (pause : Nat) (c : Cycle) : Prop where
  pause : c.pause = pause
  connects : ∀ slept ∈ c.connects, IsRetryRun max slept

namespace PollTask

/-- The pauses of a phase. -/
def PhasePaced (max : UInt64) (pause : Nat) : Phase → Prop
  | .cycle c => c.Paced max pause
  | .connecting c k | .retrying c k => c.Paced max pause ∧ k.Paced max
  | _ => True

/-- Every pause is the one that the failures before it call for. -/
structure Paced (max : UInt64) (t : PollTask) : Prop where
  backoff : t.backoffSecs = pauseAfter (failuresAtEnd (t.cycles.map Prod.snd))
  phase : PhasePaced max t.backoffSecs t.phase
  cycles : ∀ (i : Nat) (c : Cycle) (r : CycleResult), t.cycles[i]? = some (c, r) →
    c.Paced max (pauseAfter (failuresAtEnd ((t.cycles.take i).map Prod.snd)))

variable {max : UInt64} {version : Nat} {t t' : PollTask} {e : TaskEvent}

theorem Paced.cycle (h : t.Paced max) {c : Cycle} (hphase : t.phase = .cycle c) :
    c.Paced max t.backoffSecs := by
  have hpaced := h.phase
  rw [hphase] at hpaced
  exact hpaced

theorem Paced.connecting (h : t.Paced max) {c : Cycle} {k : Connect}
    (hphase : t.phase = .connecting c k ∨ t.phase = .retrying c k) :
    c.Paced max t.backoffSecs ∧ k.Paced max := by
  have hpaced := h.phase
  rcases hphase with hphase | hphase <;> rw [hphase] at hpaced <;> exact hpaced

/-- A finished cycle joins the others. -/
theorem Paced.finish (h : t.Paced max) {c : Cycle} (hphase : t.phase = .cycle c) (r : CycleResult) :
    Paced max
      { t with
        phase := .waiting
        backoffSecs := nextBackoff t.backoffSecs r
        cycles := t.cycles ++ [(c, r)] } := by
  refine ⟨?_, trivial, ?_⟩
  · rw [h.backoff, List.map_append]
    exact nextBackoff_failuresAtEnd _ r
  · intro i c' r' hi
    rcases getElem?_concat_cases hi with hold | ⟨rfl, hnew⟩
    · rw [List.take_append_of_le_length (List.getElem?_eq_some_iff.mp hold).1.le]
      exact h.cycles i c' r' hold
    · obtain ⟨rfl, rfl⟩ := Prod.mk.inj hnew
      rw [List.take_left, ← h.backoff]
      exact h.cycle hphase

theorem Paced.of_moves (h : t.Paced max) (hmove : Moves max version t e t') : t'.Paced max := by
  cases hmove with
  | jitterOver _ => exact ⟨h.backoff, trivial, h.cycles⟩
  | pause _ _ => exact ⟨h.backoff, trivial, h.cycles⟩
  | poll _ _ => exact ⟨h.backoff, ⟨rfl, by simp⟩, h.cycles⟩
  | backoffOver _ => exact ⟨h.backoff, ⟨rfl, by simp⟩, h.cycles⟩
  | shutdown _ _ => exact ⟨h.backoff, trivial, h.cycles⟩
  | connect hphase => exact ⟨h.backoff, ⟨h.cycle hphase, paced_new max⟩, h.cycles⟩
  | refused hphase => exact ⟨h.backoff, h.connecting (.inl hphase), h.cycles⟩
  | retry hphase =>
      obtain ⟨hcycle, hconnect⟩ := h.connecting (.inr hphase)
      exact ⟨h.backoff, ⟨hcycle, hconnect.again⟩, h.cycles⟩
  | connected hphase =>
      obtain ⟨hcycle, hconnect⟩ := h.connecting (.inl hphase)
      refine ⟨h.backoff, ⟨hcycle.pause, ?_⟩, h.cycles⟩
      intro slept hslept
      rcases List.mem_append.mp hslept with hold | hnew
      · exact hcycle.connects slept hold
      · rw [List.mem_singleton.mp hnew]
        exact hconnect.slept
  | finish r hphase => exact h.finish hphase r
  | panic _ => exact ⟨h.backoff, trivial, h.cycles⟩

end PollTask

namespace RuntimeDriver

variable {rd rd' : RuntimeDriver} {e : PollerEvent}

theorem connectMax_of_moves (h : Moves rd e rd') : rd'.connectMax = rd.connectMax := by
  cases h <;> rfl

theorem paced_spawned (rd : RuntimeDriver) (ms : Nat) (max : UInt64) : (rd.spawned ms).Paced max := by
  refine ⟨rfl, ?_, ?_⟩
  · simp only [spawned]
    split
    · trivial
    · split <;> trivial
  · intro i c r hi
    exact absurd hi (by simp [spawned])

theorem paced_of_moves {max : UInt64} (hmax : rd.connectMax = max) (h : ∀ t ∈ rd.tasks, t.Paced max)
    (hmove : Moves rd e rd') : ∀ t ∈ rd'.tasks, t.Paced max := by
  cases hmove with
  | running _ => exact h
  | @start ms _ _ =>
      intro t ht
      rcases List.mem_append.mp ht with hold | hnew
      · exact h t hold
      · rw [List.mem_singleton.mp hnew]
        exact paced_spawned rd ms max
  | signal => exact h
  | take _ _ => exact h
  | joined _ _ => exact h
  | @task i t t' e ht hmove =>
      rw [hmax] at hmove
      intro t₁ ht₁
      rcases List.mem_or_eq_of_mem_set ht₁ with hold | rfl
      · exact h t₁ hold
      · exact (h t (List.mem_of_getElem? ht)).of_moves hmove

/-- In every run, before every cycle of every poller, whenever it was started:
    no pause after a success, `2 ^ (k - 1)` seconds and at most 30 after `k`
    failures in a row; and each connection inside a cycle pauses 1, 2, 4, ...
    seconds, of which all but the first are at most `max_backoff_secs`. -/
theorem pauses_follow_failures {name : String} {pollInterval : Nat} {connectMax : UInt64}
    (h : Runs (new name pollInterval connectMax) rd) {t : PollTask} (ht : t ∈ rd.tasks) {i : Nat}
    {c : Cycle} {r : CycleResult} (hi : t.cycles[i]? = some (c, r)) :
    c.pause = pauseAfter (failuresAtEnd ((t.cycles.take i).map Prod.snd)) ∧
    ∀ slept ∈ c.connects, slept = (List.range slept.length).map (retryPause connectMax) := by
  have hpaced : rd.connectMax = connectMax ∧ ∀ t ∈ rd.tasks, t.Paced connectMax := by
    refine h.invariant (I := fun rd => rd.connectMax = connectMax ∧ ∀ t ∈ rd.tasks, t.Paced connectMax)
      ⟨rfl, by simp [new]⟩ ?_
    intro rd₁ e rd₂ h₁ _ hstep
    have hmove := moves_of_step hstep
    exact ⟨(connectMax_of_moves hmove).trans h₁.1, paced_of_moves h₁.1 h₁.2 hmove⟩
  obtain ⟨hpause, hconnects⟩ := (hpaced.2 t ht).cycles i c r hi
  exact ⟨hpause, hconnects⟩

/-- Two failed cycles, and one that connects at the third attempt. -/
def failing : List PollerEvent :=
  [.start 0, .task 0 .tick, .task 0 (.finish (.err "timed out")),
   .task 0 .tick, .task 0 .backoffOver, .task 0 (.finish (.err "timed out")),
   .task 0 .tick, .task 0 .backoffOver, .task 0 .connect, .task 0 .refused, .task 0 .retry, .task 0 .refused,
   .task 0 .retry, .task 0 .connected, .task 0 (.finish (.ok (.ok none)))]

theorem pauses_follow_failures_twice :
    ∃ t ∈ (everySecond.after failing).tasks, t.cycles.map (fun c => c.1.pause) = [0, 1, 2] ∧
      ∀ c r, t.cycles[2]? = some (c, r) →
        c.pause = pauseAfter 2 ∧
        ∀ slept ∈ c.connects, slept = (List.range slept.length).map (retryPause 4) := by
  have hruns : Runs everySecond (everySecond.after failing) := runs_after (by decide +kernel)
  refine ⟨_, List.mem_singleton_self _, by decide +kernel, ?_⟩
  intro c r hi
  exact pauses_follow_failures hruns (List.mem_singleton_self _) hi

end RuntimeDriver

end PlcBridge.Runtime
