/-
  PlcBridge.Runtime.Health

  The health events of the service (runtime_driver.rs, `send_health_event` of
  the drivers, and the health task of main.rs).  Pollers and drivers put events
  into one bounded channel without waiting; when it is full the event is dropped.
  The health task keeps the last event of each PLC it knows.

  The state also records what was offered to the channel and what was received
  from it.
-/
import PlcBridge.Runtime.Poller
import Mathlib.Data.List.AList

namespace PlcBridge.Runtime

open PlcBridge.Lib

-- ============================================================================
-- Events
-- ============================================================================

structure HealthEvent where
  plc : String
  status : String
  message : String
  /-- As JSON text. -/
  data : Option String
deriving DecidableEq

/-- What a poller sends after a cycle. -/
def pollerEvent (name : String) : CycleResult → Option HealthEvent
  | .ok (.ok (some h)) => some ⟨name, "ok", "ok", some h⟩
  | .ok _ => none
  | .err e => some ⟨name, "error", e, none⟩

/-- What drivers report on their own. -/
inductive Report where
  | connectFailed (detail : String)
  | readError (detail : String)
  | writeError (detail : String)

def Report.status : Report → String
  | .connectFailed _ => "connect_failed"
  | .readError _ => "read_error"
  | .writeError _ => "write_error"

def Report.detail : Report → Option String
  | .connectFailed d | .readError d | .writeError d => some d

/-- `send_health_event`. -/
def sendHealthEvent (name status : String) (detail : Option String) : HealthEvent :=
  ⟨name, status, detail.getD status, none⟩

def Report.event (name : String) (r : Report) : HealthEvent := sendHealthEvent name r.status r.detail

-- ============================================================================
-- The channel and the health task
-- ============================================================================

structure Monitor where
  pollers : List RuntimeDriver
  /-- The names in the configuration. -/
  knownPlcs : List String
  capacity : Nat
  buffer : List HealthEvent
  healthDash : AList fun _ : String => HealthEvent
  offered : List HealthEvent
  delivered : List HealthEvent
  /-- How many were dropped. -/
  dropped : Nat

inductive MonitorEvent where
  | poller (i : Nat) (e : PollerEvent)
  /-- A driver reports, in a cycle of its poller. -/
  | report (i : Nat) (r : Report)
  /-- The health task receives. -/
  | deliver

namespace Monitor

/-- `mpsc::channel` panics if the capacity is zero. -/
def new (pollers : List RuntimeDriver) (knownPlcs : List String) (capacity : Nat) : Option Monitor :=
  if capacity = 0 then none else some ⟨pollers, knownPlcs, capacity, [], ∅, [], [], 0⟩

/-- `try_send`. -/
def trySend (m : Monitor) (h : HealthEvent) : Monitor :=
  if m.buffer.length < m.capacity then
    { m with buffer := m.buffer ++ [h], offered := m.offered ++ [h] }
  else { m with offered := m.offered ++ [h], dropped := m.dropped + 1 }

def trySendAll (m : Monitor) (hs : List HealthEvent) : Monitor := hs.foldl trySend m

/-- The health task takes an event. -/
def receive (m : Monitor) (h : HealthEvent) (rest : List HealthEvent) : Monitor :=
  { m with
    buffer := rest
    delivered := m.delivered ++ [h]
    healthDash := if h.plc ∈ m.knownPlcs then m.healthDash.insert h.plc h else m.healthDash }

/-- What a step of a poller sends. -/
def emitted (name : String) : PollerEvent → List HealthEvent
  | .task _ (.finish r) => (pollerEvent name r).toList
  | _ => []

def step (m : Monitor) : MonitorEvent → Option Monitor
  | .poller i e =>
      (m.pollers[i]?).bind fun rd =>
        (rd.step e).map fun rd' =>
          { m with pollers := m.pollers.set i rd' }.trySendAll (emitted rd.name e)
  | .report i r =>
      (m.pollers[i]?).bind fun rd =>
        if rd.tasks.any (fun t => t.phase.isCycle) then some (m.trySend (r.event rd.name)) else none
  | .deliver =>
      match m.buffer with
      | [] => none
      | h :: rest => some (m.receive h rest)

-- ============================================================================
-- What the map holds
-- ============================================================================

/-- The last event of a PLC. -/
def lastOf (plc : String) (hs : List HealthEvent) : Option HealthEvent :=
  (hs.filter fun h => h.plc = plc).getLast?

theorem lastOf_concat (plc : String) (hs : List HealthEvent) (h : HealthEvent) :
    lastOf plc (hs ++ [h]) = if h.plc = plc then some h else lastOf plc hs := by
  rw [lastOf, List.filter_append]
  split
  · rename_i hplc
    simp [hplc]
  · rename_i hplc
    simp [hplc, lastOf]

/-- What the health task knows of a PLC. -/
def lastKnown (knownPlcs : List String) (hs : List HealthEvent) (plc : String) : Option HealthEvent :=
  if plc ∈ knownPlcs then lastOf plc hs else none

theorem lastKnown_concat (knownPlcs : List String) (hs : List HealthEvent) (h : HealthEvent) (plc : String) :
    lastKnown knownPlcs (hs ++ [h]) plc =
      if h.plc = plc ∧ plc ∈ knownPlcs then some h else lastKnown knownPlcs hs plc := by
  rw [lastKnown, lastKnown, lastOf_concat]
  by_cases hplc : h.plc = plc <;> by_cases hknown : plc ∈ knownPlcs <;> simp [hplc, hknown]

/-- The channel is bounded and keeps the order, and the map follows what comes
    out of it. -/
structure Faithful (m : Monitor) : Prop where
  bounded : m.buffer.length ≤ m.capacity
  kept : (m.delivered ++ m.buffer).Sublist m.offered
  lossless : m.dropped = 0 → m.delivered ++ m.buffer = m.offered
  dash : ∀ plc, m.healthDash.lookup plc = lastKnown m.knownPlcs m.delivered plc

variable {m m' : Monitor} {h : HealthEvent}

theorem Faithful.trySend (hm : Faithful m) (h : HealthEvent) : Faithful (m.trySend h) := by
  unfold Monitor.trySend
  split
  · rename_i hroom
    refine ⟨?_, ?_, ?_, hm.dash⟩
    · rw [List.length_append]
      exact hroom
    · rw [← List.append_assoc]
      exact hm.kept.append_right [h]
    · intro hnone
      rw [← List.append_assoc, hm.lossless hnone]
  · exact ⟨hm.bounded, hm.kept.trans (List.sublist_append_left _ _),
      fun hzero => absurd hzero (by simp), hm.dash⟩

theorem Faithful.receive {rest : List HealthEvent} (hm : Faithful m) (hbuffer : m.buffer = h :: rest) :
    Faithful (m.receive h rest) := by
  have hsame : (m.delivered ++ [h]) ++ rest = m.delivered ++ m.buffer := by
    rw [hbuffer, List.append_assoc]
    rfl
  refine ⟨?_, ?_, ?_, ?_⟩
  · have hbounded := hm.bounded
    rw [hbuffer, List.length_cons] at hbounded
    exact Nat.le_of_succ_le hbounded
  · exact hsame ▸ hm.kept
  · intro hnone
    exact hsame.trans (hm.lossless hnone)
  · intro plc
    show (if h.plc ∈ m.knownPlcs then m.healthDash.insert h.plc h else m.healthDash).lookup plc =
      lastKnown m.knownPlcs (m.delivered ++ [h]) plc
    rw [lastKnown_concat, ← hm.dash plc]
    by_cases hplc : h.plc = plc
    · subst hplc
      by_cases hknown : h.plc ∈ m.knownPlcs
      · rw [if_pos hknown, if_pos ⟨rfl, hknown⟩, AList.lookup_insert]
      · have hneither : ¬ (h.plc = h.plc ∧ h.plc ∈ m.knownPlcs) := fun hboth => hknown hboth.2
        rw [if_neg hknown, if_neg hneither]
    · have hneither : ¬ (h.plc = plc ∧ plc ∈ m.knownPlcs) := fun hboth => hplc hboth.1
      rw [if_neg hneither]
      split
      · exact AList.lookup_insert_ne fun heq => hplc heq.symm
      · rfl

theorem Faithful.trySendAll (hm : Faithful m) (hs : List HealthEvent) : Faithful (m.trySendAll hs) := by
  induction hs generalizing m with
  | nil => exact hm
  | cons h hs ih => exact ih (hm.trySend h)

/-- All that sending changes besides the buffer. -/
structure Offers (m m' : Monitor) (hs : List HealthEvent) : Prop where
  offered : m'.offered = m.offered ++ hs
  pollers : m'.pollers = m.pollers
  capacity : m'.capacity = m.capacity
  knownPlcs : m'.knownPlcs = m.knownPlcs
  healthDash : m'.healthDash = m.healthDash

theorem offers_trySend (m : Monitor) (h : HealthEvent) : Offers m (m.trySend h) [h] := by
  unfold Monitor.trySend
  split <;> exact ⟨rfl, rfl, rfl, rfl, rfl⟩

theorem offers_trySendAll (m : Monitor) (hs : List HealthEvent) : Offers m (m.trySendAll hs) hs := by
  induction hs generalizing m with
  | nil => exact ⟨(List.append_nil _).symm, rfl, rfl, rfl, rfl⟩
  | cons h hs ih =>
      have hfirst := offers_trySend m h
      have hrest := ih (m.trySend h)
      refine ⟨hrest.offered.trans ?_, hrest.pollers.trans hfirst.pollers, hrest.capacity.trans hfirst.capacity,
        hrest.knownPlcs.trans hfirst.knownPlcs, hrest.healthDash.trans hfirst.healthDash⟩
      rw [hfirst.offered, List.append_assoc]
      rfl

-- ============================================================================
-- Where events come from
-- ============================================================================

/-- A task of the poller has finished the cycle. -/
def HasCycle (rd : RuntimeDriver) (c : Cycle) (r : CycleResult) : Prop :=
  ∃ t ∈ rd.tasks, (c, r) ∈ t.cycles

/-- A cycle of the poller made the event. -/
def FromCycle (rd : RuntimeDriver) (h : HealthEvent) : Prop :=
  ∃ c r, HasCycle rd c r ∧ pollerEvent rd.name r = some h

theorem name_of_moves {rd rd' : RuntimeDriver} {e : PollerEvent} (hmove : RuntimeDriver.Moves rd e rd') :
    rd'.name = rd.name := by
  cases hmove <;> rfl

/-- The cycles of a task grow when one is finished. -/
theorem cycles_of_moves {max : UInt64} {version : Nat} {t t' : PollTask} {e : TaskEvent}
    (hmove : PollTask.Moves max version t e t') :
    (∃ c r, e = .finish r ∧ t'.cycles = t.cycles ++ [(c, r)]) ∨
    (∀ r, e ≠ .finish r) ∧ t'.cycles = t.cycles := by
  cases hmove with
  | finish r _ => exact .inl ⟨_, r, rfl, rfl⟩
  | _ => exact .inr ⟨by simp, rfl⟩

/-- One task is replaced by one with more cycles. -/
theorem hasCycle_set {rd : RuntimeDriver} {i : Nat} {t t' : PollTask} {new : List (Cycle × CycleResult)}
    (ht : rd.tasks[i]? = some t) (hcycles : t'.cycles = t.cycles ++ new) (c : Cycle) (r : CycleResult) :
    HasCycle { rd with tasks := rd.tasks.set i t' } c r ↔ HasCycle rd c r ∨ (c, r) ∈ new := by
  have hmem : t' ∈ rd.tasks.set i t' :=
    List.mem_of_getElem? (List.getElem?_set_self (List.getElem?_eq_some_iff.mp ht).1)
  refine ⟨?_, ?_⟩
  · rintro ⟨t₁, ht₁, hc⟩
    rcases List.mem_or_eq_of_mem_set ht₁ with hold | rfl
    · exact .inl ⟨t₁, hold, hc⟩
    · rw [hcycles] at hc
      rcases List.mem_append.mp hc with hc | hc
      · exact .inl ⟨t, List.mem_of_getElem? ht, hc⟩
      · exact .inr hc
  · rintro (⟨t₁, ht₁, hc⟩ | hc)
    · obtain ⟨k, hk⟩ := List.mem_iff_getElem?.mp ht₁
      by_cases hik : i = k
      · subst hik
        obtain rfl := Option.some.inj (ht.symm.trans hk)
        exact ⟨t', hmem, by rw [hcycles]; exact List.mem_append_left _ hc⟩
      · exact ⟨t₁, List.mem_of_getElem? ((List.getElem?_set_ne hik).trans hk), hc⟩
    · exact ⟨t', hmem, by rw [hcycles]; exact List.mem_append_right _ hc⟩

/-- The events of a poller's cycles are those it has sent. -/
theorem fromCycle_of_moves {rd rd' : RuntimeDriver} {e : PollerEvent} (hmove : RuntimeDriver.Moves rd e rd')
    (h : HealthEvent) : FromCycle rd' h ↔ FromCycle rd h ∨ h ∈ emitted rd.name e := by
  cases hmove with
  | running _ => simp [emitted]
  | @start ms _ _ =>
      have hnone : (rd.spawned ms).cycles = [] := rfl
      simp [FromCycle, HasCycle, emitted, or_and_right, exists_or, hnone]
  | signal => simp [FromCycle, HasCycle, emitted]
  | take _ _ => simp [FromCycle, HasCycle, emitted]
  | joined _ _ => simp [FromCycle, HasCycle, emitted]
  | @task i t t' te ht hmove =>
      rcases cycles_of_moves hmove with ⟨c, r, rfl, hcycles⟩ | ⟨hother, hcycles⟩
      · simp [FromCycle, hasCycle_set ht hcycles, emitted, or_and_right, exists_or]
      · have hnothing : emitted rd.name (.task i te) = [] := by
          unfold emitted
          split
          · rename_i heq
            exact absurd (PollerEvent.task.inj heq).2 (hother _)
          · rfl
        rw [← List.append_nil t.cycles] at hcycles
        simp [FromCycle, hasCycle_set ht hcycles, hnothing]

-- ============================================================================
-- Runs
-- ============================================================================

theorem step_cases {e : MonitorEvent} (h : m.step e = some m') :
    (∃ i pe rd rd', e = .poller i pe ∧ m.pollers[i]? = some rd ∧ RuntimeDriver.Moves rd pe rd' ∧
      m' = { m with pollers := m.pollers.set i rd' }.trySendAll (emitted rd.name pe)) ∨
    (∃ r : Report, ∃ rd ∈ m.pollers, m' = m.trySend (r.event rd.name)) ∨
    ∃ h rest, m.buffer = h :: rest ∧ m' = m.receive h rest := by
  cases e with
  | poller i pe =>
      obtain ⟨rd, hrd, h⟩ := Option.bind_eq_some_iff.mp h
      obtain ⟨rd', hstep, rfl⟩ := Option.map_eq_some_iff.mp h
      exact .inl ⟨i, pe, rd, rd', rfl, hrd, RuntimeDriver.moves_of_step hstep, rfl⟩
  | report i r =>
      obtain ⟨rd, hrd, h⟩ := Option.bind_eq_some_iff.mp h
      split at h
      · obtain rfl := Option.some.inj h
        exact .inr (.inl ⟨r, rd, List.mem_of_getElem? hrd, rfl⟩)
      · exact absurd h (by simp)
  | deliver =>
      simp only [step] at h
      split at h
      · exact absurd h (by simp)
      · rename_i ev rest hbuffer
        obtain rfl := Option.some.inj h
        exact .inr (.inr ⟨ev, rest, hbuffer, rfl⟩)

theorem Faithful.of_step (hm : Faithful m) {e : MonitorEvent} (h : m.step e = some m') : Faithful m' := by
  rcases step_cases h with ⟨i, pe, rd, rd', -, -, -, rfl⟩ | ⟨r, rd, -, rfl⟩ | ⟨ev, rest, hbuffer, rfl⟩
  · have hpoller : Faithful { m with pollers := m.pollers.set i rd' } :=
      ⟨hm.bounded, hm.kept, hm.lossless, hm.dash⟩
    exact hpoller.trySendAll _
  · exact hm.trySend _
  · exact hm.receive hbuffer

/-- What was offered to the channel are the events of all cycles, and reports. -/
structure Traced (m : Monitor) : Prop where
  sources : ∀ h ∈ m.offered, ∃ rd ∈ m.pollers, FromCycle rd h ∨ ∃ r : Report, h = r.event rd.name
  told : ∀ rd ∈ m.pollers, ∀ h, FromCycle rd h → h ∈ m.offered

theorem Traced.poller (hm : Traced m) {i : Nat} {rd rd' : RuntimeDriver} {pe : PollerEvent}
    (hrd : m.pollers[i]? = some rd) (hmove : RuntimeDriver.Moves rd pe rd') :
    Traced ({ m with pollers := m.pollers.set i rd' }.trySendAll (emitted rd.name pe)) := by
  have hoffers := offers_trySendAll { m with pollers := m.pollers.set i rd' } (emitted rd.name pe)
  have hmem : rd' ∈ m.pollers.set i rd' :=
    List.mem_of_getElem? (List.getElem?_set_self (List.getElem?_eq_some_iff.mp hrd).1)
  refine ⟨?_, ?_⟩
  · rw [hoffers.offered, hoffers.pollers]
    intro h hh
    rcases List.mem_append.mp hh with hh | hh
    · obtain ⟨rd₁, hrd₁, hsource⟩ := hm.sources h hh
      obtain ⟨k, hk⟩ := List.mem_iff_getElem?.mp hrd₁
      by_cases hik : i = k
      · subst hik
        obtain rfl := Option.some.inj (hrd.symm.trans hk)
        refine ⟨rd', hmem, ?_⟩
        rw [name_of_moves hmove, fromCycle_of_moves hmove]
        exact hsource.imp_left .inl
      · exact ⟨rd₁, List.mem_of_getElem? ((List.getElem?_set_ne hik).trans hk), hsource⟩
    · exact ⟨rd', hmem, .inl ((fromCycle_of_moves hmove h).mpr (.inr hh))⟩
  · rw [hoffers.offered, hoffers.pollers]
    intro rd₁ hrd₁ h hfrom
    rcases List.mem_or_eq_of_mem_set hrd₁ with hold | rfl
    · exact List.mem_append_left _ (hm.told rd₁ hold h hfrom)
    · rcases (fromCycle_of_moves hmove h).mp hfrom with hfrom | hh
      · exact List.mem_append_left _ (hm.told rd (List.mem_of_getElem? hrd) h hfrom)
      · exact List.mem_append_right _ hh

theorem Traced.of_step (hm : Traced m) {e : MonitorEvent} (h : m.step e = some m') : Traced m' := by
  rcases step_cases h with ⟨i, pe, rd, rd', -, hrd, hmove, rfl⟩ | ⟨r, rd, hrd, rfl⟩ | ⟨ev, rest, -, rfl⟩
  · exact hm.poller hrd hmove
  · have hoffers := offers_trySend m (r.event rd.name)
    refine ⟨?_, ?_⟩
    · rw [hoffers.offered, hoffers.pollers]
      intro h hh
      rcases List.mem_append.mp hh with hh | hh
      · exact hm.sources h hh
      · exact ⟨rd, hrd, .inr ⟨r, List.mem_singleton.mp hh⟩⟩
    · rw [hoffers.offered, hoffers.pollers]
      intro rd₁ hrd₁ h hfrom
      exact List.mem_append_left _ (hm.told rd₁ hrd₁ h hfrom)
  · exact ⟨hm.sources, hm.told⟩

theorem constants_of_step {e : MonitorEvent} (h : m.step e = some m') :
    m'.capacity = m.capacity ∧ m'.knownPlcs = m.knownPlcs := by
  rcases step_cases h with ⟨i, pe, rd, rd', -, -, -, rfl⟩ | ⟨r, rd, -, rfl⟩ | ⟨ev, rest, -, rfl⟩
  · have hoffers := offers_trySendAll { m with pollers := m.pollers.set i rd' } (emitted rd.name pe)
    exact ⟨hoffers.capacity, hoffers.knownPlcs⟩
  · have hoffers := offers_trySend m (r.event rd.name)
    exact ⟨hoffers.capacity, hoffers.knownPlcs⟩
  · exact ⟨rfl, rfl⟩

theorem new_eq_some {pollers : List RuntimeDriver} {knownPlcs : List String} {capacity : Nat}
    {m₀ : Monitor} (h : new pollers knownPlcs capacity = some m₀) :
    m₀ = ⟨pollers, knownPlcs, capacity, [], ∅, [], [], 0⟩ := by
  unfold new at h
  split at h
  · exact absurd h (by simp)
  · exact (Option.some.inj h).symm

theorem faithful_new (pollers : List RuntimeDriver) (knownPlcs : List String) (capacity : Nat) :
    Faithful ⟨pollers, knownPlcs, capacity, [], ∅, [], [], 0⟩ where
  bounded := Nat.zero_le _
  kept := List.Sublist.refl _
  lossless := fun _ => rfl
  dash := by
    intro plc
    simp [lastKnown, lastOf]

/-- However pollers, drivers and the health task interleave: the buffer never
    exceeds its capacity; what has been delivered and what is in the buffer were
    offered in this order, and are everything if nothing was dropped; the map
    holds for each configured PLC the last event delivered for it, and nothing
    else; and what was offered are the events of all finished cycles, and the
    drivers' own reports. -/
theorem health_map_tells {pollers : List RuntimeDriver} {knownPlcs : List String} {capacity : Nat}
    {m₀ : Monitor} (hnew : new pollers knownPlcs capacity = some m₀) (hfresh : ∀ rd ∈ pollers, rd.tasks = [])
    (hrun : Reaches step (fun _ _ => True) m₀ m) :
    m.buffer.length ≤ capacity ∧ (m.delivered ++ m.buffer).Sublist m.offered ∧
    (m.dropped = 0 → m.delivered ++ m.buffer = m.offered) ∧
    (∀ plc, m.healthDash.lookup plc = lastKnown knownPlcs m.delivered plc) ∧
    (∀ rd ∈ m.pollers, ∀ h, FromCycle rd h → h ∈ m.offered) ∧
    ∀ h ∈ m.offered, ∃ rd ∈ m.pollers, FromCycle rd h ∨ ∃ r : Report, h = r.event rd.name := by
  obtain rfl := new_eq_some hnew
  have hall : Faithful m ∧ Traced m ∧ m.capacity = capacity ∧ m.knownPlcs = knownPlcs := by
    refine hrun.invariant
      (I := fun m => Faithful m ∧ Traced m ∧ m.capacity = capacity ∧ m.knownPlcs = knownPlcs)
      ⟨faithful_new pollers knownPlcs capacity, ⟨by simp, ?_⟩, rfl, rfl⟩ ?_
    · rintro rd hrd h ⟨c, r, ⟨t, ht, -⟩, -⟩
      rw [hfresh rd hrd] at ht
      exact absurd ht (by simp)
    · rintro m₁ e m₂ ⟨hfaithful, htraced, hcapacity, hknown⟩ _ hstep
      obtain ⟨hcapacity', hknown'⟩ := constants_of_step hstep
      exact ⟨hfaithful.of_step hstep, htraced.of_step hstep, hcapacity'.trans hcapacity,
        hknown'.trans hknown⟩
  obtain ⟨hfaithful, htraced, rfl, rfl⟩ := hall
  exact ⟨hfaithful.bounded, hfaithful.kept, hfaithful.lossless, hfaithful.dash, htraced.told,
    htraced.sources⟩

/-- One poller, and room for one event. -/
def tightMonitor : Monitor :=
  (new [RuntimeDriver.everySecond] ["Modbus"] 1).getD ⟨[], [], 0, [], ∅, [], [], 0⟩

/-- Two cycles fail before the health task runs. -/
def failedTwice : List MonitorEvent :=
  [.poller 0 (.start 0), .poller 0 (.task 0 .tick), .poller 0 (.task 0 (.finish (.err "timed out"))),
   .poller 0 (.task 0 .tick), .poller 0 (.task 0 .backoffOver),
   .poller 0 (.task 0 (.finish (.err "refused"))), .deliver]

def monitorAfter (es : List MonitorEvent) : Monitor :=
  (runEvents step (fun _ _ => True) es tightMonitor).getD tightMonitor

theorem health_map_tells_tight :
    (monitorAfter failedTwice).dropped = 1 ∧
    (monitorAfter failedTwice).healthDash.lookup "Modbus" = some ⟨"Modbus", "error", "timed out", none⟩ := by
  have hrun : Reaches step (fun _ _ => True) tightMonitor (monitorAfter failedTwice) :=
    Reaches.refl.runEvents failedTwice rfl
  have hfresh : ∀ rd ∈ [RuntimeDriver.everySecond], rd.tasks = [] := by
    intro rd hrd
    rw [List.mem_singleton.mp hrd]
    rfl
  have hnew : new [RuntimeDriver.everySecond] ["Modbus"] 1 = some tightMonitor := rfl
  obtain ⟨-, -, -, hdash, -⟩ := health_map_tells hnew hfresh hrun
  refine ⟨by decide +kernel, ?_⟩
  rw [hdash]
  decide +kernel

-- ============================================================================
-- No recovery is told
-- ============================================================================

/-- The drivers have no snapshot to give: `health` returns `Ok(None)`. -/
def NoSnapshot : MonitorEvent → Prop
  | .poller _ (.task _ (.finish (.ok health))) => health = .ok none
  | _ => True

theorem status_of_emitted {i : Nat} {pe : PollerEvent} (he : NoSnapshot (.poller i pe)) {name : String}
    {h : HealthEvent} (hh : h ∈ emitted name pe) : h.status ≠ "ok" := by
  unfold emitted at hh
  split at hh
  · rename_i j r
    cases r with
    | ok health =>
        obtain rfl : health = .ok none := he
        exact absurd hh (by simp [pollerEvent])
    | err e =>
        rw [pollerEvent, Option.toList_some, List.mem_singleton] at hh
        simp [hh]
  · exact absurd hh (by simp)

theorem status_of_report (name : String) (r : Report) : (r.event name).status ≠ "ok" := by
  cases r <;> simp [Report.event, sendHealthEvent, Report.status]

/-- Nothing else is offered. -/
def OnlyFailures (m : Monitor) : Prop := ∀ h ∈ m.offered, h.status ≠ "ok"

theorem OnlyFailures.of_step (hm : OnlyFailures m) {e : MonitorEvent} (he : NoSnapshot e)
    (h : m.step e = some m') : OnlyFailures m' := by
  rcases step_cases h with ⟨i, pe, rd, rd', rfl, -, -, rfl⟩ | ⟨r, rd, -, rfl⟩ | ⟨ev, rest, -, rfl⟩
  · have hoffers := offers_trySendAll { m with pollers := m.pollers.set i rd' } (emitted rd.name pe)
    rw [OnlyFailures, hoffers.offered]
    intro h hh
    rcases List.mem_append.mp hh with hh | hh
    · exact hm h hh
    · exact status_of_emitted he hh
  · rw [OnlyFailures, (offers_trySend m (r.event rd.name)).offered]
    intro h hh
    rcases List.mem_append.mp hh with hh | hh
    · exact hm h hh
    · rw [List.mem_singleton.mp hh]
      exact status_of_report rd.name r
  · exact hm

/-- Entries are replaced, never removed. -/
theorem isSome_lookup_of_step {plc : String} (hentry : (m.healthDash.lookup plc).isSome) {e : MonitorEvent}
    (h : m.step e = some m') : (m'.healthDash.lookup plc).isSome := by
  rcases step_cases h with ⟨i, pe, rd, rd', -, -, -, rfl⟩ | ⟨r, rd, -, rfl⟩ | ⟨ev, rest, -, rfl⟩
  · rw [(offers_trySendAll { m with pollers := m.pollers.set i rd' } (emitted rd.name pe)).healthDash]
    exact hentry
  · rw [(offers_trySend m (r.event rd.name)).healthDash]
    exact hentry
  · show ((if ev.plc ∈ m.knownPlcs then m.healthDash.insert ev.plc ev else m.healthDash).lookup plc).isSome
    split
    · by_cases hplc : plc = ev.plc
      · rw [hplc, AList.lookup_insert]
        rfl
      · rw [AList.lookup_insert_ne hplc]
        exact hentry
    · exact hentry

theorem mem_of_lastKnown {knownPlcs : List String} {hs : List HealthEvent} {plc : String} {h : HealthEvent}
    (hlast : lastKnown knownPlcs hs plc = some h) : h ∈ hs := by
  unfold lastKnown at hlast
  split at hlast
  · exact (List.mem_filter.mp (List.mem_of_getLast? hlast)).1
  · exact absurd hlast (by simp)

/-- With the drivers there are, the map never tells of a recovery: an entry is a
    failure, and once a PLC has one it has one for good, however many of its
    cycles succeed. -/
theorem health_never_recovers {pollers : List RuntimeDriver} {knownPlcs : List String} {capacity : Nat}
    {m₀ : Monitor} (hnew : new pollers knownPlcs capacity = some m₀)
    (hrun : Reaches step (fun _ e => NoSnapshot e) m₀ m) {plc : String}
    (hentry : m.healthDash.lookup plc = some h)
    (hlater : Reaches step (fun _ e => NoSnapshot e) m m') :
    h.status ≠ "ok" ∧ ∃ h', m'.healthDash.lookup plc = some h' ∧ h'.status ≠ "ok" := by
  obtain rfl := new_eq_some hnew
  have hkeep : ∀ {m₁ m₂ : Monitor}, Faithful m₁ ∧ OnlyFailures m₁ →
      Reaches step (fun _ e => NoSnapshot e) m₁ m₂ → Faithful m₂ ∧ OnlyFailures m₂ := by
    intro m₁ m₂ h₁ hreach
    exact hreach.invariant (I := fun m => Faithful m ∧ OnlyFailures m) h₁
      fun m₃ e m₄ h₃ he hstep => ⟨h₃.1.of_step hstep, h₃.2.of_step he hstep⟩
  have hnow := hkeep ⟨faithful_new pollers knownPlcs capacity, by simp [OnlyFailures]⟩ hrun
  have hfailure : ∀ {m₁ : Monitor} {h₁ : HealthEvent}, Faithful m₁ ∧ OnlyFailures m₁ →
      m₁.healthDash.lookup plc = some h₁ → h₁.status ≠ "ok" := by
    rintro m₁ h₁ ⟨hfaithful, honly⟩ hlookup
    rw [hfaithful.dash] at hlookup
    exact honly h₁ (hfaithful.kept.subset (List.mem_append_left _ (mem_of_lastKnown hlookup)))
  refine ⟨hfailure hnow hentry, ?_⟩
  have hsome : (m'.healthDash.lookup plc).isSome :=
    hlater.invariant (I := fun m => (m.healthDash.lookup plc).isSome) (by rw [hentry]; rfl)
      fun m₃ e m₄ h₃ _ hstep => isSome_lookup_of_step h₃ hstep
  obtain ⟨h', hlookup⟩ := Option.isSome_iff_exists.mp hsome
  exact ⟨h', hlookup, hfailure (hkeep hnow hlater) hlookup⟩

def failedOnce : List MonitorEvent :=
  [.poller 0 (.start 0), .poller 0 (.task 0 .tick), .poller 0 (.task 0 (.finish (.err "timed out"))),
   .deliver]

def recovered : List MonitorEvent :=
  failedOnce ++ [.poller 0 (.task 0 .tick), .poller 0 (.task 0 .backoffOver),
    .poller 0 (.task 0 (.finish (.ok (.ok none))))]

theorem health_never_recovers_tight :
    (monitorAfter recovered).pollers.map (fun rd => rd.tasks.map PollTask.backoffSecs) = [[0]] ∧
    ∃ h, (monitorAfter recovered).healthDash.lookup "Modbus" = some h ∧ h.status ≠ "ok" := by
  have hnew : new [RuntimeDriver.everySecond] ["Modbus"] 1 = some tightMonitor := rfl
  have hrun : Reaches step (fun _ e => NoSnapshot e) tightMonitor (monitorAfter failedOnce) := by
    refine Reaches.next (e := .deliver) (Reaches.next
      (e := .poller 0 (.task 0 (.finish (.err "timed out")))) (Reaches.next (e := .poller 0 (.task 0 .tick))
      (Reaches.next (e := .poller 0 (.start 0)) .refl trivial rfl) trivial rfl) trivial rfl) trivial rfl
  have hlater : Reaches step (fun _ e => NoSnapshot e) (monitorAfter failedOnce)
      (monitorAfter recovered) := by
    refine Reaches.next (e := .poller 0 (.task 0 (.finish (.ok (.ok none))))) (Reaches.next
      (e := .poller 0 (.task 0 .backoffOver)) (Reaches.next (e := .poller 0 (.task 0 .tick)) .refl trivial rfl)
      trivial rfl) rfl rfl
  have hentry : (monitorAfter failedOnce).healthDash.lookup "Modbus" =
      some ⟨"Modbus", "error", "timed out", none⟩ := by
    decide +kernel
  exact ⟨by decide +kernel, (health_never_recovers hnew hrun hentry hlater).2⟩

end Monitor

end PlcBridge.Runtime
