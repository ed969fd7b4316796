/-
  PlcBridge.Bridge.Shutdown

  What holds from Ctrl-C to the end, in every run of the service: a driver that
  has been stopped stays silent while clients go on writing, the bridge thread
  leaves behind only writes that came after its last wait, and when `main` is
  done nothing moves any more.
-/
import PlcBridge.Bridge.Service

namespace PlcBridge.Bridge

open PlcBridge.Lib PlcBridge.Opcua PlcBridge.Runtime

-- ============================================================================
-- The service as a system of writes
-- ============================================================================

/-- The staleness check is a series of registry updates. -/
theorem exists_ops_checkStaleTags (plcName : String) (now : DateTime) (r : TagRegistry) :
    ∃ ops, (checkStaleTags plcName now r).2 = r.run ops := by
  refine runList_rel (R := fun r r' => ∃ ops, r' = TagRegistry.run r ops) (fun r => ⟨[], rfl⟩) ?_ ?_ r
  · rintro r₁ r₂ r₃ ⟨ops, rfl⟩ ⟨ops', rfl⟩
    exact ⟨ops ++ ops', (TagRegistry.run_append r₁ ops ops').symm⟩
  · intro d _ r
    unfold checkStaleTag
    split
    · exact ⟨[], rfl⟩
    · split
      · exact ⟨[], rfl⟩
      · split
        · exact ⟨[], rfl⟩
        · split
          · exact ⟨[], rfl⟩
          · split
            · split
              · exact ⟨[.setQuality d.id .stale now], rfl⟩
              · exact ⟨[], rfl⟩
            · exact ⟨[], rfl⟩

theorem reaches_updates (routing : String → Option Nat) (s : Sys) (ops : List TagRegistry.Op) :
    Reaches (step routing) Sys.Planned s { s with registry := s.registry.run ops } := by
  induction ops generalizing s with
  | nil => exact .refl
  | cons op ops ih =>
      have hfirst : Reaches (step routing) Sys.Planned s { s with registry := (s.registry.call op).2 } :=
        Reaches.refl.next (e := .update op) trivial rfl
      exact hfirst.trans (ih { s with registry := (s.registry.call op).2 })

namespace Service

variable {routing : String → Option Nat} {s s₁ s₂ s' : Service} {e : ServiceEvent}

/-- Drivers only read what they plan to. -/
def Planned (s : Service) : ServiceEvent → Prop
  | .bridge e => s.sys.Planned e
  | _ => True

instance (s : Service) : (e : ServiceEvent) → Decidable (s.Planned e)
  | .bridge e => inferInstanceAs (Decidable (s.sys.Planned e))
  | .poll .. | .cycleOk .. | .timeout | .checkFlag | .disconnected | .ctrlC | .stopSignal | .stopTake
  | .stopJoined | .shutdown | .notice | .runnerEnds | .raiseFlag | .dropSender | .awaited
  | .threadJoined => isTrue trivial

theorem reaches_stopThread (routing : String → Option Nat) (h : s.sys.thread = .idle) :
    Reaches (Bridge.step routing) Sys.Planned s.sys s.stopThread.sys := by
  refine Reaches.refl.next (e := .stop) trivial ?_
  simp only [Bridge.step, h]
  rfl

/-- A step of the service is no step of the writes' system, or some of its. -/
theorem sys_of_moves (hordered : s.Ordered) (hplan : s.Planned e) (hmove : Moves routing s e s') :
    Reaches (Bridge.step routing) Sys.Planned s.sys s'.sys := by
  cases hmove with
  | bridge _ hstep => exact Reaches.refl.next hplan hstep
  | check _ _ =>
      obtain ⟨ops, hops⟩ := exists_ops_checkStaleTags _ _ s.sys.registry
      rw [hops]
      exact reaches_updates routing s.sys ops
  | stopThread htimed _ => exact reaches_stopThread routing (hordered.timedOut htimed)
  | disconnected hthread _ _ _ => exact reaches_stopThread routing hthread
  | _ => exact .refl

/-- The pollers right after `start`. -/
def Launched (rd : RuntimeDriver) : Prop :=
  ∃ name pollInterval connectMax ms, (RuntimeDriver.new name pollInterval connectMax).step (.start ms) = some rd

theorem ordered_init (registry : TagRegistry) (drivers : List Driver) {pollers : List RuntimeDriver}
    (hpollers : ∀ rd ∈ pollers, Launched rd) : Ordered (.init (.init registry drivers) pollers) where
  tracked := by
    intro rd hrd
    obtain ⟨name, pollInterval, connectMax, ms, hstart⟩ := hpollers rd hrd
    exact (RuntimeDriver.tracked_new name pollInterval connectMax).of_moves (RuntimeDriver.moves_of_step hstart)
  stopped := fun k rd hk => absurd hk (Nat.not_lt_zero k)
  flag := fun hflag => absurd hflag (by simp [init, ServerTask.flag])
  thread := fun hthread => absurd hthread (by simp [init, Sys.init])
  timedOut := fun htimed => absurd htimed (by simp [init])
  quiet := fun hended => absurd hended (by simp [init])
  awaited := fun hafter => absurd hafter (by simp [init, Main.afterTask])
  joined := fun hdone => absurd hdone (by simp [init])

/-- The runs of a service. -/
abbrev Runs (routing : String → Option Nat) (s s' : Service) : Prop :=
  Reaches (Service.step routing) Planned s s'

theorem ordered_of_runs {registry : TagRegistry} {drivers : List Driver} {pollers : List RuntimeDriver}
    (hpollers : ∀ rd ∈ pollers, Launched rd)
    (hrun : Runs routing (.init (.init registry drivers) pollers) s) :
    Ordered s ∧ Reaches (Bridge.step routing) Sys.Planned (.init registry drivers) s.sys := by
  refine hrun.invariant
    (I := fun s => Ordered s ∧ Reaches (Bridge.step routing) Sys.Planned (.init registry drivers) s.sys)
    ⟨ordered_init registry drivers hpollers, .refl⟩ ?_
  intro s₁ e s₂ h₁ hplan hstep
  have hmove := moves_of_step hstep
  exact ⟨h₁.1.of_moves hmove, h₁.2.trans (sys_of_moves h₁.1 hplan hmove)⟩

-- ============================================================================
-- The end
-- ============================================================================

theorem Ordered.dead_of_done (h : Ordered s) (hdone : s.main = .done) {i : Nat} {rd : RuntimeDriver}
    (hrd : s.pollers[i]? = some rd) : rd.Dead := by
  refine h.stopped i rd ?_ hrd
  rw [hdone]
  exact (List.getElem?_eq_some_iff.mp hrd).1

/-- No task of a dead poller moves. -/
theorem not_moves_of_dead {rd rd' : RuntimeDriver} (h : rd.Dead) {j : Nat} {te : TaskEvent} :
    ¬ RuntimeDriver.Moves rd (.task j te) rd' := by
  intro hmove
  cases hmove with
  | task ht hmove => exact h j ⟨_, ht, hmove.alive⟩

theorem not_inCycle_of_dead {i : Nat} (h : ∀ rd, s.pollers[i]? = some rd → rd.Dead) : s.inCycle i = false := by
  rw [Bool.eq_false_iff]
  intro hcycle
  rw [inCycle, Option.any_eq_true] at hcycle
  obtain ⟨rd, hrd, hany⟩ := hcycle
  obtain ⟨t, ht, hphase⟩ := List.any_eq_true.mp hany
  obtain ⟨j, hj⟩ := List.mem_iff_getElem?.mp ht
  exact h rd hrd j ⟨t, hj, PollTask.alive_of_isCycle hphase⟩

/-- With the thread, the runner and the pollers gone, no event of the writes is
    left. -/
theorem not_attends_at_end {sys' : Sys} {e : Event} (hordered : s.Ordered) (hdone : s.main = .done)
    (hadmits : s.admits e = true) : Bridge.step routing s.sys e ≠ some sys' := by
  intro hstep
  have hstopped := hordered.joined hdone
  have hended := hordered.flag (hordered.thread hstopped)
  have hquiet := hordered.quiet hended
  have hreturned : ∀ {n : Nat} {c : ClientCall}, s.sys.calls[n]? = some c → c.result ≠ none := by
    intro n c hc hnone
    have hsome := hquiet c (List.mem_of_getElem? hc)
    rw [hnone] at hsome
    exact absurd hsome (by simp)
  cases e with
  | call tagId mode value => exact ne_call_of_admits hadmits hended tagId mode value rfl
  | collect n =>
      simp only [Bridge.step] at hstep
      split at hstep
      · rename_i c hc
        split at hstep
        · rename_i hnone _
          exact hreturned hc hnone
        · rename_i hnone _
          exact hreturned hc hnone
        · exact absurd hstep (by simp)
      · exact absurd hstep (by simp)
  | giveUp n =>
      simp only [Bridge.step] at hstep
      split at hstep
      · rename_i c hc
        split at hstep
        · rename_i hnone
          exact hreturned hc (Option.isNone_iff_eq_none.mp hnone)
        · exact absurd hstep (by simp)
      · exact absurd hstep (by simp)
  | turn i t =>
      have hcycle := not_inCycle_of_dead (s := s) (i := i) fun rd hrd => hordered.dead_of_done hdone hrd
      exact absurd hadmits (by simp [admits, hcycle])
  | stop => exact ne_stop_of_admits hadmits rfl
  | update op => exact absurd hadmits (by simp [admits])
  | receive | enqueue | enqueueTimeout | enqueueClosed | confirm | confirmTimeout | confirmClosed | answer =>
      exact absurd hstep (by simp [Bridge.step, hstopped])

/-- When `main` is done: every poller has ended, the runner and the bridge
    thread too, every call has returned, and nothing can happen any more.  And
    no call ever finds the bridge thread gone. -/
theorem shutdown_complete {registry : TagRegistry} {drivers : List Driver} {pollers : List RuntimeDriver}
    (hpollers : ∀ rd ∈ pollers, Launched rd)
    (hrun : Runs routing (.init (.init registry drivers) pollers) s) :
    (s.main = .done → (∀ rd ∈ s.pollers, rd.Dead) ∧ s.runnerEnded = true ∧ s.sys.thread = .stopped ∧
      s.Quiet ∧ ∀ e, s.step routing e = none) ∧
    ∀ tagId mode value s', s.step routing (.bridge (.call tagId mode value)) = some s' →
      s.sys.thread ≠ .stopped := by
  obtain ⟨hordered, -⟩ := ordered_of_runs hpollers hrun
  refine ⟨?_, ?_⟩
  · intro hdone
    have hstopped := hordered.joined hdone
    have hended := hordered.flag (hordered.thread hstopped)
    have hdead : ∀ rd ∈ s.pollers, rd.Dead := by
      intro rd hrd
      obtain ⟨i, hi⟩ := List.mem_iff_getElem?.mp hrd
      exact hordered.dead_of_done hdone hi
    refine ⟨hdead, hended, hstopped, hordered.quiet hended, ?_⟩
    intro e
    by_contra hsome
    obtain ⟨s', hstep⟩ := Option.ne_none_iff_exists'.mp hsome
    have hfinished := hordered.awaited (by rw [hdone]; rfl)
    cases moves_of_step hstep with
    | bridge hadmits hsys => exact not_attends_at_end hordered hdone hadmits hsys
    | poll hrd hmove => exact not_moves_of_dead (hdead _ (List.mem_of_getElem? hrd)) hmove
    | check hrd hmove => exact not_moves_of_dead (hdead _ (List.mem_of_getElem? hrd)) hmove
    | timeout hidle _ _ => exact absurd (hidle.symm.trans hstopped) (by simp)
    | goOn htimed => exact absurd ((hordered.timedOut htimed).symm.trans hstopped) (by simp)
    | stopThread htimed _ => exact absurd ((hordered.timedOut htimed).symm.trans hstopped) (by simp)
    | disconnected hidle _ _ _ => exact absurd (hidle.symm.trans hstopped) (by simp)
    | notice htask | raiseFlag htask _ | dropSender htask => exact absurd (htask.symm.trans hfinished) (by simp)
    | runnerEnds hrunning _ => exact absurd (hended.symm.trans hrunning) (by simp)
    | ctrlC hmain | stopSignal hmain _ _ | stopTake hmain _ _ _ | stopNone hmain _ _ _ | stopJoined hmain _ _
    | shutdown hmain | awaited hmain _ | threadJoined hmain _ => exact absurd (hmain.symm.trans hdone) (by simp)
  · intro tagId mode value s' hstep hstopped
    have hended := hordered.flag (hordered.thread hstopped)
    cases moves_of_step hstep with
    | bridge hadmits _ => exact ne_call_of_admits hadmits hended tagId mode value rfl

-- The plant of two PLCs, polled every second.

def plantPoller (name : String) : RuntimeDriver := (RuntimeDriver.new name 1000 30).after [.start 0]

def plantService : Service :=
  .init (.init plant.writeHandler.registry plant.drivers) [plantPoller "OmronPLC", plantPoller "ModbusPLC"]

theorem launched_plant : ∀ rd ∈ [plantPoller "OmronPLC", plantPoller "ModbusPLC"], Launched rd := by
  intro rd hrd
  simp only [List.mem_cons, List.not_mem_nil, or_false] at hrd
  rcases hrd with rfl | rfl <;> exact ⟨_, 1000, 30, 0, rfl⟩

def plantAfter (es : List ServiceEvent) : Service :=
  (runEvents (Service.step plant.writeHandler.driverOf) Planned es plantService).getD plantService

theorem runs_plantAfter (es : List ServiceEvent)
    (h : (runEvents (Service.step plant.writeHandler.driverOf) Planned es plantService).isSome = true) :
    Runs plant.writeHandler.driverOf plantService (plantAfter es) :=
  Reaches.refl.runEvents es (Option.getD_of_ne_none (Option.isSome_iff_ne_none.mp h) _).symm

theorem runEvents_plantAfter {es es' : List ServiceEvent}
    (h : (runEvents (Service.step plant.writeHandler.driverOf) Planned (es ++ es') plantService).isSome = true) :
    runEvents (Service.step plant.writeHandler.driverOf) Planned es' (plantAfter es) =
      some (plantAfter (es ++ es')) := by
  rw [runEvents_append_eq] at h
  rw [plantAfter, plantAfter, runEvents_append_eq]
  cases hes : runEvents (Service.step plant.writeHandler.driverOf) Planned es plantService with
  | none =>
      rw [hes] at h
      exact absurd h (by simp)
  | some s =>
      rw [hes, Option.bind_some] at h
      obtain ⟨s', hs'⟩ := Option.isSome_iff_exists.mp h
      simp only [Option.getD_some, Option.bind_some, hs']

theorem step_plantAfter {es : List ServiceEvent} {e : ServiceEvent}
    (h : (runEvents (Service.step plant.writeHandler.driverOf) Planned (es ++ [e]) plantService).isSome = true) :
    (plantAfter es).step plant.writeHandler.driverOf e = some (plantAfter (es ++ [e])) := by
  have hrun := runEvents_plantAfter h
  rw [runEvents] at hrun
  split at hrun
  · obtain ⟨s', hs', hnil⟩ := Option.bind_eq_some_iff.mp hrun
    rw [hs']
    exact hnil
  · exact absurd hrun (by simp)

/-- Both drivers are stopped. -/
def plantStops : List ServiceEvent :=
  [.ctrlC, .stopSignal, .stopTake, .poll 0 0 .shutdown, .stopJoined,
   .stopSignal, .poll 1 0 .shutdown, .stopTake, .stopJoined]

/-- And then the server. -/
def plantShutdown : List ServiceEvent :=
  plantStops ++ [.shutdown, .notice, .runnerEnds, .timeout, .raiseFlag, .dropSender, .awaited, .checkFlag,
    .threadJoined]

theorem shutdown_complete_plant :
    (plantAfter plantShutdown).main = .done ∧
    ∀ e, (plantAfter plantShutdown).step plant.writeHandler.driverOf e = none := by
  have hrun := runs_plantAfter plantShutdown (by decide +kernel)
  have hdone : (plantAfter plantShutdown).main = .done := by decide +kernel
  exact ⟨hdone, ((shutdown_complete launched_plant hrun).1 hdone).2.2.2.2⟩

end Service

-- ============================================================================
-- A stopped driver
-- ============================================================================

/-- Like `d`, with more requests in its channel: nothing else was sent or
    replied. -/
structure OnlyQueued (d d' : Driver) : Prop where
  sent : d'.sent = d.sent
  replies : d'.replies = d.replies
  queue : d.queue <+: d'.queue

theorem OnlyQueued.enqueue {d d' : Driver} (h : OnlyQueued d d') (req : WriteRequest) :
    OnlyQueued d (d'.enqueue req) := by
  have hnext : OnlyQueued d' (d'.enqueue req) := by
    cases d' with
    | modbus env mappings taken state => exact ⟨rfl, rfl, List.prefix_append _ _⟩
    | fins env drv taken state => exact ⟨rfl, rfl, List.prefix_append _ _⟩
  exact ⟨hnext.sent.trans h.sent, hnext.replies.trans h.replies, h.queue.trans hnext.queue⟩

namespace Service

variable {routing : String → Option Nat} {s s₁ s₂ s' : Service} {e : ServiceEvent} {i : Nat}

/-- Since the thread's wait ended in state `s₁`, writes have only come in. -/
structure SinceTimeout (s₁ s : Service) : Prop where
  timedOut : s.timedOut = true
  idle : s.sys.thread = .idle
  received : s.sys.received = s₁.sys.received ++ s.sys.bridge.map BridgeWrite.call

theorem SinceTimeout.of_moves (h : SinceTimeout s₁ s) (he : e ≠ .checkFlag) (hmove : Moves routing s e s') :
    SinceTimeout s₁ s' := by
  cases hmove with
  | bridge hadmits hstep =>
      have hreceive := ne_receive_of_admits hadmits h.timedOut
      have hstop := ne_stop_of_admits hadmits
      have hattends := attends_of_step hstep
      refine ⟨h.timedOut, idle_of_attends hattends h.idle hreceive hstop, ?_⟩
      cases hattends with
      | others _ _ _ hbridge hreceived _ => rw [hreceived, hbridge, h.received]
      | submit _ _ _ hreceived hbridge =>
          rw [hreceived, hbridge, h.received, List.map_append, List.append_assoc]
          rfl
      | receive _ _ _ _ _ _ _ => exact absurd rfl hreceive
      | handle _ hheld _ _ _ _ _ =>
          rw [h.idle] at hheld
          exact absurd hheld (by simp [Thread.held])
      | answer hthread _ _ _ _ => exact absurd (hthread.symm.trans h.idle) (by simp)
      | stop _ _ _ => exact absurd rfl hstop
  | timeout _ _ htimed => exact absurd (h.timedOut.symm.trans htimed) (by simp)
  | goOn _ => exact absurd rfl he
  | stopThread _ _ => exact absurd rfl he
  | disconnected _ _ htimed _ => exact absurd (h.timedOut.symm.trans htimed) (by simp)
  | _ => exact ⟨h.timedOut, h.idle, h.received⟩

/-- As long as the thread runs, what it received is accounted for. -/
theorem accounted_of_runs {registry : TagRegistry} {drivers : List Driver} {pollers : List RuntimeDriver}
    (hrun : Runs routing (.init (.init registry drivers) pollers) s) :
    s.sys.thread ≠ .stopped → Accounted s.sys := by
  refine hrun.invariant (I := fun s => s.sys.thread ≠ .stopped → Accounted s.sys)
    (fun _ => accounted_init registry drivers) ?_
  intro s₁ e s₂ h₁ _ hstep hrunning
  cases moves_of_step hstep with
  | bridge hadmits hsys =>
      have hattends := attends_of_step hsys
      have hbefore : s₁.sys.thread ≠ .stopped := fun hstopped => hrunning (stopped_of_attends hattends hstopped)
      exact (h₁ hbefore).of_attends hattends (ne_stop_of_admits hadmits)
  | check _ _ => exact (h₁ hrunning).of_pending rfl rfl (.of_eq rfl)
  | stopThread _ _ => exact absurd rfl hrunning
  | disconnected _ _ _ _ => exact absurd rfl hrunning
  | _ => exact h₁ hrunning

/-- A confirmed write has left the channel. -/
theorem not_confirmed_of_mem_bridge {sys : Sys} (h : Sound routing sys) {bw : BridgeWrite}
    (hbw : bw ∈ sys.bridge) : ¬ sys.Confirmed bw.call := by
  rintro ⟨i, d, req, k, -, -, -, howner⟩
  have hincreasing := h.arrivals.increasing.sublist h.arrivals.arrived
  rw [List.pairwise_append] at hincreasing
  exact absurd (hincreasing.2.2 _ (List.mem_of_getElem? howner) _ (List.mem_map_of_mem hbw)) (Nat.lt_irrefl _)

/-- When the bridge thread ends on its flag, everything received before its last
    wait timed out has been dealt with, and who waits for a reply has it.  What
    came after that is lost: each of these calls has returned, with success only
    if it did not ask for a confirmation. -/
theorem writes_lost_at_shutdown {host : Host} {plcs : List PlcConfig} {a : Assembly}
    (hstart : startup host plcs = .ok a) {pollers : List RuntimeDriver}
    (hpollers : ∀ rd ∈ pollers, Launched rd) {s₀ s₃ : Service}
    (hrun : Runs a.writeHandler.driverOf (.init (.init a.writeHandler.registry a.drivers) pollers) s₀)
    (hwait : s₀.step a.writeHandler.driverOf .timeout = some s₁)
    (hlater : Reaches (Service.step a.writeHandler.driverOf) (fun s e => s.Planned e ∧ e ≠ .checkFlag) s₁ s₂)
    (hend : s₂.step a.writeHandler.driverOf .checkFlag = some s₃) (hstopped : s₃.sys.thread = .stopped) :
    s₂.sys.received = s₁.sys.received ++ s₂.sys.bridge.map BridgeWrite.call ∧
    (∀ n ∈ s₁.sys.received, ∀ c, s₁.sys.calls[n]? = some c → c.mode = .confirmedAck → c.mailbox.isSome) ∧
    ∀ bw ∈ s₂.sys.bridge, ∀ c, s₂.sys.calls[bw.call]? = some c →
      c.result.isSome ∧ (c.mode = .confirmedAck → c.result = some false) := by
  have hplan : s₀.Planned .timeout := trivial
  have hrun₁ := hrun.next hplan hwait
  have hrun₂ : Runs a.writeHandler.driverOf (.init (.init a.writeHandler.registry a.drivers) pollers) s₂ := by
    refine hrun₁.trans ?_
    exact hlater.invariant (I := fun s => Runs _ s₁ s) .refl fun s e s' h hok hstep => h.next hok.1 hstep
  have hfirst : SinceTimeout s₁ s₁ ∧ s₁.sys.bridge = [] := by
    cases moves_of_step hwait with
    | timeout hidle hbridge _ =>
        exact ⟨⟨rfl, hidle, by rw [hbridge, List.map_nil, List.append_nil]⟩, hbridge⟩
  have hsince : SinceTimeout s₁ s₂ :=
    hlater.invariant hfirst.1 fun s e s' h hok hstep => h.of_moves hok.2 (moves_of_step hstep)
  obtain ⟨hordered, hreaches⟩ := ordered_of_runs hpollers hrun₂
  have hsound : Sound a.writeHandler.driverOf s₂.sys := (agreed_of_reaches hstart hreaches).sound
  have hended : s₂.runnerEnded = true := by
    cases moves_of_step hend with
    | goOn _ => exact absurd (hsince.idle.symm.trans hstopped) (by simp)
    | stopThread _ hflag => exact hordered.flag hflag
  refine ⟨hsince.received, ?_, ?_⟩
  · have haccounted := accounted_of_runs hrun₁ (by rw [hfirst.1.idle]; simp)
    obtain ⟨served, hserved, hmail⟩ := haccounted.ledger
    have hnone : s₁.sys.pending = [] := by
      rw [Sys.pending, hfirst.1.idle, hfirst.2]
      rfl
    rw [hnone, List.map_nil, List.append_nil] at hserved
    rw [hserved]
    exact hmail
  · intro bw hbw c hc
    have hreturned := hordered.quiet hended c (List.mem_of_getElem? hc)
    refine ⟨hreturned, ?_⟩
    intro hmode
    obtain ⟨ok, hok⟩ := Option.isSome_iff_exists.mp hreturned
    cases ok with
    | false => exact hok
    | true => exact absurd (hsound.result hc hmode hok) (not_confirmed_of_mem_bridge hsound hbw)

/-- The server is told to end, and the thread's wait times out. -/
def plantTold : List ServiceEvent := plantStops ++ [.shutdown, .notice]

/-- A write that does not wait comes right after that, and the runner ends
    before the thread looks at its flag. -/
def plantLate : List ServiceEvent :=
  plantTold ++ [.timeout] ++ [.bridge (.call setpointConfig.id .queuedAck (some (.uint16 70)))] ++
    [.runnerEnds] ++ [.raiseFlag]

theorem stopped_of_rank {t : Thread} (h : t.rank = 0) : t = .stopped := by
  cases t with
  | stopped => rfl
  | _ => exact absurd h (by simp [Thread.rank])

theorem writes_lost_at_shutdown_plant :
    (plantAfter plantLate).sys.calls.map ClientCall.result = [some true] ∧
    (plantAfter (plantLate ++ [.checkFlag])).sys.owners = [] ∧
    (plantAfter plantLate).sys.received = (plantAfter plantLate).sys.bridge.map BridgeWrite.call := by
  have hrun := runs_plantAfter plantTold (by decide +kernel)
  have hwait : (plantAfter plantTold).step plant.writeHandler.driverOf .timeout =
      some (plantAfter (plantTold ++ [.timeout])) := step_plantAfter (by decide +kernel)
  have hlater : Reaches (Service.step plant.writeHandler.driverOf) (fun s e => s.Planned e ∧ e ≠ .checkFlag)
      (plantAfter (plantTold ++ [.timeout])) (plantAfter plantLate) := by
    refine Reaches.next (e := .raiseFlag) (Reaches.next (e := .runnerEnds) (Reaches.next
      (e := .bridge (.call setpointConfig.id .queuedAck (some (.uint16 70)))) .refl ⟨trivial, by simp⟩
      (step_plantAfter ?_)) ⟨trivial, by simp⟩ (step_plantAfter ?_)) ⟨trivial, by simp⟩ (step_plantAfter ?_)
    all_goals decide +kernel
  have hend : (plantAfter plantLate).step plant.writeHandler.driverOf .checkFlag =
      some (plantAfter (plantLate ++ [.checkFlag])) := step_plantAfter (by decide +kernel)
  have hstopped : (plantAfter (plantLate ++ [.checkFlag])).sys.thread = .stopped :=
    stopped_of_rank (by decide +kernel)
  have hresult : (plantAfter plantLate).sys.calls.map ClientCall.result = [some true] := by
    decide +kernel
  have howners : (plantAfter (plantLate ++ [.checkFlag])).sys.owners = [] := by
    decide +kernel
  have hnone : (plantAfter (plantTold ++ [.timeout])).sys.received = [] := by
    decide +kernel
  obtain ⟨hreceived, -⟩ :=
    writes_lost_at_shutdown startup_plant launched_plant hrun hwait hlater hend hstopped
  rw [hnone, List.nil_append] at hreceived
  exact ⟨hresult, howners, hreceived⟩

end Service

end PlcBridge.Bridge
