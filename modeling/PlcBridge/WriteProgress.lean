/-
  PlcBridge.WriteProgress

  How long a write request waits in the queue of its driver.  Requests come in
  between the cycles, and each cycle takes some from the front: FINS as many as
  there are, up to 64; Modbus at least one, since a write that breaks the
  connection ends the cycle.  So over any number of cycles requests are answered
  in order, and the one at position `k` by the end of cycle `k / 64 + 1` or
  `k + 1`, however many come in behind it.
-/
import PlcBridge.WriteQueues

namespace PlcBridge

open PlcBridge.Lib

/-- A request arrives, or a cycle is run. -/
inductive QueueEvent where
  | arrive (req : WriteRequest)
  | cycle

namespace QueueEvent

def request? : QueueEvent → Option WriteRequest
  | .arrive req => some req
  | .cycle => none

/-- The requests that arrive. -/
def arrivals (es : List QueueEvent) : List WriteRequest := es.filterMap request?

/-- How many cycles are run. -/
def cycles (es : List QueueEvent) : Nat := es.countP fun e => e.request?.isNone

end QueueEvent

section

variable {ξ σ : Type} {log : WriteLog ξ} {d d₁ : DriverState ξ σ} {served : List (Served ξ)}
  {n : Nat}

/-- A driver whose cycles are those of `cycle`. -/
def queueStep (cycle : DriverState ξ σ → DriverState ξ σ) (d : DriverState ξ σ) :
    QueueEvent → DriverState ξ σ
  | .arrive req => { d with queue := d.queue ++ [req] }
  | .cycle => cycle d

/-- Requests behind those taken make no difference. -/
theorem Accounts.append_queue (h : Accounts log d d₁ served) (reqs : List WriteRequest) :
    Accounts log { d with queue := d.queue ++ reqs } { d₁ with queue := d₁.queue ++ reqs } served where
  queue := by
    simp only [h.queue, List.append_assoc]
  replies := h.replies
  writes := h.writes
  own := h.own
  success := h.success

theorem Accounts.length_queue (h : Accounts log d d₁ served) :
    d.queue.length = served.length + d₁.queue.length := by
  rw [h.queue, List.length_append, List.length_map]

theorem Accounts.length_queue_le (h : Accounts log d d₁ served) : d₁.queue.length ≤ d.queue.length := by
  rw [h.length_queue]
  exact Nat.le_add_left _ _

/-- A cycle takes at least `n` requests, or all there are. -/
def TakesAtLeast (log : WriteLog ξ) (n : Nat) (cycle : DriverState ξ σ → DriverState ξ σ) : Prop :=
  ∀ d, ∃ served : List (Served ξ),
    Accounts log d (cycle d) served ∧ min n d.queue.length ≤ served.length

/-- Over a run, `n` for each cycle, or all there were at its beginning. -/
theorem accounts_run {cycle : DriverState ξ σ → DriverState ξ σ} (hcycle : TakesAtLeast log n cycle)
    (es : List QueueEvent) (d : DriverState ξ σ) :
    ∃ served : List (Served ξ),
      Accounts log { d with queue := d.queue ++ QueueEvent.arrivals es }
        (es.foldl (queueStep cycle) d) served ∧
      min (n * QueueEvent.cycles es) d.queue.length ≤ served.length := by
  induction es generalizing d with
  | nil =>
      refine ⟨[], ?_, Nat.min_le_left _ _⟩
      have hsame : ({ d with queue := d.queue ++ QueueEvent.arrivals [] } : DriverState ξ σ) = d := by
        simp [QueueEvent.arrivals]
      rw [hsame]
      exact .refl log d
  | cons e es ih =>
      cases e with
      | arrive req =>
          obtain ⟨served, hserved, hlength⟩ := ih { d with queue := d.queue ++ [req] }
          refine ⟨served, ?_, ?_⟩
          · simp only [List.append_assoc] at hserved
            exact hserved
          · rw [List.length_append, List.length_singleton] at hlength
            have hcount : QueueEvent.cycles (.arrive req :: es) = QueueEvent.cycles es :=
              List.countP_cons_of_neg (by simp [QueueEvent.request?])
            rw [hcount]
            omega
      | cycle =>
          obtain ⟨first, hfirst, hmany⟩ := hcycle d
          obtain ⟨rest, hrest, hlength⟩ := ih (cycle d)
          refine ⟨first ++ rest, (hfirst.append_queue (QueueEvent.arrivals es)).trans hrest, ?_⟩
          have hqueue := hfirst.length_queue
          have hcount : QueueEvent.cycles (.cycle :: es) = QueueEvent.cycles es + 1 :=
            List.countP_cons_of_pos rfl
          rw [hcount, Nat.mul_add, Nat.mul_one, List.length_append]
          omega

/-- The request at position `k`. -/
theorem Accounts.served_of_lt (h : Accounts log d d₁ served) {k : Nat} {req : WriteRequest}
    (hk : d.queue[k]? = some req) (hlt : k < served.length) : ∃ s, served[k]? = some s ∧ s.req = req := by
  have hlt' : k < (served.map Served.req).length := by
    rw [List.length_map]
    exact hlt
  rw [h.queue, List.getElem?_append_left hlt', List.getElem?_map] at hk
  exact Option.map_eq_some_iff.mp hk

end

-- ============================================================================
-- The drivers
-- ============================================================================

namespace Modbus

theorem queue_processWrite (env : Env) (mappings : List ModbusMapping) (req : WriteRequest) (d : State) :
    (processWrite env mappings req d).2.queue = d.queue := by
  obtain ⟨s, rfl, hs⟩ := accounts_processWrite env mappings req d
  exact (List.cons.inj hs.queue).2.symm

/-- What follows the first request takes more, if anything. -/
theorem length_queue_cycle (env : Env) (mappings : List ModbusMapping) {d : State} {req : WriteRequest}
    {rest : List WriteRequest} (hq : d.queue = req :: rest) :
    (runReadCycleImpl env mappings d).2.queue.length ≤ rest.length := by
  have hfirst := queue_processWrite env mappings req { d with queue := rest }
  rw [runReadCycleImpl, drainWrites, hq]
  simp only
  rcases except_cases (processWrite env mappings req { d with queue := rest }) with ⟨d', h⟩ | ⟨e, d', h⟩
  · rw [h] at hfirst ⊢
    obtain ⟨more, -, hmore, -⟩ := accounts_drainWrites env mappings 63 d'
    have hdrain := hmore.length_queue_le
    rcases except_cases (drainWrites env mappings 63 d') with ⟨d'', h'⟩ | ⟨e, d'', h'⟩
    · rw [h'] at hdrain
      simp only [h']
      exact ((accounts_readPhase env mappings d'').length_queue_le.trans hdrain).trans_eq
        (congrArg List.length hfirst)
    · rw [h'] at hdrain
      simp only [h']
      exact hdrain.trans_eq (congrArg List.length hfirst)
  · rw [h] at hfirst ⊢
    exact (congrArg List.length hfirst).le

/-- The first request is taken, whatever comes of it. -/
theorem takesAtLeast_one (env : Env) (mappings : List ModbusMapping) :
    TakesAtLeast (writeLog mappings) 1 fun d => (runReadCycleImpl env mappings d).2 := by
  intro d
  obtain ⟨served, -, hserved⟩ := accounts_cycle env mappings d
  refine ⟨served, hserved, ?_⟩
  cases hq : d.queue with
  | nil => exact Nat.zero_le _
  | cons req rest =>
      have hleft := length_queue_cycle env mappings hq
      have htotal := hserved.length_queue
      rw [hq, List.length_cons] at htotal
      rw [List.length_cons]
      omega

end Modbus

namespace Fins

theorem queue_processWrite (env : Env) (mappings : List TagMapping) (req : WriteRequest) (d : State) :
    (processWrite env mappings req d).queue = d.queue := by
  obtain ⟨s, rfl, hs⟩ := accounts_processWrite env mappings req d
  exact (List.cons.inj hs.queue).2.symm

/-- Nothing ends the write phase early. -/
theorem queue_drainWrites (env : Env) (mappings : List TagMapping) (n : Nat) (d : State) :
    (drainWrites env mappings n d).queue = d.queue.drop n := by
  induction n generalizing d with
  | zero => rfl
  | succ n ih =>
      rw [drainWrites]
      cases hq : d.queue with
      | nil => simp [hq]
      | cons req rest =>
          simp only
          rw [ih, queue_processWrite, List.drop_succ_cons]

theorem takesAtLeast_all (env : Env) (drv : FinsDriver) :
    TakesAtLeast (writeLog drv.mappings) 64 fun d => (runReadCycleImpl env drv d).2 := by
  intro d
  obtain ⟨served, -, hserved⟩ := accounts_cycle env drv d
  refine ⟨served, hserved, ?_⟩
  have hreads := runList_rel (R := fun d d' => Accounts (writeLog drv.mappings) d d' [])
    (Accounts.refl _) (fun h h' => h.trans_quiet h')
    (fun (g : ReadGroup) (_ : g ∈ drv.readGroups) d => accounts_readStep env drv.mappings g d)
    (beforeReads env drv d)
  have hleft : (runReadCycleImpl env drv d).2.queue.length ≤ d.queue.length - 64 := by
    rw [(runReadCycleImpl_eq env drv d).1]
    refine hreads.length_queue_le.trans_eq ?_
    rw [beforeReads, queue_drainWrites, List.length_drop]
    exact congrArg (·.length - 64) (DriverState.queue_takeOrConnect d)
  have htotal := hserved.length_queue
  omega

end Fins

-- ============================================================================
-- Both drivers
-- ============================================================================

/-- In every run of cycles with requests arriving in between, in any number: of
    either driver's queue a front part is served, in order, each request once
    and with one reply if it asked for one; and the request that was at position
    `k` when the run began is among those served once there were more than `k`
    cycles (Modbus) or more than `k / 64` (FINS). -/
theorem writes_served_within_cycles (es : List QueueEvent) :
    (∀ (env : Modbus.Env) (mappings : List Modbus.ModbusMapping) (d : Modbus.State),
      ∃ served : List (Served Modbus.Exchange),
        Accounts (Modbus.writeLog mappings) { d with queue := d.queue ++ QueueEvent.arrivals es }
          (es.foldl (queueStep fun d => (Modbus.runReadCycleImpl env mappings d).2) d) served ∧
        ∀ (k : Nat) (req : WriteRequest), d.queue[k]? = some req → k < QueueEvent.cycles es →
          ∃ s, served[k]? = some s ∧ s.req = req) ∧
    ∀ (env : Fins.Env) (drv : Fins.FinsDriver) (d : Fins.State),
      ∃ served : List (Served Fins.Exchange),
        Accounts (Fins.writeLog drv.mappings) { d with queue := d.queue ++ QueueEvent.arrivals es }
          (es.foldl (queueStep fun d => (Fins.runReadCycleImpl env drv d).2) d) served ∧
        ∀ (k : Nat) (req : WriteRequest), d.queue[k]? = some req → k / 64 < QueueEvent.cycles es →
          ∃ s, served[k]? = some s ∧ s.req = req := by
  refine ⟨?_, ?_⟩
  · intro env mappings d
    obtain ⟨served, hserved, hlength⟩ := accounts_run (Modbus.takesAtLeast_one env mappings) es d
    refine ⟨served, hserved, ?_⟩
    intro k req hk hcycles
    have hlt := (List.getElem?_eq_some_iff.mp hk).1
    refine hserved.served_of_lt ?_ (by omega)
    simp only [List.getElem?_append_left hlt, hk]
  · intro env drv d
    obtain ⟨served, hserved, hlength⟩ := accounts_run (Fins.takesAtLeast_all env drv) es d
    refine ⟨served, hserved, ?_⟩
    intro k req hk hcycles
    have hlt := (List.getElem?_eq_some_iff.mp hk).1
    refine hserved.served_of_lt ?_ (by omega)
    simp only [List.getElem?_append_left hlt, hk]

end PlcBridge
