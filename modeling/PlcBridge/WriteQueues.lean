/-
  PlcBridge.WriteQueues

  The write phase of both drivers (the first half of `run_read_cycle_impl`):
  what becomes of the requests in the write queue, whichever of the dozen ways
  out of the loop each of them takes.
-/
import PlcBridge.Driver.Accounting
import PlcBridge.Fins.Steps
import PlcBridge.Modbus.Steps

namespace PlcBridge

open PlcBridge.Lib

-- ============================================================================
-- Modbus
-- ============================================================================

namespace Modbus

/-- Modbus writes: address and words of the mapping, acknowledged by a success
    response. -/
def writeLog (mappings : List ModbusMapping) : WriteLog Exchange where
  isWrite
    | .read .. => false
    | .write .. => true
  carries x req := ∃ m ctx result, mappings.find? (fun m => m.tagId = req.tagId) = some m ∧ m.writable ∧
    x = .write ctx req m.address (m.writeWords req.value) result
  acknowledged
    | .read .. => False
    | .write _ _ _ _ result => result = .ok ()

variable {env : Env} {mappings : List ModbusMapping}

theorem accounts_foldl_extract (log : WriteLog Exchange) (r : ReadRequest) (raw : List UInt8)
    (d : State) (ms : List ModbusMapping) :
    Accounts log d (ms.foldl (extractMapping env r raw) d) [] :=
  Accounts.of_sameIo (sameIo_foldl_extract env r raw d ms)

/-- A read takes nothing from the queue and answers nothing. -/
theorem accounts_readStep (env : Env) (mappings : List ModbusMapping) (ctx : Nat) (r : ReadRequest)
    (d : State) : Accounts (writeLog mappings) d (readStep env ctx r d).2 [] := by
  have hrec : Accounts (writeLog mappings) d (d.record (readExchange env ctx r d)) [] :=
    Accounts.of_record rfl d
  obtain ⟨data, -, h⟩ | ⟨err, -, ⟨-, h⟩ | ⟨-, h⟩ | ⟨-, -, h⟩⟩ := readStep_cases env ctx r d
  · rw [h]
    exact hrec.trans_quiet (accounts_foldl_extract _ r _ _ _)
  · rw [h]
    exact hrec.trans_quiet (Accounts.of_sameIo (DriverState.sameIo_markAll _ _ _))
  · rw [h]
    exact (hrec.trans_quiet (Accounts.of_sameIo (DriverState.sameIo_markAll _ _ _))).trans_quiet
      (Accounts.of_putBack _ _ none)
  · rw [h]
    exact hrec

/-- A processed request: refused, or sent and answered by the outcome. -/
theorem accounts_processWrite (env : Env) (mappings : List ModbusMapping) (req : WriteRequest)
    (d : State) :
    ∃ s : Served Exchange, s.req = req ∧
      Accounts (writeLog mappings) { d with queue := req :: d.queue }
        (processWrite env mappings req d).2 [s] := by
  obtain ⟨msg, d₁, hd₁, h⟩ | ⟨m, hfind, hw, -, h⟩ := processWrite_cases env mappings req d
  · rw [h]
    refine ⟨⟨req, none, .error msg⟩, rfl, Accounts.of_refused ?_ ?_ ?_⟩
    · rcases hd₁ with rfl | ⟨id, rfl⟩ <;> rfl
    · rcases hd₁ with rfl | ⟨id, rfl⟩ <;> rfl
    · rcases hd₁ with rfl | ⟨id, rfl⟩ <;> rfl
  · have hcarries : (writeLog mappings).carries (writeExchange env m req d) req :=
      ⟨m, _, _, hfind, hw, rfl⟩
    have htrace := trace_sendWrite env m req d
    rw [h]
    rw [sendWrite_eq] at htrace ⊢
    have hqueue := DriverState.queue_takeOrConnect d
    have hreplies := DriverState.replies_takeOrConnect d
    obtain ⟨hres, hf⟩ | ⟨hres, -, q, msg, -, hf⟩ | ⟨habort, e, q, msg, -, hf⟩ := finishWrite_cases env m
      req (env.writeMultipleRegisters d.trace d.takeOrConnect.1 m.address (m.writeWords req.value))
      ((d.takeOrConnect.2.record (writeExchange env m req d)).putBack (some d.takeOrConnect.1))
    · rw [hf] at htrace ⊢
      refine ⟨⟨req, _, .ok ()⟩, rfl,
        Accounts.of_sent hqueue ?_ htrace rfl hcarries ⟨fun _ => hres, fun _ => rfl⟩⟩
      exact congrArg (· ++ _) hreplies
    · rw [hf] at htrace ⊢
      refine ⟨⟨req, _, .error msg⟩, rfl,
        Accounts.of_sent hqueue ?_ htrace rfl hcarries ⟨?_, fun hack => absurd hack hres⟩⟩
      · exact congrArg (· ++ _) hreplies
      · intro hmsg
        exact absurd hmsg (by simp)
    · rw [hf] at htrace ⊢
      refine ⟨⟨req, _, .error msg⟩, rfl, Accounts.of_sent hqueue ?_ htrace rfl hcarries ⟨?_, ?_⟩⟩
      · exact congrArg (· ++ _) hreplies
      · intro hmsg
        exact absurd hmsg (by simp)
      · intro hack
        rw [show env.writeMultipleRegisters d.trace d.takeOrConnect.1 m.address (m.writeWords req.value)
          = .ok () from hack] at habort
        exact absurd habort (by simp [CallResult.aborts])

/-- Up to `n` requests are taken, also when the phase is aborted, and each went
    through `processWrite`. -/
theorem accounts_drainWrites (env : Env) (mappings : List ModbusMapping) (n : Nat) (d : State) :
    ∃ served : List (Served Exchange), served.length ≤ n ∧
      Accounts (writeLog mappings) d (drainWrites env mappings n d).2 served ∧
      ∀ s ∈ served, ∃ d₁ : State, Accounts (writeLog mappings)
        { d₁ with queue := s.req :: d₁.queue } (processWrite env mappings s.req d₁).2 [s] := by
  induction n generalizing d with
  | zero => exact ⟨[], le_rfl, Accounts.refl _ d, fun s hs => absurd hs (List.not_mem_nil)⟩
  | succ n ih =>
      rw [drainWrites]
      cases hq : d.queue with
      | nil => exact ⟨[], Nat.zero_le _, Accounts.refl _ d, fun s hs => absurd hs (List.not_mem_nil)⟩
      | cons req rest =>
          obtain ⟨s, rfl, hs⟩ := accounts_processWrite env mappings req { d with queue := rest }
          have hthrough : ∃ d₁ : State, Accounts (writeLog mappings)
              { d₁ with queue := s.req :: d₁.queue } (processWrite env mappings s.req d₁).2 [s] :=
            ⟨_, hs⟩
          simp only at hs
          rw [← hq] at hs
          simp only
          rcases except_cases (processWrite env mappings s.req { d with queue := rest })
            with ⟨d', h⟩ | ⟨e, d', h⟩
          · rw [h] at hs ⊢
            obtain ⟨served, hlen, hserved, hall⟩ := ih d'
            exact ⟨s :: served, Nat.succ_le_succ hlen, hs.trans hserved,
              List.forall_mem_cons.mpr ⟨hthrough, hall⟩⟩
          · rw [h] at hs ⊢
            exact ⟨[s], Nat.succ_le_succ (Nat.zero_le n), hs, List.forall_mem_singleton.mpr hthrough⟩

theorem accounts_runReads (env : Env) (mappings : List ModbusMapping) (ctx : Nat)
    (rs : List ReadRequest) (d : State) :
    Accounts (writeLog mappings) d (runList (readStep env ctx) rs d).2 [] :=
  runList_rel (R := fun d d' => Accounts (writeLog mappings) d d' []) (Accounts.refl _)
    (fun h h' => h.trans_quiet h') (fun r _ d => accounts_readStep env mappings ctx r d) d

theorem accounts_readPhase (env : Env) (mappings : List ModbusMapping) (d : State) :
    Accounts (writeLog mappings) d (readPhase env mappings d).2 [] := by
  have hrun := (Accounts.of_takeOrConnect (writeLog mappings) d).trans_quiet
    (accounts_runReads env mappings d.takeOrConnect.1 (readPlan env.order mappings) d.takeOrConnect.2)
  rw [readPhase]
  rcases except_cases (runList (readStep env d.takeOrConnect.1) (readPlan env.order mappings)
    d.takeOrConnect.2) with ⟨d', h⟩ | ⟨e, d', h⟩
  · rw [h] at hrun
    simp only [h]
    exact hrun.trans_quiet (Accounts.of_putBack _ _ _)
  · rw [h] at hrun
    simp only [h]
    exact hrun

theorem accounts_cycle (env : Env) (mappings : List ModbusMapping) (d : State) :
    ∃ served : List (Served Exchange), served.length ≤ 64 ∧
      Accounts (writeLog mappings) d (runReadCycleImpl env mappings d).2 served := by
  obtain ⟨served, hlen, hserved, -⟩ := accounts_drainWrites env mappings 64 d
  refine ⟨served, hlen, ?_⟩
  rw [runReadCycleImpl]
  rcases except_cases (drainWrites env mappings 64 d) with ⟨d', h⟩ | ⟨e, d', h⟩
  · rw [h] at hserved
    simp only [h]
    exact hserved.trans_quiet (accounts_readPhase env mappings d')
  · rw [h] at hserved
    simp only [h]
    exact hserved

end Modbus

-- ============================================================================
-- FINS
-- ============================================================================

namespace Fins

/-- FINS writes: the mapping and its words, acknowledged by a response with the
    session id of the request and end code zero. -/
def writeLog (mappings : List TagMapping) : WriteLog Exchange where
  isWrite
    | .read .. => false
    | .write .. => true
  carries x req := ∃ m ctx sid result, mappings.find? (fun m => m.tagId = req.tagId) = some m ∧ m.writable ∧
    x = .write ctx sid req m (m.writeWords req.value) result
  acknowledged
    | .read .. => False
    | .write _ sid _ _ _ result => ∃ payload data, result = .answered payload ∧
        parseFinsResponse payload = .ok (sid, 0, data)

theorem response_eq_accepted {result : Transfer} {sid : UInt8} {data : List UInt8} :
    result.response sid = .accepted data ↔
      ∃ payload, result = .answered payload ∧ parseFinsResponse payload = .ok (sid, 0, data) := by
  cases result with
  | answered payload =>
      cases hp : parseFinsResponse payload with
      | error e => simp [Transfer.response, hp]
      | ok r =>
          obtain ⟨respSid, endCode, data'⟩ := r
          rw [Transfer.response, hp]
          by_cases hsid : respSid = sid
          · by_cases hcode : endCode = 0
            · simp [hsid, hcode, hp]
            · simp [hsid, hcode, hp]
          · simp [hsid, hp]
  | _ => simp [Transfer.response]

theorem accounts_runExtract (log : WriteLog Exchange) (env : Env) (g : ReadGroup) (data : List UInt8)
    (ms : List TagMapping) (d : State) :
    Accounts log d (runList (extractMapping env g data) ms d).2 [] :=
  Accounts.of_sameIo (sameIo_runExtract env g data ms d)

theorem accounts_finishRead (log : WriteLog Exchange) (env : Env) (g : ReadGroup) (ctx : Nat)
    (response : Response) (d : State) :
    Accounts log d (finishRead env g ctx response d).2 [] := by
  have hmark : ∀ (d : State) (ids : List String) (q : TagQuality),
      Accounts log d (d.markAll env.clock ids q) [] := fun d ids q =>
    Accounts.of_sameIo (DriverState.sameIo_markAll d ids q)
  cases response with
  | lost err => exact (hmark _ _ _).trans_quiet (Accounts.of_putBack log _ _)
  | malformed e => exact (Accounts.of_putBack log d _).trans_quiet (hmark _ _ _)
  | mismatched => exact (Accounts.of_putBack log d _).trans_quiet (hmark _ _ _)
  | refused code => exact (Accounts.of_putBack log d _).trans_quiet (hmark _ _ _)
  | accepted data =>
      rw [finishRead]
      by_cases hshort : data.length < g.wordCount.toNat * 2
      · rw [if_pos hshort, markShort_eq]
        exact (Accounts.of_putBack log d _).trans_quiet (hmark _ _ _)
      · rw [if_neg hshort]
        exact (Accounts.of_putBack log d _).trans_quiet (accounts_runExtract log env g data _ _)

/-- A read takes nothing from the queue and answers nothing. -/
theorem accounts_readStep (env : Env) (mappings : List TagMapping) (g : ReadGroup) (d : State) :
    Accounts (writeLog mappings) d (readStep env g d).2 [] := by
  have hdraw : Accounts (writeLog mappings) d (drawSid d) [] := Accounts.of_quiet rfl rfl rfl
  have hafter : Accounts (writeLog mappings) d (afterRead env g d) [] :=
    (hdraw.trans_quiet (Accounts.of_takeOrConnect _ _)).trans_quiet (Accounts.of_record rfl _)
  rw [readStep_eq]
  exact hafter.trans_quiet (accounts_finishRead _ env g _ _ _)

/-- A processed request: refused, or sent and answered by the response. -/
theorem accounts_processWrite (env : Env) (mappings : List TagMapping) (req : WriteRequest)
    (d : State) :
    ∃ s : Served Exchange, s.req = req ∧
      Accounts (writeLog mappings) { d with queue := req :: d.queue }
        (processWrite env mappings req d) [s] := by
  obtain ⟨msg, h⟩ | ⟨m, hfind, hw, h⟩ := processWrite_cases env mappings req d
  · rw [h]
    exact ⟨⟨req, none, .error msg⟩, rfl, Accounts.of_refused rfl rfl rfl⟩
  · have hcarries : (writeLog mappings).carries (writeExchange env m req d) req :=
      ⟨m, _, _, _, hfind, hw, rfl⟩
    have hack : (writeLog mappings).acknowledged (writeExchange env m req d) ↔
        ∃ data, (writeExchange env m req d).response = .accepted data := by
      have hiff : (∃ data, (writeExchange env m req d).response = .accepted data) ↔ _ :=
        exists_congr fun data => response_eq_accepted
      rw [hiff, exists_comm]
      rfl
    have htrace := trace_sendWrite env m req d
    have hqueue : (afterWrite env m req d).queue = d.queue :=
      DriverState.queue_takeOrConnect (drawSid d)
    have hreplies : (afterWrite env m req d).replies = d.replies :=
      DriverState.replies_takeOrConnect (drawSid d)
    rw [h]
    rw [sendWrite_eq] at htrace ⊢
    obtain ⟨data, hres, hf⟩ | ⟨hres, slot, q, msg, -, hf⟩ := finishWrite_cases env m req (nextCtx d)
      (writeExchange env m req d).response (afterWrite env m req d)
    · rw [hf] at htrace ⊢
      refine ⟨⟨req, _, .ok ()⟩, rfl,
        Accounts.of_sent hqueue ?_ htrace rfl hcarries ⟨fun _ => hack.mpr ⟨data, hres⟩, fun _ => rfl⟩⟩
      exact congrArg (· ++ _) hreplies
    · rw [hf] at htrace ⊢
      refine ⟨⟨req, _, .error msg⟩, rfl, Accounts.of_sent hqueue ?_ htrace rfl hcarries ⟨?_, ?_⟩⟩
      · exact congrArg (· ++ _) hreplies
      · intro hmsg
        exact absurd hmsg (by simp)
      · intro hx
        obtain ⟨data, hdata⟩ := hack.mp hx
        exact absurd hdata (hres data)

theorem accounts_drainWrites (env : Env) (mappings : List TagMapping) (n : Nat) (d : State) :
    ∃ served : List (Served Exchange), served.length ≤ n ∧
      Accounts (writeLog mappings) d (drainWrites env mappings n d) served := by
  induction n generalizing d with
  | zero => exact ⟨[], le_rfl, Accounts.refl _ d⟩
  | succ n ih =>
      rw [drainWrites]
      cases hq : d.queue with
      | nil => exact ⟨[], Nat.zero_le _, Accounts.refl _ d⟩
      | cons req rest =>
          obtain ⟨s, -, hs⟩ := accounts_processWrite env mappings req { d with queue := rest }
          obtain ⟨served, hlen, hserved⟩ := ih (processWrite env mappings req { d with queue := rest })
          simp only at hs
          rw [← hq] at hs
          exact ⟨s :: served, Nat.succ_le_succ hlen, hs.trans hserved⟩

theorem accounts_cycle (env : Env) (drv : FinsDriver) (d : State) :
    ∃ served : List (Served Exchange), served.length ≤ 64 ∧
      Accounts (writeLog drv.mappings) d (runReadCycleImpl env drv d).2 served := by
  have hconn : Accounts (writeLog drv.mappings) d (ensureConnected d) [] :=
    (Accounts.of_takeOrConnect _ d).trans_quiet (Accounts.of_putBack _ _ _)
  obtain ⟨served, hlen, hserved⟩ := accounts_drainWrites env drv.mappings 64 (ensureConnected d)
  have hreads := runList_rel (R := fun d d' => Accounts (writeLog drv.mappings) d d' [])
    (Accounts.refl _) (fun h h' => h.trans_quiet h')
    (fun (g : ReadGroup) (_ : g ∈ drv.readGroups) d => accounts_readStep env drv.mappings g d)
    (beforeReads env drv d)
  refine ⟨served, hlen, ?_⟩
  rw [(runReadCycleImpl_eq env drv d).1]
  exact (hconn.trans hserved).trans_quiet hreads

end Fins

-- ============================================================================
-- Both drivers
-- ============================================================================

/-- However a cycle of either driver ends: at most 64 requests are taken, from
    the front of the queue, the others stay queued in their order; each request
    taken gets its one reply, in order; and it is `Ok` exactly when the device
    acknowledged that request's own write. -/
theorem drained_writes_accounted :
    (∀ (env : Modbus.Env) (mappings : List Modbus.ModbusMapping) (d : Modbus.State),
      ∃ served : List (Served Modbus.Exchange), served.length ≤ 64 ∧
        Accounts (Modbus.writeLog mappings) d (Modbus.runReadCycleImpl env mappings d).2 served) ∧
    ∀ (env : Fins.Env) (drv : Fins.FinsDriver) (d : Fins.State),
      ∃ served : List (Served Fins.Exchange), served.length ≤ 64 ∧
        Accounts (Fins.writeLog drv.mappings) d (Fins.runReadCycleImpl env drv d).2 served :=
  ⟨Modbus.accounts_cycle, Fins.accounts_cycle⟩

end PlcBridge
