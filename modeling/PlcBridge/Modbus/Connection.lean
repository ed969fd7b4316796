/-
  PlcBridge.Modbus.Connection

  The persistent client context of the Modbus driver.  A cycle works on one
  context; it leaves the slot empty if one of its exchanges ended the cycle,
  and puts the context back otherwise.  Whether a broken context is put back
  is therefore a question of which errors end the cycle.
-/
import PlcBridge.Modbus.Staleness

namespace PlcBridge.Modbus

open PlcBridge.Lib
open PlcBridge.DriverState (Extends AllNew exchanges)

-- ============================================================================
-- Exchanges by what they say about the connection
-- ============================================================================

/-- The client context the request was made on. -/
def Exchange.ctx : Exchange → Nat
  | .read ctx .. => ctx
  | .write ctx .. => ctx

/-- No answer arrived: a transport error or a timeout. -/
def CallResult.unanswered {α : Type} : CallResult α → Bool
  | .ok _ | .exception _ => false
  | .transport _ | .timeout => true

/-- The request ended in a transport error or a timeout. -/
def Exchange.Broken : Exchange → Prop
  | .read _ _ _ _ result => result.unanswered
  | .write _ _ _ _ result => result.unanswered

/-- The read outcomes that end the cycle. -/
def CallResult.fatal (result : CallResult ReadData) : Bool :=
  match result.payload with
  | .ok _ => false
  | .error err => isFatal err

/-- The driver returns from the cycle after this exchange. -/
def Exchange.EndsCycle : Exchange → Prop
  | .read _ _ _ _ result => result.fatal
  | .write _ _ _ _ result => result.aborts

-- ============================================================================
-- Writes
-- ============================================================================

variable {env : Env} {ctx : Nat} {d : State} {mappings : List ModbusMapping}

/-- The context the next request is made on. -/
def nextCtx (d : State) : Nat := d.takeOrConnect.1

theorem nextCtx_of_conn {d : State} {ctx : Nat} (h : d.conn = some ctx) : nextCtx d = ctx := by
  rw [nextCtx, DriverState.takeOrConnect, h]

theorem nextCtx_congr {d d' : State} (hconn : d'.conn = d.conn) (hopened : d'.opened = d.opened) :
    nextCtx d' = nextCtx d := by
  rw [nextCtx, nextCtx, DriverState.takeOrConnect, DriverState.takeOrConnect, hconn, hopened]
  cases d.conn <;> rfl

/-- An exchange on the given context that lets the cycle go on. -/
def Exchange.Continues (ctx : Nat) (x : Exchange) : Prop := x.ctx = ctx ∧ ¬ x.EndsCycle

/-- A write that lets the cycle go on keeps the context; one that ends it
    empties the slot. -/
theorem processWrite_slot (env : Env) (mappings : List ModbusMapping) (req : WriteRequest)
    (d : State) :
    (∃ d', processWrite env mappings req d = (.ok (), d') ∧ nextCtx d' = nextCtx d ∧
      AllNew (Exchange.Continues (nextCtx d)) d d') ∨
    ∃ e d', processWrite env mappings req d = (.error e, d') ∧ d'.conn = none ∧
      ∃ x ∈ d.exchanges d', x.EndsCycle := by
  obtain ⟨msg, d₁, hd₁, h⟩ | ⟨m, -, -, -, h⟩ := processWrite_cases env mappings req d
  · left
    rw [h]
    refine ⟨_, rfl, ?_, ?_⟩
    · rcases hd₁ with rfl | ⟨id, rfl⟩
      · exact nextCtx_congr rfl rfl
      · exact nextCtx_congr rfl rfl
    · apply AllNew.of_trace_eq
      rcases hd₁ with rfl | ⟨id, rfl⟩ <;> rfl
  · rw [h, sendWrite_eq]
    have htrace : (d.takeOrConnect.2.record (writeExchange env m req d)).trace
        = d.trace ++ [writeExchange env m req d] := by
      show d.takeOrConnect.2.trace ++ _ = _
      rw [DriverState.trace_takeOrConnect]
    obtain ⟨hok, hf⟩ | ⟨-, habort, q, msg, -, hf⟩ | ⟨habort, e, q, msg, -, hf⟩ :=
      finishWrite_cases env m req
        (env.writeMultipleRegisters d.trace d.takeOrConnect.1 m.address (m.writeWords req.value))
        ((d.takeOrConnect.2.record (writeExchange env m req d)).putBack (some d.takeOrConnect.1))
    · left
      rw [hf]
      refine ⟨_, rfl, nextCtx_of_conn rfl, AllNew.of_singleton htrace ⟨rfl, ?_⟩⟩
      rw [writeExchange, hok]
      exact Bool.false_ne_true
    · left
      rw [hf]
      refine ⟨_, rfl, nextCtx_of_conn rfl, AllNew.of_singleton htrace ⟨rfl, ?_⟩⟩
      show ¬ CallResult.aborts _ = true
      rw [habort]
      exact Bool.false_ne_true
    · right
      rw [hf]
      refine ⟨e, _, rfl, rfl, writeExchange env m req d, ?_, habort⟩
      show _ ∈ exchanges d (d.takeOrConnect.2.record (writeExchange env m req d))
      rw [DriverState.exchanges_eq htrace]
      exact List.mem_singleton_self _

/-- The same for the write phase. -/
theorem drainWrites_slot (env : Env) (mappings : List ModbusMapping) (n : Nat) (d : State) :
    (∃ d', drainWrites env mappings n d = (.ok (), d') ∧ nextCtx d' = nextCtx d ∧
      AllNew (Exchange.Continues (nextCtx d)) d d') ∨
    ∃ e d', drainWrites env mappings n d = (.error e, d') ∧ d'.conn = none ∧
      ∃ x ∈ d.exchanges d', x.EndsCycle := by
  induction n generalizing d with
  | zero => exact .inl ⟨d, rfl, rfl, AllNew.of_trace_eq rfl⟩
  | succ n ih =>
      rw [drainWrites]
      cases hq : d.queue with
      | nil => exact .inl ⟨d, rfl, rfl, AllNew.of_trace_eq rfl⟩
      | cons req rest =>
          have hext := (extends_dequeue d rest).trans
            (extends_processWrite env mappings req { d with queue := rest })
          have hctx : nextCtx { d with queue := rest } = nextCtx d := nextCtx_congr rfl rfl
          obtain ⟨d₁, h₁, hnext, hall⟩ | ⟨e, d₁, h₁, hconn, hends⟩ :=
            processWrite_slot env mappings req { d with queue := rest }
          · rw [h₁] at hext
            rw [hctx] at hnext hall
            have hdrain := extends_drainWrites env mappings n d₁
            simp only [h₁]
            obtain ⟨d₂, h₂, hnext₂, hall₂⟩ | ⟨e, d₂, h₂, hconn, x, hx, hends⟩ := ih d₁
            · rw [h₂] at hdrain
              rw [hnext] at hnext₂ hall₂
              exact .inl ⟨d₂, h₂, hnext₂, AllNew.join hext hdrain hall hall₂⟩
            · rw [h₂] at hdrain
              exact .inr ⟨e, d₂, h₂, hconn, x,
                (DriverState.mem_exchanges_trans hext hdrain).mpr (.inr hx), hends⟩
          · simp only [h₁]
            exact .inr ⟨e, d₁, rfl, hconn, hends⟩

-- ============================================================================
-- Reads
-- ============================================================================

theorem fatal_iff {r : ReadRequest} :
    (readExchange env ctx r d).EndsCycle ↔
      ∃ err, (env.read d.trace ctx r.func r.start r.qty).payload = .error err ∧ isFatal err := by
  show CallResult.fatal _ = true ↔ _
  unfold CallResult.fatal
  cases (env.read d.trace ctx r.func r.start r.qty).payload with
  | ok raw => simp
  | error err => simp

/-- A read fails exactly when its exchange ends the cycle, and then empties
    the slot. -/
theorem readStep_slot (env : Env) (ctx : Nat) (r : ReadRequest) (d : State) :
    (∃ d', readStep env ctx r d = (.ok (), d') ∧ ¬ (readExchange env ctx r d).EndsCycle) ∨
    ∃ e d', readStep env ctx r d = (.error e, d') ∧ d'.conn = none ∧
      (readExchange env ctx r d).EndsCycle := by
  rw [fatal_iff]
  obtain ⟨data, hdata, h⟩ | ⟨err, herr, ⟨hill, h⟩ | ⟨hfat, h⟩ | ⟨-, hfat, h⟩⟩ :=
    readStep_cases env ctx r d
  · refine .inl ⟨_, h, ?_⟩
    rintro ⟨err, herr, -⟩
    rw [hdata] at herr
    exact absurd herr (by simp [CallResult.payload])
  · refine .inl ⟨_, h, ?_⟩
    rintro ⟨err', herr', hfat⟩
    rw [herr] at herr'
    obtain rfl := Except.error.inj herr'
    simp [isFatal, hill] at hfat
  · exact .inr ⟨_, _, h, rfl, err, herr, hfat⟩
  · refine .inl ⟨_, h, ?_⟩
    rintro ⟨err', herr', hfat'⟩
    rw [herr] at herr'
    obtain rfl := Except.error.inj herr'
    exact hfat hfat'

theorem runReads_slot (env : Env) (ctx : Nat) (rs : List ReadRequest) (d : State) :
    (∃ d', runList (readStep env ctx) rs d = (.ok (), d') ∧
      AllNew (Exchange.Continues ctx) d d') ∨
    ∃ e d', runList (readStep env ctx) rs d = (.error e, d') ∧ d'.conn = none ∧
      ∃ x ∈ d.exchanges d', x.EndsCycle := by
  induction rs generalizing d with
  | nil => exact .inl ⟨d, rfl, AllNew.of_trace_eq rfl⟩
  | cons r rs ih =>
      have hext := extends_readStep env ctx r d
      have htrace := trace_readStep env ctx r d
      obtain ⟨d₁, h₁, hgo⟩ | ⟨e, d₁, h₁, hconn, hends⟩ := readStep_slot env ctx r d
      · rw [h₁] at hext htrace
        rw [runList_cons_ok h₁]
        have hrun := extends_runReads env ctx rs d₁
        have hall : AllNew (Exchange.Continues ctx) d d₁ := AllNew.of_singleton htrace ⟨rfl, hgo⟩
        obtain ⟨d₂, h₂, hall₂⟩ | ⟨e, d₂, h₂, hconn, x, hx, hends⟩ := ih d₁
        · rw [h₂] at hrun
          exact .inl ⟨d₂, h₂, AllNew.join hext hrun hall hall₂⟩
        · rw [h₂] at hrun
          exact .inr ⟨e, d₂, h₂, hconn, x,
            (DriverState.mem_exchanges_trans hext hrun).mpr (.inr hx), hends⟩
      · rw [h₁] at htrace
        rw [runList_cons_error h₁]
        refine .inr ⟨e, d₁, rfl, hconn, readExchange env ctx r d, ?_, hends⟩
        rw [DriverState.exchanges_eq htrace]
        exact List.mem_singleton_self _

-- ============================================================================
-- The cycle
-- ============================================================================

/-- After a cycle the slot is empty if an exchange ended the cycle; otherwise
    it holds the one context of all exchanges. -/
theorem runReadCycleImpl_slot (env : Env) (mappings : List ModbusMapping) (d : State) :
    ((∃ x ∈ d.exchanges (runReadCycleImpl env mappings d).2, x.EndsCycle) ∧
      (runReadCycleImpl env mappings d).2.conn = none) ∨
    ∃ ctx, (runReadCycleImpl env mappings d).2.conn = some ctx ∧
      ∀ x ∈ d.exchanges (runReadCycleImpl env mappings d).2, x.Continues ctx := by
  have hdrain := extends_drainWrites env mappings 64 d
  rw [runReadCycleImpl]
  obtain ⟨d₁, h₁, hnext, hall₁⟩ | ⟨e, d₁, h₁, hconn, hends⟩ := drainWrites_slot env mappings 64 d
  · rw [h₁] at hdrain
    have htake := hdrain.trans (DriverState.extends_takeOrConnect d₁)
    have hrun := extends_runReads env (nextCtx d₁) (readPlan env.order mappings) d₁.takeOrConnect.2
    simp only [h₁, readPhase]
    obtain ⟨d₂, h₂, hall₂⟩ | ⟨e, d₂, h₂, hconn, x, hx, hends⟩ :=
      runReads_slot env (nextCtx d₁) (readPlan env.order mappings) d₁.takeOrConnect.2
    · right
      rw [h₂] at hrun
      rw [nextCtx] at h₂ hall₂
      simp only [h₂]
      refine ⟨nextCtx d, congrArg some hnext, ?_⟩
      -- Putting the context back adds no exchange.
      have hall : AllNew (Exchange.Continues (nextCtx d)) d d₂ := by
        refine AllNew.join htake hrun ?_ (by rw [← hnext]; exact hall₂)
        intro xs hxs
        exact hall₁ xs ((DriverState.trace_takeOrConnect d₁).symm.trans hxs)
      exact (DriverState.allNew_iff ((htake.trans hrun).trans (DriverState.extends_putBack d₂ _))).mp
        hall
    · left
      rw [h₂] at hrun
      rw [nextCtx] at h₂
      simp only [h₂]
      exact ⟨⟨x, (DriverState.mem_exchanges_trans htake hrun).mpr (.inr hx), hends⟩, hconn⟩
  · left
    simp only [h₁]
    exact ⟨hends, hconn⟩

/-- No context on which a request of the cycle broke is in the slot, and if
    every request was answered the slot holds the context used. -/
def SlotSafe (d d' : State) : Prop :=
  (∀ x ∈ d.exchanges d', x.Broken → d'.conn ≠ some x.ctx) ∧
  ((∀ x ∈ d.exchanges d', ¬ x.Broken ∧ ¬ x.EndsCycle) →
    ∃ ctx, d'.conn = some ctx ∧ ∀ x ∈ d.exchanges d', x.ctx = ctx)

/-- A cycle keeps the slot safe exactly when every broken request in it is
    recognised as fatal, itself or through another one. -/
theorem slotSafe_iff (env : Env) (mappings : List ModbusMapping) (d : State) :
    SlotSafe d (runReadCycleImpl env mappings d).2 ↔
      ∀ x ∈ d.exchanges (runReadCycleImpl env mappings d).2, x.Broken →
        ∃ y ∈ d.exchanges (runReadCycleImpl env mappings d).2, y.EndsCycle := by
  obtain ⟨hends, hconn⟩ | ⟨ctx, hconn, hgo⟩ := runReadCycleImpl_slot env mappings d
  · refine ⟨fun _ _ _ _ => hends, fun _ => ⟨?_, ?_⟩⟩
    · intro x _ _
      rw [hconn]
      simp
    · intro hanswered
      obtain ⟨y, hy, hy'⟩ := hends
      exact absurd hy' (hanswered y hy).2
  · constructor
    · rintro ⟨hsafe, -⟩ x hx hbroken
      refine absurd ?_ (hsafe x hx hbroken)
      rw [hconn, (hgo x hx).1]
    · intro hcond
      refine ⟨?_, fun _ => ⟨ctx, hconn, fun x hx => (hgo x hx).1⟩⟩
      intro x hx hbroken
      obtain ⟨y, hy, hends⟩ := hcond x hx hbroken
      exact absurd hends (hgo y hy).2

/-- After a broken pipe the context is back in the slot. -/
theorem broken_pipe_kept :
    validate .declared levelMappings = .ok () ∧
    (levelRead (.transport "Broken pipe")).exchanges (runReadCycleImpl
      (.answersOnce (.transport "Broken pipe")) levelMappings (levelRead (.transport "Broken pipe"))).2 =
        [.read 0 .holdingRegisters 0 1 (.transport "Broken pipe")] ∧
    (runReadCycleImpl (.answersOnce (.transport "Broken pipe")) levelMappings
      (levelRead (.transport "Broken pipe"))).2.conn = some 0 ∧
    ¬ SlotSafe (levelRead (.transport "Broken pipe")) (runReadCycleImpl
      (.answersOnce (.transport "Broken pipe")) levelMappings (levelRead (.transport "Broken pipe"))).2 := by
  have hxs : (levelRead (.transport "Broken pipe")).exchanges (runReadCycleImpl
      (.answersOnce (.transport "Broken pipe")) levelMappings (levelRead (.transport "Broken pipe"))).2 =
        [.read 0 .holdingRegisters 0 1 (.transport "Broken pipe")] := by decide +kernel
  have hconn : (runReadCycleImpl (.answersOnce (.transport "Broken pipe")) levelMappings
      (levelRead (.transport "Broken pipe"))).2.conn = some 0 := by decide +kernel
  refine ⟨by decide, hxs, hconn, ?_⟩
  rintro ⟨hsafe, -⟩
  rw [hxs] at hsafe
  exact hsafe _ (List.mem_singleton_self _) rfl hconn

end PlcBridge.Modbus
