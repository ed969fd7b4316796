/-
  PlcBridge.Fins.StrayFrame

  Responses are paired with requests by their place in the byte stream of a
  connection.  A PLC that answers every request, and once sends one frame too
  many, shifts the pairing: from then on each request reads the answer to the
  one before it, whose session id is another one.  The driver keeps the
  connection after a mismatch, so the shift stays.
-/
import PlcBridge.Fins.FaultyAnswers

namespace PlcBridge.Fins

open PlcBridge.Lib
open PlcBridge.DriverState (Extends SameIo)

/-- The connection a request was made on. -/
def Exchange.ctx : Exchange → Nat
  | .read ctx .. => ctx
  | .write ctx .. => ctx

/-- The session id of a request. -/
def Exchange.sid : Exchange → UInt8
  | .read _ sid .. => sid
  | .write _ sid .. => sid

def Exchange.result : Exchange → Transfer
  | .read _ _ _ result => result
  | .write _ _ _ _ _ result => result

theorem Exchange.response_eq (x : Exchange) : x.response = x.result.response x.sid := by
  cases x <;> rfl

-- ============================================================================
-- The PLC
-- ============================================================================

/-- A PLC that answers every request with its session id, end code zero and
    the words asked for.  The answer to the last of the frames received on a
    connection may depend on all of them. -/
structure Plc where
  answer : List (List UInt8) → List UInt8
  long : ∀ sent frame, 14 ≤ (answer (sent ++ [frame])).length
  echoes : ∀ sent frame req, receive frame = some req →
    (answer (sent ++ [frame])).getD 9 0 = req.sid
  endCode : ∀ sent frame, beWord ((answer (sent ++ [frame])).getD 12 0)
    ((answer (sent ++ [frame])).getD 13 0) = 0
  complete : ∀ sent frame req, receive frame = some req → req.write = false →
    (answer (sent ++ [frame])).length = 14 + req.count * 2

/-- The frames sent on a connection. -/
def sentOn (history : List Exchange) (ctx : Nat) : List (List UInt8) :=
  (history.filter fun x => x.ctx = ctx).map Exchange.sent

/-- What the driver reads after sending a frame: on the first connection, the
    frame `stray` comes right before the answer to the request number `p`. -/
def Plc.transfer (plc : Plc) (p : Nat) (stray : List UInt8) (history : List Exchange) (ctx : Nat)
    (frame : List UInt8) : Transfer :=
  if (sentOn history ctx).length < p ∨ ctx ≠ 0 then .answered (plc.answer (sentOn history ctx ++ [frame]))
  else if (sentOn history ctx).length = p then .answered stray
  else .answered (plc.answer (sentOn history ctx))

/-- The driver's surroundings with this PLC. -/
def Plc.env (plc : Plc) (p : Nat) (stray : List UInt8) (chrono : Chrono) (clock : Nat → DateTime) :
    Env where
  chrono := chrono
  clock := clock
  transfer := plc.transfer p stray

theorem Plc.exists_answered (plc : Plc) (p : Nat) (stray : List UInt8) (history : List Exchange)
    (ctx : Nat) (frame : List UInt8) :
    ∃ payload, plc.transfer p stray history ctx frame = .answered payload := by
  unfold Plc.transfer
  split
  · exact ⟨_, rfl⟩
  · split <;> exact ⟨_, rfl⟩

-- ============================================================================
-- Runs
-- ============================================================================

/-- Cycle after cycle, with the write requests that arrive before each; the
    states before and after every cycle.  A panic ends the poller. -/
def runCycles (env : Env) (drv : FinsDriver) : List (List WriteRequest) → State → List (State × State)
  | [], _ => []
  | reqs :: rest, d =>
      let before := { d with queue := d.queue ++ reqs }
      match runReadCycleImpl env drv before with
      | (.panicked, after) => [(before, after)]
      | (.returned, after) => (before, after) :: runCycles env drv rest after

/-- A response of the cycle was discarded for its session id. -/
def Discards (cycle : State × State) : Prop :=
  ∃ x ∈ cycle.1.exchanges cycle.2, x.response = .mismatched

/-- Responses are discarded in one cycle at most, and every read response of
    the cycles after it is accepted, with all its words. -/
structure Recovers (cycles : List (State × State)) : Prop where
  once : ∀ (i j : Nat) (c c' : State × State), cycles[i]? = some c → cycles[j]? = some c' → Discards c → Discards c' → i = j
  after : ∀ (i j : Nat) (c c' : State × State), cycles[i]? = some c → cycles[j]? = some c' → Discards c → i < j →
    ∀ x ∈ c'.1.exchanges c'.2, ∀ g, x.group? = some g →
      ∃ data, x.response = .accepted data ∧ data.length = g.wordCount.toNat * 2

/-- The first request whose response is discarded: the one that reads the
    stray frame, or the next one if the stray frame has the right session
    id. -/
def firstDiscarded (p : Nat) (stray : List UInt8) : Nat :=
  if stray.getD 9 0 = 1 + UInt8.ofNat p then p + 1 else p

-- ============================================================================
-- What stays true of the connection
-- ============================================================================

/-- Requests are numbered through on the first connection, which is never
    dropped, and each has read its place of the stream. -/
structure Paired (plc : Plc) (p : Nat) (stray : List UInt8) (d : State) : Prop where
  session : d.session = 1 + UInt8.ofNat d.trace.length
  conn : d.conn = some 0 ∨ (d.conn = none ∧ d.opened = 0)
  ctx : ∀ x ∈ d.trace, x.ctx = 0
  sid : ∀ n x, d.trace[n]? = some x → x.sid = 1 + UInt8.ofNat n
  result : ∀ n x, d.trace[n]? = some x → x.result = plc.transfer p stray (d.trace.take n) 0 x.sent

variable {plc : Plc} {p : Nat} {stray : List UInt8} {chrono : Chrono} {clock : Nat → DateTime}
  {d d' : State} {drv : FinsDriver} {env : Env}

theorem Paired.new (plc : Plc) (p : Nat) (stray : List UInt8) (registry : TagRegistry)
    (queue : List WriteRequest) : Paired plc p stray (.new registry 1 queue) where
  session := rfl
  conn := .inr ⟨rfl, rfl⟩
  ctx := fun _ h => absurd h (List.not_mem_nil)
  sid := fun _ _ h => absurd h (by simp [DriverState.new])
  result := fun _ _ h => absurd h (by simp [DriverState.new])

theorem Paired.congr (h : Paired plc p stray d) (hsession : d'.session = d.session)
    (hconn : d'.conn = d.conn) (hopened : d'.opened = d.opened) (htrace : d'.trace = d.trace) :
    Paired plc p stray d' where
  session := by rw [hsession, htrace]; exact h.session
  conn := by rw [hconn, hopened]; exact h.conn
  ctx := by rw [htrace]; exact h.ctx
  sid := by rw [htrace]; exact h.sid
  result := by rw [htrace]; exact h.result

theorem Paired.nextCtx (h : Paired plc p stray d) : nextCtx d = 0 := by
  rw [Fins.nextCtx, DriverState.takeOrConnect]
  rcases h.conn with hc | ⟨hc, ho⟩
  · rw [hc]
  · rw [hc, ho]

/-- One more exchange. -/
theorem Paired.exchange (h : Paired plc p stray d) {x : Exchange} (htrace : d'.trace = d.trace ++ [x])
    (hsession : d'.session = d.session + 1) (hconn : d'.conn = some 0) (hctx : x.ctx = 0)
    (hsid : x.sid = d.session) (hresult : x.result = plc.transfer p stray d.trace 0 x.sent) :
    Paired plc p stray d' where
  session := by
    rw [hsession, htrace, h.session, List.length_append, List.length_singleton, UInt8.ofNat_add,
      UInt8.add_assoc]
    rfl
  conn := .inl hconn
  ctx := by
    rw [htrace]
    intro y hy
    rcases List.mem_append.mp hy with hy | hy
    · exact h.ctx y hy
    · rw [List.mem_singleton.mp hy]
      exact hctx
  sid := by
    rw [htrace]
    intro n y hy
    rcases getElem?_concat_cases hy with hy | ⟨rfl, rfl⟩
    · exact h.sid n y hy
    · rw [hsid, h.session]
  result := by
    rw [htrace]
    intro n y hy
    rcases getElem?_concat_cases hy with hy | ⟨rfl, rfl⟩
    · have hn : n ≤ d.trace.length := Nat.le_of_lt (List.getElem?_eq_some_iff.mp hy).1
      rw [List.take_append_of_le_length hn]
      exact h.result n y hy
    · rw [List.take_left]
      exact hresult

/-- Unless the exchange failed, the connection goes back into the slot. -/
theorem finishRead_io (env : Env) (g : ReadGroup) (ctx : Nat) {response : Response}
    (h : ∀ err, response ≠ .lost err) (d : State) :
    SameIo (d.putBack (some ctx)) (finishRead env g ctx response d).2 := by
  cases response with
  | lost err => exact absurd rfl (h err)
  | malformed e => exact DriverState.sameIo_markAll _ _ _
  | mismatched => exact DriverState.sameIo_markAll _ _ _
  | refused code => exact DriverState.sameIo_markAll _ _ _
  | accepted data =>
      rw [finishRead]
      split
      · rw [markShort_eq]
        exact DriverState.sameIo_markAll _ _ _
      · exact sameIo_runExtract env g data _ _

theorem finishWrite_io (env : Env) (m : TagMapping) (req : WriteRequest) (ctx : Nat)
    {response : Response} (h : ∀ err, response ≠ .lost err) (d : State) :
    (finishWrite env m req ctx response d).conn = some ctx ∧
      (finishWrite env m req ctx response d).session = d.session := by
  cases response with
  | lost err => exact absurd rfl (h err)
  | _ => exact ⟨rfl, rfl⟩

theorem not_lost_of_answered {x : Exchange} {payload : List UInt8} (h : x.result = .answered payload)
    (err : String) : x.response ≠ .lost err := by
  rw [x.response_eq, h, Transfer.response]
  split
  · simp
  · split
    · simp
    · split <;> simp

theorem session_afterRead (env : Env) (g : ReadGroup) (d : State) :
    (afterRead env g d).session = d.session + 1 := DriverState.session_takeOrConnect (drawSid d)

theorem session_afterWrite (env : Env) (m : TagMapping) (req : WriteRequest) (d : State) :
    (afterWrite env m req d).session = d.session + 1 := DriverState.session_takeOrConnect (drawSid d)

theorem paired_readStep (henv : env.transfer = plc.transfer p stray) (h : Paired plc p stray d)
    (g : ReadGroup) : Paired plc p stray (readStep env g d).2 := by
  have hresult : (readExchange env g d).result =
      plc.transfer p stray d.trace 0 (readExchange env g d).sent := by
    rw [← h.nextCtx, ← henv]
    rfl
  obtain ⟨payload, hans⟩ := plc.exists_answered p stray d.trace 0 (readExchange env g d).sent
  have hio := finishRead_io env g (nextCtx d) (not_lost_of_answered (hresult.trans hans))
    (afterRead env g d)
  refine h.exchange (trace_readStep env g d) ?_ ?_ h.nextCtx rfl hresult
  · rw [readStep_eq, hio.session]
    exact session_afterRead env g d
  · rw [readStep_eq, hio.conn]
    exact congrArg some h.nextCtx

theorem paired_processWrite (henv : env.transfer = plc.transfer p stray) (h : Paired plc p stray d)
    (mappings : List TagMapping) (req : WriteRequest) :
    Paired plc p stray (processWrite env mappings req d) := by
  obtain ⟨msg, heq⟩ | ⟨m, -, -, heq⟩ := processWrite_cases env mappings req d
  · rw [heq]
    exact h.congr rfl rfl rfl rfl
  · have hresult : (writeExchange env m req d).result =
        plc.transfer p stray d.trace 0 (writeExchange env m req d).sent := by
      rw [← h.nextCtx, ← henv]
      rfl
    obtain ⟨payload, hans⟩ := plc.exists_answered p stray d.trace 0 (writeExchange env m req d).sent
    have hio := finishWrite_io env m req (nextCtx d) (not_lost_of_answered (hresult.trans hans))
      (afterWrite env m req d)
    rw [heq]
    refine h.exchange (trace_sendWrite env m req d) ?_ ?_ h.nextCtx rfl hresult
    · rw [sendWrite_eq, hio.2]
      exact session_afterWrite env m req d
    · rw [sendWrite_eq, hio.1]
      exact congrArg some h.nextCtx

theorem paired_drainWrites (henv : env.transfer = plc.transfer p stray) (h : Paired plc p stray d)
    (mappings : List TagMapping) (n : Nat) : Paired plc p stray (drainWrites env mappings n d) := by
  induction n generalizing d with
  | zero => exact h
  | succ n ih =>
      rw [drainWrites]
      cases hq : d.queue with
      | nil => exact h
      | cons req rest =>
          have hpop : Paired plc p stray { d with queue := rest } := h.congr rfl rfl rfl rfl
          exact ih (paired_processWrite henv hpop mappings req)

theorem paired_ensureConnected (h : Paired plc p stray d) : Paired plc p stray (ensureConnected d) where
  session := by
    have hsession : (ensureConnected d).session = d.session := DriverState.session_takeOrConnect d
    rw [hsession, trace_ensureConnected]
    exact h.session
  conn := .inl (congrArg some h.nextCtx)
  ctx := by rw [trace_ensureConnected]; exact h.ctx
  sid := by rw [trace_ensureConnected]; exact h.sid
  result := by rw [trace_ensureConnected]; exact h.result

/-- A cycle keeps the pairing. -/
theorem paired_cycle (henv : env.transfer = plc.transfer p stray) (h : Paired plc p stray d)
    (drv : FinsDriver) : Paired plc p stray (runReadCycleImpl env drv d).2 := by
  rw [(runReadCycleImpl_eq env drv d).1]
  have hbefore := paired_drainWrites henv (paired_ensureConnected h) drv.mappings 64
  exact runList_invariant (I := Paired plc p stray) (fun g _ _ hd => paired_readStep henv hd g) hbefore

-- ============================================================================
-- The responses
-- ============================================================================

/-- The PLC finds the session id in the frame. -/
theorem Exchange.receive_sent (x : Exchange) : ∃ req, receive x.sent = some req ∧ req.sid = x.sid ∧
    ∀ g, x.group? = some g → req.write = false ∧ req.count = g.wordCount.toNat := by
  cases x with
  | read ctx sid g result =>
      refine ⟨_, receive_readFrame .., rfl, ?_⟩
      intro g' hg'
      obtain rfl := Option.some.inj hg'
      exact ⟨rfl, rfl⟩
  | write ctx sid req m words result =>
      refine ⟨_, receive_writeFrame .., rfl, ?_⟩
      intro g' hg'
      exact absurd hg' (by simp [Exchange.group?])

theorem response_mismatched_iff {payload : List UInt8} (hlong : 14 ≤ payload.length) (sid : UInt8) :
    (Transfer.answered payload).response sid = .mismatched ↔ payload.getD 9 0 ≠ sid := by
  rw [response_answered hlong]
  by_cases hsid : payload.getD 9 0 = sid
  · rw [if_neg (not_not.mpr hsid)]
    refine ⟨fun h => ?_, fun h => absurd hsid h⟩
    split at h <;> exact absurd h (by simp)
  · rw [if_pos hsid]
    exact ⟨fun _ => hsid, fun _ => rfl⟩

/-- The frames sent before an exchange. -/
theorem Paired.sentOn_take (h : Paired plc p stray d) {n : Nat} {x : Exchange}
    (hx : d.trace[n]? = some x) :
    sentOn (d.trace.take n) 0 = (d.trace.take n).map Exchange.sent ∧
      (sentOn (d.trace.take n) 0).length = n := by
  have hn := (List.getElem?_eq_some_iff.mp hx).1
  have hsent : sentOn (d.trace.take n) 0 = (d.trace.take n).map Exchange.sent := by
    rw [sentOn, List.filter_eq_self.mpr]
    intro y hy
    exact decide_eq_true (h.ctx y (List.mem_of_mem_take hy))
  refine ⟨hsent, ?_⟩
  rw [hsent, List.length_map, List.length_take]
  omega

/-- Before the stray frame every response is accepted. -/
theorem Paired.accepted (h : Paired plc p stray d) {n : Nat} {x : Exchange} (hx : d.trace[n]? = some x)
    (hn : n < p) : ∃ data, x.response = .accepted data ∧
      ∀ g, x.group? = some g → data.length = g.wordCount.toNat * 2 := by
  obtain ⟨req, hreq, hsid, hread⟩ := x.receive_sent
  have hlen := (h.sentOn_take hx).2
  have hlong := plc.long (sentOn (d.trace.take n) 0) x.sent
  have hecho := plc.echoes (sentOn (d.trace.take n) 0) x.sent req hreq
  have hcode := plc.endCode (sentOn (d.trace.take n) 0) x.sent
  refine ⟨(plc.answer (sentOn (d.trace.take n) 0 ++ [x.sent])).drop 14, ?_, ?_⟩
  · rw [x.response_eq, h.result n x hx, Plc.transfer, if_pos (.inl (by omega)), response_answered hlong,
      if_neg (not_not.mpr (hecho.trans hsid)), if_neg (not_not.mpr hcode)]
  · intro g hg
    obtain ⟨hwrite, hcount⟩ := hread g hg
    rw [List.length_drop, plc.complete _ _ req hreq hwrite, hcount]
    omega

/-- The stray frame is discarded unless it has the right session id. -/
theorem Paired.stray_mismatched_iff (h : Paired plc p stray d) (hstray : 14 ≤ stray.length)
    {x : Exchange} (hx : d.trace[p]? = some x) :
    x.response = .mismatched ↔ stray.getD 9 0 ≠ 1 + UInt8.ofNat p := by
  have hlen := (h.sentOn_take hx).2
  rw [x.response_eq, h.result p x hx, Plc.transfer, if_neg (by omega), if_pos hlen,
    response_mismatched_iff hstray, h.sid p x hx]

/-- Behind the stray frame every response is the previous request's. -/
theorem Paired.mismatched (h : Paired plc p stray d) {n : Nat} {x : Exchange}
    (hx : d.trace[n]? = some x) (hn : p < n) : x.response = .mismatched := by
  obtain ⟨hsent, hlen⟩ := h.sentOn_take hx
  obtain ⟨k, rfl⟩ : ∃ k, n = k + 1 := ⟨n - 1, by omega⟩
  have hk : k < d.trace.length := by
    have := (List.getElem?_eq_some_iff.mp hx).1
    omega
  obtain ⟨y, hy⟩ : ∃ y, d.trace[k]? = some y := ⟨_, List.getElem?_eq_getElem hk⟩
  have hlast : sentOn (d.trace.take (k + 1)) 0 = (d.trace.take k).map Exchange.sent ++ [y.sent] := by
    rw [hsent, List.take_add_one, hy, List.map_append]
    rfl
  obtain ⟨req, hreq, hsid, -⟩ := y.receive_sent
  have hold : (plc.answer (sentOn (d.trace.take (k + 1)) 0)).getD 9 0 = 1 + UInt8.ofNat k := by
    rw [hlast, plc.echoes _ _ req hreq, hsid, h.sid k y hy]
  have hlong : 14 ≤ (plc.answer (sentOn (d.trace.take (k + 1)) 0)).length := by
    rw [hlast]
    exact plc.long _ _
  rw [x.response_eq, h.result (k + 1) x hx, Plc.transfer, if_neg (by omega), if_neg (by omega),
    response_mismatched_iff hlong, h.sid (k + 1) x hx, hold, UInt8.ofNat_add]
  intro hsame
  have hnat := congrArg UInt8.toNat hsame
  simp only [UInt8.toNat_add, UInt8.reduceOfNat, UInt8.reduceToNat] at hnat
  omega

/-- The discarded responses are those from `firstDiscarded` on. -/
theorem Paired.mismatched_iff (h : Paired plc p stray d) (hstray : 14 ≤ stray.length) {n : Nat}
    {x : Exchange} (hx : d.trace[n]? = some x) :
    x.response = .mismatched ↔ firstDiscarded p stray ≤ n := by
  have hbounds : p ≤ firstDiscarded p stray ∧ firstDiscarded p stray ≤ p + 1 := by
    unfold firstDiscarded
    split <;> omega
  rcases Nat.lt_trichotomy n p with hlt | rfl | hgt
  · obtain ⟨data, hdata, -⟩ := h.accepted hx hlt
    rw [hdata]
    exact ⟨fun h => absurd h (by simp), fun h => by omega⟩
  · rw [h.stray_mismatched_iff hstray hx, firstDiscarded]
    split
    · exact ⟨fun h => absurd ‹_› h, fun h => by omega⟩
    · exact ⟨fun _ => le_rfl, fun _ => ‹_›⟩
  · exact ⟨fun _ => by omega, fun _ => h.mismatched hx hgt⟩

-- ============================================================================
-- Cycles in a row
-- ============================================================================

/-- Each cycle starts where the one before it ended, but for write requests
    that arrived in between. -/
inductive Chained (env : Env) (drv : FinsDriver) : State → List (State × State) → Prop where
  | nil (d : State) : Chained env drv d []
  | cons (d : State) (reqs : List WriteRequest) {cs : List (State × State)} :
      Chained env drv (runReadCycleImpl env drv { d with queue := d.queue ++ reqs }).2 cs →
      Chained env drv d (({ d with queue := d.queue ++ reqs },
        (runReadCycleImpl env drv { d with queue := d.queue ++ reqs }).2) :: cs)

theorem chained_runCycles (env : Env) (drv : FinsDriver) (arrivals : List (List WriteRequest))
    (d : State) : Chained env drv d (runCycles env drv arrivals d) := by
  induction arrivals generalizing d with
  | nil => exact .nil d
  | cons reqs rest ih =>
      have hcons := @Chained.cons env drv d reqs
      rw [runCycles]
      cases hrun : runReadCycleImpl env drv { d with queue := d.queue ++ reqs } with
      | mk outcome after =>
          rw [hrun] at hcons
          cases outcome with
          | returned => exact hcons (ih after)
          | panicked => exact hcons (.nil after)

variable {cycles : List (State × State)} {i j : Nat} {c c' : State × State}

/-- The pairing holds before and after every cycle. -/
theorem Chained.paired (hc : Chained env drv d cycles) (henv : env.transfer = plc.transfer p stray)
    (h : Paired plc p stray d) : ∀ c ∈ cycles, Paired plc p stray c.1 ∧
      c.2 = (runReadCycleImpl env drv c.1).2 ∧ Paired plc p stray c.2 := by
  induction hc with
  | nil => exact fun c hc => absurd hc (List.not_mem_nil)
  | cons d reqs _ ih =>
      have hbefore : Paired plc p stray { d with queue := d.queue ++ reqs } := h.congr rfl rfl rfl rfl
      have hafter := paired_cycle henv hbefore drv
      exact List.forall_mem_cons.mpr ⟨⟨hbefore, rfl, hafter⟩, ih hafter⟩

theorem Chained.start_le (hc : Chained env drv d cycles) (hi : cycles[i]? = some c) :
    d.trace.length ≤ c.1.trace.length ∧ c.1.trace.length ≤ c.2.trace.length := by
  induction hc generalizing i with
  | nil => exact absurd hi (by simp)
  | cons d reqs _ ih =>
      have hcycle := (extends_runReadCycleImpl env drv { d with queue := d.queue ++ reqs }).trace.length_le
      cases i with
      | zero =>
          obtain rfl := Option.some.inj hi
          exact ⟨le_rfl, hcycle⟩
      | succ i => exact ⟨hcycle.trans (ih hi).1, (ih hi).2⟩

/-- A later cycle starts where an earlier one ended, or behind. -/
theorem Chained.end_le (hc : Chained env drv d cycles) (hi : cycles[i]? = some c)
    (hj : cycles[j]? = some c') (hij : i < j) : c.2.trace.length ≤ c'.1.trace.length := by
  induction hc generalizing i j with
  | nil => exact absurd hi (by simp)
  | cons d reqs htail ih =>
      obtain ⟨j, rfl⟩ : ∃ k, j = k + 1 := ⟨j - 1, by omega⟩
      cases i with
      | zero =>
          obtain rfl := Option.some.inj hi
          exact (htail.start_le hj).1
      | succ i => exact ih hi hj (by omega)

/-- The exchanges made before a cycle were made in earlier ones. -/
theorem Chained.exists_earlier (hc : Chained env drv d cycles) (hj : cycles[j]? = some c') {n : Nat}
    (hstart : d.trace.length ≤ n) (hn : n < c'.1.trace.length) :
    ∃ i c, i < j ∧ cycles[i]? = some c ∧ c.1.trace.length ≤ n ∧ n < c.2.trace.length := by
  induction hc generalizing j with
  | nil => exact absurd hj (by simp)
  | cons d reqs _ ih =>
      cases j with
      | zero =>
          obtain rfl := Option.some.inj hj
          exact absurd hn (Nat.not_lt.mpr hstart)
      | succ j =>
          rcases Nat.lt_or_ge n
            (runReadCycleImpl env drv { d with queue := d.queue ++ reqs }).2.trace.length with hlt | hge
          · exact ⟨0, _, by omega, rfl, hstart, hlt⟩
          · obtain ⟨i, c, hi, hc, hbounds⟩ := ih hj hge
            exact ⟨i + 1, c, by omega, hc, hbounds⟩

/-- A cycle discards responses exactly when it makes a request from
    `firstDiscarded` on. -/
theorem discards_iff (hstray : 14 ≤ stray.length) (h : Paired plc p stray c.2) :
    Discards c ↔ ∃ n, c.1.trace.length ≤ n ∧ firstDiscarded p stray ≤ n ∧ n < c.2.trace.length := by
  constructor
  · rintro ⟨x, hx, hresp⟩
    obtain ⟨n, hn, hget⟩ := DriverState.mem_exchanges_iff.mp hx
    exact ⟨n, hn, (h.mismatched_iff hstray hget).mp hresp, (List.getElem?_eq_some_iff.mp hget).1⟩
  · rintro ⟨n, hn, hfirst, hlt⟩
    have hget := List.getElem?_eq_getElem hlt
    exact ⟨_, DriverState.mem_exchanges_iff.mpr ⟨n, hn, hget⟩,
      (h.mismatched_iff hstray hget).mpr hfirst⟩

/-- A driver with read groups makes a request in every cycle. -/
theorem length_trace_cycle_lt (hgroups : drv.readGroups ≠ []) (env : Env) (d : State) :
    d.trace.length < (runReadCycleImpl env drv d).2.trace.length := by
  obtain ⟨g, gs, hcons⟩ := List.exists_cons_of_ne_nil hgroups
  have hbefore := (extends_beforeReads env drv d).trace.length_le
  have hstep := congrArg List.length (trace_readStep env g (beforeReads env drv d))
  rw [List.length_append, List.length_singleton] at hstep
  rw [(runReadCycleImpl_eq env drv d).1, hcons]
  rcases except_cases (readStep env g (beforeReads env drv d)) with ⟨d₁, hok⟩ | ⟨e, d₁, herr⟩
  · have hrest := (extends_runReads env gs d₁).trace.length_le
    simp only [hok] at hstep
    rw [runList_cons_ok hok]
    omega
  · simp only [herr] at hstep
    rw [runList_cons_error herr]
    show d.trace.length < d₁.trace.length
    omega

/-- The driver recovers in the runs in which no cycle starts after a response
    was discarded, and (if it has anything to read) in no other. -/
theorem recovers_from_stray_iff (plc : Plc) (p : Nat) {stray : List UInt8} (hstray : 14 ≤ stray.length)
    (chrono : Chrono) (clock : Nat → DateTime) (drv : FinsDriver) (registry : TagRegistry)
    (arrivals : List (List WriteRequest)) :
    ((∀ c ∈ runCycles (plc.env p stray chrono clock) drv arrivals (.new registry 1 []),
        c.1.trace.length ≤ firstDiscarded p stray) →
      Recovers (runCycles (plc.env p stray chrono clock) drv arrivals (.new registry 1 []))) ∧
    (drv.readGroups ≠ [] →
      Recovers (runCycles (plc.env p stray chrono clock) drv arrivals (.new registry 1 [])) →
      ∀ c ∈ runCycles (plc.env p stray chrono clock) drv arrivals (.new registry 1 []),
        c.1.trace.length ≤ firstDiscarded p stray) := by
  have hchain := chained_runCycles (plc.env p stray chrono clock) drv arrivals (.new registry 1 [])
  have hpaired := hchain.paired rfl (.new plc p stray registry [])
  generalize runCycles (plc.env p stray chrono clock) drv arrivals (.new registry 1 []) = cycles
    at hchain hpaired ⊢
  constructor
  · intro hstart
    -- A discarding cycle is the last one.
    have hlast : ∀ (i j : Nat) (c c' : State × State), cycles[i]? = some c → cycles[j]? = some c' →
        Discards c → ¬ i < j := by
      intro i j c c' hi hj hd hij
      obtain ⟨n, -, hfirst, hn⟩ :=
        (discards_iff hstray (hpaired c (List.mem_of_getElem? hi)).2.2).mp hd
      have hend := hchain.end_le hi hj hij
      have hle := hstart c' (List.mem_of_getElem? hj)
      omega
    refine ⟨fun i j c c' hi hj hd hd' => ?_, fun i j c c' hi hj hd hij => ?_⟩
    · have h₁ := hlast i j c c' hi hj hd
      have h₂ := hlast j i c' c hj hi hd'
      omega
    · exact absurd hij (hlast i j c c' hi hj hd)
  · intro hgroups hrec c' hc'
    by_contra hlate
    obtain ⟨j, hj⟩ := List.mem_iff_getElem?.mp hc'
    obtain ⟨-, hafter, hpair'⟩ := hpaired c' hc'
    obtain ⟨i, c, hij, hi, hn⟩ := hchain.exists_earlier hj (Nat.zero_le _) (Nat.not_le.mp hlate)
    have hd : Discards c := (discards_iff hstray (hpaired c (List.mem_of_getElem? hi)).2.2).mpr
      ⟨_, hn.1, le_rfl, hn.2⟩
    have hd' : Discards c' := by
      refine (discards_iff hstray hpair').mpr ⟨_, le_rfl, by omega, ?_⟩
      rw [hafter]
      exact length_trace_cycle_lt hgroups _ _
    have hsame := hrec.once i j c c' hi hj hd hd'
    omega

/-- The answer of a PLC whose memory is zero. -/
def zeroAnswer (frame : List UInt8) : List UInt8 :=
  match receive frame with
  | some req => okResponse req.sid (0x01, 0x01) (List.replicate (if req.write then 0 else req.count * 2) 0)
  | none => okResponse 0 (0x01, 0x01) []

theorem long_zeroAnswer (frame : List UInt8) : 14 ≤ (zeroAnswer frame).length := by
  unfold zeroAnswer
  split
  · simp only [okResponse, List.length_append, List.length_cons, List.length_nil]
    omega
  · decide

theorem endCode_zeroAnswer (frame : List UInt8) :
    beWord ((zeroAnswer frame).getD 12 0) ((zeroAnswer frame).getD 13 0) = 0 := by
  unfold zeroAnswer
  split
  · show beWord 0x00 0x00 = 0
    decide
  · decide

theorem length_zeroAnswer {frame : List UInt8} {req : MemoryRequest} (h : receive frame = some req)
    (hread : req.write = false) : (zeroAnswer frame).length = 14 + req.count * 2 := by
  rw [zeroAnswer, h]
  simp only [okResponse, hread, Bool.false_eq_true, if_false, List.length_append, List.length_cons,
    List.length_nil, List.length_replicate]

def Plc.zeros : Plc where
  answer := fun sent => zeroAnswer (sent.getLast?.getD [])
  long := fun sent frame => by rw [List.getLast?_concat]; exact long_zeroAnswer frame
  echoes := fun sent frame req h => by
    rw [List.getLast?_concat, Option.getD_some, zeroAnswer, h]
    rfl
  endCode := fun sent frame => by rw [List.getLast?_concat]; exact endCode_zeroAnswer frame
  complete := fun sent frame req h hread => by
    rw [List.getLast?_concat]
    exact length_zeroAnswer h hread

/-- A second answer to the first request. -/
def strayFrame : List UInt8 := okResponse 1 (0x01, 0x01) [0, 0]

/-- Three cycles over one read group; the stray frame comes before the answer
    to the second request. -/
def strayCycles : List (State × State) :=
  runCycles (Plc.zeros.env 1 strayFrame .rejecting fun _ => .unixEpoch) (newDriver [levelMapping])
    [[], [], []] (.new plantState.registry 1 [])

theorem recovers_from_stray_iff_level :
    ((∀ c ∈ strayCycles, c.1.trace.length ≤ firstDiscarded 1 strayFrame) → Recovers strayCycles) ∧
    ((newDriver [levelMapping]).readGroups ≠ [] → Recovers strayCycles →
      ∀ c ∈ strayCycles, c.1.trace.length ≤ firstDiscarded 1 strayFrame) :=
  recovers_from_stray_iff .zeros 1 (by decide) _ _ _ _ _

instance (c : State × State) : Decidable (Discards c) :=
  inferInstanceAs (Decidable (∃ x ∈ c.1.exchanges c.2, x.response = .mismatched))

/-- The second and the third cycle both discard their response. -/
theorem stray_frame_shifts :
    validate .ascending [levelMapping] = .ok () ∧
    FinsDriver.new ⟨[levelMapping], 960⟩ = some (newDriver [levelMapping]) ∧
    ¬ Recovers strayCycles := by
  refine ⟨by decide +kernel, by rfl, fun hrec => ?_⟩
  have hsecond : (strayCycles[1]?).any (fun c => Discards c) = true := by decide +kernel
  have hthird : (strayCycles[2]?).any (fun c => Discards c) = true := by decide +kernel
  obtain ⟨c, hc, hd⟩ := (Option.any_eq_true ..).mp hsecond
  obtain ⟨c', hc', hd'⟩ := (Option.any_eq_true ..).mp hthird
  exact absurd (hrec.once 1 2 c c' hc hc' (of_decide_eq_true hd) (of_decide_eq_true hd')) (by decide)

end PlcBridge.Fins
