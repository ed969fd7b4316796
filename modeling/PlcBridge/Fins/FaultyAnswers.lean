/-
  PlcBridge.Fins.FaultyAnswers

  What one bad answer does to the FINS driver: the payloads on which
  `decode_and_update_tag` panics, and the answers that keep a cycle from
  reading the groups behind them.
-/
import PlcBridge.Driver.ReadBack
import PlcBridge.Fins.Staleness

namespace PlcBridge.Fins

open PlcBridge.Lib
open PlcBridge.DriverState (Extends AllNew)

variable {env : Env} {g : ReadGroup} {data : List UInt8} {d : State} {m : TagMapping}

-- ============================================================================
-- Payloads
-- ============================================================================

/-- `decode_and_update_tag` returns: the shift of a `Bool` stays inside the
    word, nothing panics, and a failure leaves the registry alone. -/
structure DecodeReturns (env : Env) (m : TagMapping) (bytes : List UInt8) (d : State) : Prop where
  shift : m.dataType = .bool → m.bitOffset.toNat < 16
  calm : (decodeAndUpdateTag env m bytes d).1 ≠ .panicked
  unchanged : ∀ e, (decodeAndUpdateTag env m bytes d).1 = .failed e →
    (decodeAndUpdateTag env m bytes d).2.registry = d.registry

/-- The bytes are no `DateTime` beyond the last instant of chrono. -/
def TagMapping.Representable (m : TagMapping) (bytes : List UInt8) : Prop :=
  m.dataType = .dateTime → 8 ≤ bytes.length →
    ((u64At (applyByteOrder bytes m.byteOrder)).toNat : Int) ≤ maxTimestampMillis

theorem decode_ne_panicked_iff {chrono : Chrono} {bytes : List UInt8} :
    decodeBytes chrono m.dataType m.bitOffset (applyByteOrder bytes m.byteOrder) ≠ .panicked ↔
      m.Representable bytes := by
  rw [decodeBytes_ne_panicked_iff, length_applyByteOrder]
  rfl

/-- Only a registered tag is decoded. -/
theorem decodeAndUpdateTag_ne_panicked_iff {bytes : List UInt8} :
    (decodeAndUpdateTag env m bytes d).1 ≠ .panicked ↔
      ((d.dataType? m.tagId).isSome → m.Representable bytes) := by
  rw [← @decode_ne_panicked_iff m env.chrono, decodeAndUpdateTag]
  cases hdef : d.registry.getDefinition m.tagId with
  | error e =>
      have hnone : ¬ (d.dataType? m.tagId).isSome := by
        intro hsome
        obtain ⟨dt, hdt⟩ := Option.isSome_iff_exists.mp hsome
        obtain ⟨def_, hok, -⟩ := TagRegistry.dataType?_eq_some.mp hdt
        rw [hdef] at hok
        exact absurd hok (by simp)
      exact ⟨fun _ h => absurd h hnone, fun _ => by simp⟩
  | ok def_ =>
      have hsome : (d.dataType? m.tagId).isSome :=
        Option.isSome_iff_exists.mpr ⟨_, TagRegistry.dataType?_eq_some.mpr ⟨def_, hdef, rfl⟩⟩
      simp only
      cases hres : decodeBytes env.chrono m.dataType m.bitOffset (applyByteOrder bytes m.byteOrder) with
      | done v => exact ⟨fun _ _ => by simp, fun _ => by simp⟩
      | failed e => exact ⟨fun _ _ => by simp, fun _ => by simp⟩
      | panicked => exact ⟨fun h => absurd rfl h, fun h => absurd rfl (h hsome)⟩

theorem registry_of_failed {bytes : List UInt8} {e : DriverError}
    (h : (decodeAndUpdateTag env m bytes d).1 = .failed e) :
    (decodeAndUpdateTag env m bytes d).2.registry = d.registry := by
  unfold decodeAndUpdateTag at h ⊢
  split at h
  · rfl
  · split at h
    · exact absurd h (by simp)
    · rfl
    · exact absurd h (by simp)

theorem decodeReturns_iff {dt : TagDataType} {bytes : List UInt8} (hm : m.Ok)
    (hreg : d.Registered m.tagId dt) : DecodeReturns env m bytes d ↔ m.Representable bytes := by
  have hsome : (d.dataType? m.tagId).isSome := by
    rw [hreg.1]
    rfl
  constructor
  · intro h
    exact decodeAndUpdateTag_ne_panicked_iff.mp h.calm hsome
  · intro h
    exact ⟨fun _ => hm.bit_lt, decodeAndUpdateTag_ne_panicked_iff.mpr fun _ => h,
      fun _ he => registry_of_failed he⟩

/-- Milliseconds before 1970 are numbers beyond chrono's range. -/
theorem toNat_timestampMillis (t : DateTime) :
    ((t.timestampMillis.toUInt64).toNat : Int) ≤ maxTimestampMillis ↔ 0 ≤ t.timestampMillis.toInt := by
  have hmin := t.min_le
  have hmax := t.le_max
  have hms := t.timestampMillis_toInt
  have hlt := t.timestampMillis.toUInt64.toNat_lt
  have hbits : t.timestampMillis.toInt =
      if 2 * t.timestampMillis.toUInt64.toNat < 2 ^ 64 then (t.timestampMillis.toUInt64.toNat : Int)
      else t.timestampMillis.toUInt64.toNat - (2 ^ 64 : Nat) :=
    BitVec.toInt_eq_toNat_cond t.timestampMillis.toBitVec
  simp only [minTimestampMillis, maxTimestampMillis] at hmin hmax ⊢
  split at hbits <;> omega

/-- What was written comes back in standard order. -/
theorem applyByteOrder_writeWords (m : TagMapping) (v : TagValue) :
    applyByteOrder (beBytes (m.writeWords v)) m.byteOrder = beBytes (standardWords v) := by
  rw [writeWords_eq, applyByteOrder_beBytes, WordOrder.onWords_self]

theorem representable_written (hdt : m.dataType = .dateTime) (t : DateTime) :
    m.Representable (beBytes (m.writeWords (.dateTime t))) ↔ 0 ≤ t.timestampMillis.toInt := by
  have hlen : 8 ≤ (beBytes (m.writeWords (.dateTime t))).length := by
    rw [length_beBytes, writeWords_eq, WordOrder.length_onWords]
    exact le_rfl
  have hms : u64At (beBytes (standardWords (.dateTime t))) = t.timestampMillis.toUInt64 := by
    have hwords := u64At_wordsOfU64 t.timestampMillis.toUInt64 []
    rwa [List.append_nil] at hwords
  rw [TagMapping.Representable, applyByteOrder_writeWords, hms, toNat_timestampMillis]
  exact ⟨fun h => h hdt hlen, fun h _ _ => h⟩

/-- Decoding returns on every payload that is not a `DateTime` beyond the last
    instant of chrono; among the words the driver itself writes, these are the
    instants before 1970. -/
theorem decode_returns_iff {order : AreaOrder} {mappings : List TagMapping}
    (hv : validate order mappings = .ok ()) (hm : m ∈ mappings) {dt : TagDataType}
    (hreg : d.Registered m.tagId dt) (env : Env) :
    (∀ bytes, DecodeReturns env m bytes d ↔
      (m.dataType = .dateTime → 8 ≤ bytes.length →
        ((u64At (applyByteOrder bytes m.byteOrder)).toNat : Int) ≤ maxTimestampMillis)) ∧
    (m.dataType = .dateTime → ∀ t, DecodeReturns env m (beBytes (m.writeWords (.dateTime t))) d ↔
      0 ≤ t.timestampMillis.toInt) := by
  have hok := (of_validate hv).1 m hm
  refine ⟨fun bytes => decodeReturns_iff hok hreg, fun hdt t => ?_⟩
  rw [decodeReturns_iff hok hreg, representable_written hdt]

/-- A writable instant in four words of the D area. -/
def startedMapping : TagMapping :=
  { tagId := "started", area := 0x82, address := 0, wordCount := 4, dataType := .dateTime, writable := true }

def startedState : State := .new (.ofDefinitions [.new "started" "started" "0" .dateTime "plc"]) 1 []

/-- 1969-12-31T23:59:59.999Z. -/
def beforeEpoch : DateTime := ⟨-1000000, by decide, by decide⟩

theorem registered_startedState : startedState.Registered "started" .dateTime :=
  ⟨by decide +kernel, by decide +kernel⟩

theorem decode_returns_iff_started :
    (∀ bytes, DecodeReturns (.answersFirst 0) startedMapping bytes startedState ↔
      (startedMapping.dataType = .dateTime → 8 ≤ bytes.length →
        ((u64At (applyByteOrder bytes startedMapping.byteOrder)).toNat : Int) ≤ maxTimestampMillis)) ∧
    (startedMapping.dataType = .dateTime → ∀ t,
      DecodeReturns (.answersFirst 0) startedMapping (beBytes (startedMapping.writeWords (.dateTime t)))
        startedState ↔ 0 ≤ t.timestampMillis.toInt) :=
  @decode_returns_iff _ _ .ascending [startedMapping] (by decide +kernel) (List.mem_singleton_self _)
    .dateTime registered_startedState _

/-- The driver panics on the words it wrote for an instant before 1970. -/
theorem decode_panics_on_written :
    validate .ascending [startedMapping] = .ok () ∧ startedState.Registered startedMapping.tagId .dateTime ∧
    ¬ DecodeReturns (.answersFirst 0) startedMapping
      (beBytes (startedMapping.writeWords (.dateTime beforeEpoch))) startedState := by
  refine ⟨by decide +kernel, registered_startedState, fun h => h.calm ?_⟩
  decide +kernel

-- ============================================================================
-- Answers that end a cycle
-- ============================================================================

/-- A frame of at least 14 bytes arrived, with the request's session id. -/
def Transfer.Echoes (sid : UInt8) : Transfer → Prop
  | .answered payload => 14 ≤ payload.length ∧ payload.getD 9 0 = sid
  | _ => False

def Exchange.Echoed : Exchange → Prop
  | .read _ sid _ result => result.Echoes sid
  | .write _ sid _ _ _ result => result.Echoes sid

/-- The read group of a read request. -/
def Exchange.group? : Exchange → Option ReadGroup
  | .read _ _ g _ => some g
  | .write .. => none

/-- The bytes of a mapping in the data of a response. -/
def ReadGroup.slice (g : ReadGroup) (data : List UInt8) (m : TagMapping) : List UInt8 :=
  (data.drop (g.overlapBytes m).1).take (g.overlapBytes m).2

/-- Nothing to decode, no tag to decode it for, or bytes the decoder does not
    panic on. -/
def ReadGroup.Extractable (g : ReadGroup) (types : String → Option TagDataType) (data : List UInt8)
    (m : TagMapping) : Prop :=
  ¬ g.Misses m → (g.overlapBytes m).1 + (g.overlapBytes m).2 ≤ data.length →
    (types m.tagId).isSome → m.Representable (g.slice data m)

/-- The answer has end code zero and its data is extracted without a panic. -/
def Exchange.Harmless (types : String → Option TagDataType) : Exchange → Prop
  | .read _ _ g (.answered payload) =>
      beWord (payload.getD 12 0) (payload.getD 13 0) = 0 ∧
      (g.wordCount.toNat * 2 ≤ (payload.drop 14).length →
        ∀ m ∈ g.mappings, g.Extractable types (payload.drop 14) m)
  | _ => True

theorem extractMapping_ok_iff :
    (extractMapping env g data m d).1 = .ok () ↔ g.Extractable d.dataType? data m := by
  rw [extractMapping]
  by_cases hmiss : g.Misses m
  · rw [if_pos hmiss]
    exact ⟨fun _ h => absurd hmiss h, fun _ => rfl⟩
  rw [if_neg hmiss]
  simp only
  by_cases hshort : data.length < (g.overlapBytes m).1 + (g.overlapBytes m).2
  · rw [if_pos hshort]
    exact ⟨fun _ _ h => absurd hshort (Nat.not_lt.mpr h), fun _ => rfl⟩
  rw [if_neg hshort]
  have hpanic := @decodeAndUpdateTag_ne_panicked_iff env d m (g.slice data m)
  have hext : g.Extractable d.dataType? data m ↔
      ((d.dataType? m.tagId).isSome → m.Representable (g.slice data m)) :=
    ⟨fun h => h hmiss (Nat.not_lt.mp hshort), fun h _ _ => h⟩
  rw [hext, ← hpanic, ReadGroup.slice]
  obtain ⟨res, d'⟩ := decodeAndUpdateTag env m
    ((data.drop (g.overlapBytes m).1).take (g.overlapBytes m).2) d
  cases res <;> simp

theorem runExtract_ok_iff {ms : List TagMapping} :
    (runList (extractMapping env g data) ms d).1 = .ok () ↔
      ∀ m ∈ ms, g.Extractable d.dataType? data m := by
  constructor
  · intro hok m hm
    obtain ⟨l₁, l₂, rfl⟩ := List.append_of_mem hm
    obtain ⟨d₁, d₂, hrun, hstep, -⟩ := runList_at_ok (Prod.ext hok rfl)
    have hext := extends_runExtract env g data l₁ d
    rw [hrun] at hext
    rw [← hext.dataType?_eq, ← @extractMapping_ok_iff env, hstep]
  · intro hall
    rcases except_cases (runList (extractMapping env g data) ms d) with ⟨d', hok⟩ | ⟨e, d', herr⟩
    · rw [hok]
    · obtain ⟨l₁, m, l₂, d₁, rfl, hrun, hstep⟩ := exists_failed_step herr
      have hext := extends_runExtract env g data l₁ d
      rw [hrun] at hext
      have hm := hall m (by simp)
      rw [← hext.dataType?_eq, ← @extractMapping_ok_iff env, hstep] at hm
      exact absurd hm (by simp)

/-- A read whose answer echoes its session id lets the loop go on exactly when
    the answer is harmless. -/
theorem readStep_ok_iff (hecho : (readExchange env g d).Echoed) :
    (readStep env g d).1 = .ok () ↔ (readExchange env g d).Harmless d.dataType? := by
  have htypes : (afterRead env g d).dataType? = d.dataType? := (extends_afterRead env g d).dataType?_eq
  rw [readStep_eq]
  rw [readExchange] at hecho ⊢
  generalize env.transfer d.trace (nextCtx d) _ = result at hecho ⊢
  cases result with
  | answered payload =>
      obtain ⟨hlen, hsid⟩ := hecho
      have hresp : (Transfer.answered payload).response d.session =
          if beWord (payload.getD 12 0) (payload.getD 13 0) ≠ 0 then
            .refused (beWord (payload.getD 12 0) (payload.getD 13 0))
          else .accepted (payload.drop 14) := by
        rw [response_answered hlen, if_neg (not_not.mpr hsid)]
      simp only [Exchange.response, Exchange.Harmless, hresp]
      by_cases hcode : beWord (payload.getD 12 0) (payload.getD 13 0) = 0
      · rw [if_neg (not_not.mpr hcode), finishRead]
        by_cases hshort : (payload.drop 14).length < g.wordCount.toNat * 2
        · rw [if_pos hshort]
          exact ⟨fun _ => ⟨hcode, fun h => absurd hshort (Nat.not_lt.mpr h)⟩, fun _ => rfl⟩
        · rw [if_neg hshort, runExtract_ok_iff, ← htypes]
          exact ⟨fun h => ⟨hcode, fun _ => h⟩, fun h => h.2 (Nat.not_lt.mp hshort)⟩
      · rw [if_pos hcode]
        exact ⟨fun h => absurd h (by simp [finishRead]), fun h => absurd h.1 hcode⟩
  | _ => exact absurd hecho id

-- ============================================================================
-- The groups a cycle reads
-- ============================================================================

/-- The reads among the exchanges between two states. -/
def readsBetween (d d' : State) : List Exchange :=
  (d.exchanges d').filter fun x => x.group?.isSome

/-- The groups they ask for. -/
def groupsBetween (d d' : State) : List ReadGroup := (d.exchanges d').filterMap Exchange.group?

/-- The reads of a cycle are those of its loop over the groups. -/
theorem exchanges_cycle (env : Env) (drv : FinsDriver) (d : State) :
    ∃ ws, (∀ x ∈ ws, x.group? = none) ∧
      d.exchanges (runReadCycleImpl env drv d).2 = ws ++ (beforeReads env drv d).exchanges
        (runList (readStep env) drv.readGroups (beforeReads env drv d)).2 := by
  have hbefore := extends_beforeReads env drv d
  refine ⟨d.exchanges (beforeReads env drv d), ?_, ?_⟩
  · have hwrites := @allNew_drainWrites env (fun x => x.group? = none)
      (fun _ _ _ _ _ _ => rfl) drv.mappings 64 (ensureConnected d)
    intro x hx
    refine hwrites _ ?_ x hx
    rw [trace_ensureConnected]
    exact DriverState.trace_eq_append_exchanges hbefore
  · rw [(runReadCycleImpl_eq env drv d).1]
    exact DriverState.exchanges_trans hbefore (extends_runReads env drv.readGroups _)

theorem groupsBetween_cycle (env : Env) (drv : FinsDriver) (d : State) :
    groupsBetween d (runReadCycleImpl env drv d).2 = ((beforeReads env drv d).exchanges
      (runList (readStep env) drv.readGroups (beforeReads env drv d)).2).filterMap Exchange.group? := by
  obtain ⟨ws, hws, hxs⟩ := exchanges_cycle env drv d
  rw [groupsBetween, hxs, List.filterMap_append, List.filterMap_eq_nil_iff.mpr hws, List.nil_append]

theorem readsBetween_cycle (env : Env) (drv : FinsDriver) (d : State) :
    readsBetween d (runReadCycleImpl env drv d).2 = (beforeReads env drv d).exchanges
      (runList (readStep env) drv.readGroups (beforeReads env drv d)).2 := by
  obtain ⟨ws, hws, hxs⟩ := exchanges_cycle env drv d
  have hreads := (readLoop env).allNew_run (l := drv.readGroups) (P := fun x => x.group?.isSome)
    (fun _ _ _ => rfl) (beforeReads env drv d)
  have hleft : ws.filter (fun x => x.group?.isSome) = [] := by
    rw [List.filter_eq_nil_iff]
    intro x hx
    rw [hws x hx]
    simp
  rw [readsBetween, hxs, List.filter_append, hleft, List.nil_append, List.filter_eq_self]
  exact hreads _ (DriverState.trace_eq_append_exchanges (extends_runReads env drv.readGroups _))

/-- When every request is answered with its session id, a cycle asks for every
    read group in turn exactly when no answer to a read before the last group
    carries an end code or an instant the decoder panics on. -/
theorem every_group_requested_iff {env : Env} {drv : FinsDriver} {d : State}
    (hecho : ∀ x ∈ d.exchanges (runReadCycleImpl env drv d).2, x.Echoed) :
    groupsBetween d (runReadCycleImpl env drv d).2 = drv.readGroups ↔
      ∀ i x, (readsBetween d (runReadCycleImpl env drv d).2)[i]? = some x →
        i + 1 < drv.readGroups.length → x.Harmless d.dataType? := by
  have hbefore := extends_beforeReads env drv d
  obtain ⟨ws, -, hxs⟩ := exchanges_cycle env drv d
  rw [groupsBetween_cycle, readsBetween_cycle, ← hbefore.dataType?_eq]
  refine (readLoop env).requests_run_iff (P := Exchange.Echoed)
    (I := fun d' => Extends (beforeReads env drv d) d') (fun _ _ => rfl)
    (fun g d' hd' => hd'.trans (extends_readStep env g d')) ?_ (Extends.refl _) ?_
  · intro g d' hd' hx
    rw [← hd'.dataType?_eq]
    exact readStep_ok_iff hx
  · refine (DriverState.allNew_iff (extends_runReads env drv.readGroups _)).mpr ?_
    intro x hx
    refine hecho x ?_
    rw [hxs]
    exact List.mem_append_right ws hx

/-- A response frame with an end code and no data. -/
def refusal (sid : UInt8) : List UInt8 :=
  [0xC0, 0x00, 0x02, 0x00, 0x00, 0x00, 0x00, 0x00, 0x00, sid, 0x01, 0x01, 0x11, 0x03]

/-- A PLC that refuses every read of the D area and answers reads of one word
    elsewhere with 7. -/
def Env.refusesD : Env where
  chrono := .rejecting
  clock := fun _ => .unixEpoch
  transfer := fun _ _ frame =>
    match receive frame with
    | some req =>
        if req.area = 0x82 then .answered (refusal req.sid)
        else .answered (okResponse req.sid (0x01, 0x01) [0, 7])
    | none => .sendFailed "Broken pipe"

/-- The state after a cycle in which the first group is refused. -/
def refusedCycle : State :=
  (runReadCycleImpl .refusesD (newDriver [levelMapping, flowMapping]) plantState).2

theorem exchanges_refusedCycle :
    plantState.exchanges refusedCycle =
      [.read 0 0 ⟨0x82, 0, 1, [levelMapping]⟩ (.answered (refusal 0))] := by decide +kernel

theorem echoed_refusedCycle : ∀ x ∈ plantState.exchanges refusedCycle, x.Echoed := by
  rw [exchanges_refusedCycle]
  intro x hx
  obtain rfl := List.mem_singleton.mp hx
  exact ⟨by decide, by decide⟩

theorem every_group_requested_iff_refused :
    groupsBetween plantState refusedCycle = (newDriver [levelMapping, flowMapping]).readGroups ↔
      ∀ i x, (readsBetween plantState refusedCycle)[i]? = some x →
        i + 1 < (newDriver [levelMapping, flowMapping]).readGroups.length →
        x.Harmless plantState.dataType? :=
  every_group_requested_iff echoed_refusedCycle

/-- A refused group keeps the one behind it from being read. -/
theorem refused_group_starves :
    validate .ascending [levelMapping, flowMapping] = .ok () ∧
    FinsDriver.new ⟨[levelMapping, flowMapping], 960⟩ = some (newDriver [levelMapping, flowMapping]) ∧
    (∀ x ∈ plantState.exchanges refusedCycle, x.Echoed) ∧
    groupsBetween plantState refusedCycle ≠ (newDriver [levelMapping, flowMapping]).readGroups := by
  refine ⟨by decide +kernel, by rfl, echoed_refusedCycle, ?_⟩
  rw [groupsBetween, exchanges_refusedCycle]
  intro h
  exact absurd (congrArg List.length h) (by decide +kernel)

end PlcBridge.Fins
