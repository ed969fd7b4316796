/-
  PlcBridge.Modbus.Steps

  What one step of a Modbus cycle can do to the driver: the extraction of one
  mapping, the handling of one read, the processing of one write.  Later
  modules reason with these lemmas and never unfold the cycle.
-/
import PlcBridge.Modbus.Cycle

namespace PlcBridge.Modbus

open PlcBridge.Lib
open PlcBridge.DriverState (Extends SameIo)

variable {env : Env} {ctx : Nat} {r : ReadRequest} {raw : List UInt8} {d : State}
  {m : ModbusMapping}

-- ============================================================================
-- Extracting one mapping
-- ============================================================================

/-- Extraction leaves the state alone, degrades the mapping's tag, or stores a
    Good value of the mapping's data type in it. -/
theorem extractMapping_cases (env : Env) (r : ReadRequest) (raw : List UInt8) (d : State)
    (m : ModbusMapping) :
    extractMapping env r raw d m = d ∨
    (∃ q, q ≠ .good ∧ extractMapping env r raw d m = d.setTagQuality env.clock m.tagId q) ∨
    ∃ v, v.dataType = m.dataType ∧
      extractMapping env r raw d m = d.updateTagValue env.clock m.tagId v .good := by
  unfold extractMapping
  simp only
  split
  · exact .inl rfl
  · split
    · exact .inr (.inl ⟨.configError, by simp, rfl⟩)
    · split
      · exact .inr (.inl ⟨.configError, by simp, rfl⟩)
      · split
        · exact .inr (.inl ⟨.commLost, by simp, rfl⟩)
        · split
          · rename_i hv
            exact .inr (.inr ⟨_, dataType_of_decode hv, rfl⟩)
          · exact .inr (.inl ⟨.configError, by simp, rfl⟩)

theorem view_extractMapping_ne {id : String} (h : id ≠ m.tagId) :
    (extractMapping env r raw d m).view id = d.view id := by
  obtain heq | ⟨q, -, heq⟩ | ⟨v, -, heq⟩ := extractMapping_cases env r raw d m
  · rw [heq]
  · rw [heq, DriverState.view_setTagQuality_ne d q h]
  · rw [heq, DriverState.view_updateTagValue_ne d v _ h]

theorem extends_extractMapping (env : Env) (r : ReadRequest) (raw : List UInt8) (d : State)
    (m : ModbusMapping) : Extends d (extractMapping env r raw d m) := by
  obtain heq | ⟨q, -, heq⟩ | ⟨v, -, heq⟩ := extractMapping_cases env r raw d m
  · rw [heq]
    exact Extends.refl d
  · rw [heq]
    exact DriverState.extends_setTagQuality d m.tagId q
  · rw [heq]
    exact DriverState.extends_updateTagValue d m.tagId v _

theorem sameIo_extractMapping (env : Env) (r : ReadRequest) (raw : List UInt8) (d : State)
    (m : ModbusMapping) : SameIo d (extractMapping env r raw d m) := by
  obtain heq | ⟨q, -, heq⟩ | ⟨v, -, heq⟩ := extractMapping_cases env r raw d m
  · rw [heq]
    exact SameIo.refl d
  · rw [heq]
    exact DriverState.sameIo_setTagQuality d m.tagId q
  · rw [heq]
    exact DriverState.sameIo_updateTagValue d m.tagId v _

/-- A mapping outside the chunk is skipped. -/
theorem extractMapping_of_not_meets (hr : 0 < r.qty.toNat) (hm : 0 < m.len)
    (h : ¬ Meets r.span m.lo m.len) : extractMapping env r raw d m = d := by
  unfold extractMapping
  apply if_pos
  simp only [Meets, ReadRequest.span, ModbusMapping.lo, ModbusMapping.len] at h hm ⊢
  omega

/-- Byte offset and length of a mapping's part of a chunk's payload. -/
def sliceBounds (r : ReadRequest) (m : ModbusMapping) : Nat × Nat :=
  (((overlap r.span m.lo m.len).1 - r.start.toNat) * 2, (overlap r.span m.lo m.len).2 * 2)

theorem sliceBounds_eq (hr : 0 < r.qty.toNat) (hm : 0 < m.len) (h : Meets r.span m.lo m.len) :
    (max m.address.toNat r.start.toNat - r.start.toNat) * 2 = (sliceBounds r m).1 ∧
    (min (m.address.toNat + m.quantity.toNat - 1) (r.start.toNat + r.qty.toNat - 1)
      - max m.address.toNat r.start.toNat + 1) * 2 = (sliceBounds r m).2 := by
  refine ⟨rfl, ?_⟩
  simp only [Meets, sliceBounds, overlap, ReadRequest.span, ModbusMapping.lo,
    ModbusMapping.len] at h hm ⊢
  omega

/-- A payload that does not reach the end of the mapping's part marks the
    tag. -/
theorem extractMapping_of_short (hr : 0 < r.qty.toNat) (hm : 0 < m.len)
    (h : Meets r.span m.lo m.len) (hshort : raw.length < (sliceBounds r m).1 + (sliceBounds r m).2) :
    extractMapping env r raw d m = d.setTagQuality env.clock m.tagId .configError := by
  obtain ⟨hoff, hlen⟩ := sliceBounds_eq hr hm h
  unfold extractMapping
  simp only
  rw [if_neg, hoff, hlen, if_pos hshort]
  simp only [Meets, ReadRequest.span, ModbusMapping.lo, ModbusMapping.len] at h hm
  omega

/-- The result of decoding a mapping's part of a payload. -/
def sliceValue (chrono : Chrono) (r : ReadRequest) (raw : List UInt8) (m : ModbusMapping) :
    Except DriverError TagValue :=
  decodeBytesToTagvalue chrono m.dataType
    (applyByteOrder ((raw.drop (sliceBounds r m).1).take (sliceBounds r m).2) m.byteOrder) m.bitOffset

/-- Value and quality after a decode that may have failed. -/
def settled (result : Option TagValue) (old : TagValue × TagQuality) : TagValue × TagQuality :=
  match result with
  | some v => (v, .good)
  | none => (old.1, .configError)

/-- A registered tag ends up Good with the decoded value, or ConfigError. -/
theorem view_extractMapping_of_meets (hr : 0 < r.qty.toNat) (hm : 0 < m.len)
    (h : Meets r.span m.lo m.len)
    (hlong : (sliceBounds r m).1 + (sliceBounds r m).2 ≤ raw.length)
    (hreg : d.Registered m.tagId m.dataType) :
    (extractMapping env r raw d m).view m.tagId =
      (d.view m.tagId).map (settled (sliceValue env.chrono r raw m).toOption) := by
  obtain ⟨hoff, hlen⟩ := sliceBounds_eq hr hm h
  obtain ⟨hdt, hsome⟩ := hreg
  obtain ⟨def_, hdef, -⟩ := TagRegistry.dataType?_eq_some.mp hdt
  obtain ⟨t, ht⟩ : ∃ t, d.registry.tag? m.tagId = some t := by
    rw [DriverState.view, Option.isSome_map] at hsome
    exact Option.isSome_iff_exists.mp hsome
  have hguard : ¬ (m.address.toNat + m.quantity.toNat - 1 < r.start.toNat ∨
      r.start.toNat + r.qty.toNat - 1 < m.address.toNat) := by
    simp only [Meets, ReadRequest.span, ModbusMapping.lo, ModbusMapping.len] at h hm
    omega
  unfold extractMapping
  simp only
  rw [if_neg hguard, hoff, hlen, if_neg (by omega), hdef, TagRegistry.getTag_eq_ok.mpr ht]
  simp only
  rw [← sliceValue]
  cases hv : sliceValue env.chrono r raw m with
  | ok v =>
      simp only
      rw [DriverState.view_updateTagValue, if_pos ⟨rfl, by rw [hdt, dataType_of_decode hv]⟩]
      rfl
  | error e =>
      simp only
      rw [DriverState.view_setTagQuality_self]
      rfl

-- ============================================================================
-- Extracting all members of a group
-- ============================================================================

theorem extends_foldl_extract (env : Env) (r : ReadRequest) (raw : List UInt8) (d : State)
    (ms : List ModbusMapping) : Extends d (ms.foldl (extractMapping env r raw) d) := by
  induction ms generalizing d with
  | nil => exact Extends.refl d
  | cons m ms ih => exact (extends_extractMapping env r raw d m).trans (ih _)

theorem sameIo_foldl_extract (env : Env) (r : ReadRequest) (raw : List UInt8) (d : State)
    (ms : List ModbusMapping) : SameIo d (ms.foldl (extractMapping env r raw) d) := by
  induction ms generalizing d with
  | nil => exact SameIo.refl d
  | cons m ms ih => exact (sameIo_extractMapping env r raw d m).trans (ih _)

theorem view_foldl_extract_ne {ms : List ModbusMapping} {id : String}
    (h : id ∉ ms.map ModbusMapping.tagId) :
    (ms.foldl (extractMapping env r raw) d).view id = d.view id := by
  induction ms generalizing d with
  | nil => rfl
  | cons m ms ih =>
      rw [List.map_cons, List.mem_cons, not_or] at h
      rw [List.foldl_cons, ih h.2, view_extractMapping_ne h.1]

/-- Among members with different ids, a tag sees its own extraction only. -/
theorem view_foldl_extract {ms : List ModbusMapping}
    (hnodup : (ms.map ModbusMapping.tagId).Nodup) (hm : m ∈ ms) :
    ∃ d₁, Extends d d₁ ∧ d₁.view m.tagId = d.view m.tagId ∧
      (ms.foldl (extractMapping env r raw) d).view m.tagId =
        (extractMapping env r raw d₁ m).view m.tagId := by
  obtain ⟨l₁, l₂, rfl⟩ := List.append_of_mem hm
  rw [List.map_append, List.map_cons, List.nodup_append, List.nodup_cons] at hnodup
  obtain ⟨-, ⟨hafter, -⟩, hdisj⟩ := hnodup
  refine ⟨l₁.foldl (extractMapping env r raw) d, extends_foldl_extract env r raw d l₁, ?_, ?_⟩
  · apply view_foldl_extract_ne
    intro hbefore
    exact hdisj _ hbefore _ (List.mem_cons_self ..) rfl
  · rw [List.foldl_append, List.foldl_cons]
    exact view_foldl_extract_ne hafter

-- ============================================================================
-- One read
-- ============================================================================

/-- The exchange a read step makes. -/
def readExchange (env : Env) (ctx : Nat) (r : ReadRequest) (d : State) : Exchange :=
  .read ctx r.func r.start r.qty (env.read d.trace ctx r.func r.start r.qty)

/-- The four things a read step can do. -/
theorem readStep_cases (env : Env) (ctx : Nat) (r : ReadRequest) (d : State) :
    (∃ data, env.read d.trace ctx r.func r.start r.qty = .ok data ∧
      readStep env ctx r d = (.ok (), r.members.foldl (extractMapping env r data.rawBytes)
        (d.record (readExchange env ctx r d)))) ∨
    ∃ err, (env.read d.trace ctx r.func r.start r.qty).payload = .error err ∧
      ((isIllegal err ∧ readStep env ctx r d =
          (.ok (), (d.record (readExchange env ctx r d)).markAll env.clock r.ids .configError)) ∨
       (isFatal err ∧ readStep env ctx r d = (.error (.modbus err),
          ((d.record (readExchange env ctx r d)).markAll env.clock r.ids .commLost).putBack none)) ∨
       (¬ isIllegal err ∧ ¬ isFatal err ∧
          readStep env ctx r d = (.ok (), d.record (readExchange env ctx r d)))) := by
  cases hres : env.read d.trace ctx r.func r.start r.qty with
  | ok data =>
      refine .inl ⟨data, rfl, ?_⟩
      unfold readStep readExchange
      simp only [hres, CallResult.payload]
  | _ =>
      right
      rw [← hres]
      cases hp : (env.read d.trace ctx r.func r.start r.qty).payload with
      | ok raw => rw [hres] at hp; exact absurd hp (by simp [CallResult.payload])
      | error err =>
          refine ⟨err, rfl, ?_⟩
          unfold readStep readExchange
          simp only [hp]
          by_cases hill : isIllegal err
          · rw [if_pos hill]
            exact .inl ⟨hill, rfl⟩
          · rw [if_neg hill]
            by_cases hfat : isDeviceFailure err ∨ err = "Timeout"
            · rw [if_pos hfat]
              exact .inr (.inl ⟨by simp [isFatal, hill, hfat], rfl⟩)
            · rw [if_neg hfat]
              exact .inr (.inr ⟨hill, by simpa [isFatal, hill] using hfat, rfl⟩)

theorem trace_readStep (env : Env) (ctx : Nat) (r : ReadRequest) (d : State) :
    (readStep env ctx r d).2.trace = d.trace ++ [readExchange env ctx r d] := by
  obtain ⟨data, -, h⟩ | ⟨err, -, ⟨-, h⟩ | ⟨-, h⟩ | ⟨-, -, h⟩⟩ := readStep_cases env ctx r d
  · rw [h]
    exact (sameIo_foldl_extract env r data.rawBytes _ r.members).trace
  · rw [h]
    exact (DriverState.sameIo_markAll _ r.ids _).trace
  · rw [h]
    exact (DriverState.sameIo_markAll _ r.ids _).trace
  · rw [h]
    rfl

theorem extends_readStep (env : Env) (ctx : Nat) (r : ReadRequest) (d : State) :
    Extends d (readStep env ctx r d).2 := by
  have hrec := DriverState.extends_record d (readExchange env ctx r d)
  obtain ⟨data, -, h⟩ | ⟨err, -, ⟨-, h⟩ | ⟨-, h⟩ | ⟨-, -, h⟩⟩ := readStep_cases env ctx r d
  · rw [h]
    exact hrec.trans (extends_foldl_extract env r data.rawBytes _ r.members)
  · rw [h]
    exact hrec.trans (DriverState.extends_markAll _ r.ids _)
  · rw [h]
    exact (hrec.trans (DriverState.extends_markAll _ r.ids _)).trans
      (DriverState.extends_putBack _ none)
  · rw [h]
    exact hrec

/-- A read does not touch tags outside its group. -/
theorem view_readStep_ne {id : String} (h : id ∉ r.ids) :
    (readStep env ctx r d).2.view id = d.view id := by
  obtain ⟨data, -, heq⟩ | ⟨err, -, ⟨-, heq⟩ | ⟨-, heq⟩ | ⟨-, -, heq⟩⟩ := readStep_cases env ctx r d
  · rw [heq, view_foldl_extract_ne h]
    rfl
  · rw [heq, DriverState.view_markAll, if_neg h]
    rfl
  · rw [heq, DriverState.view_putBack, DriverState.view_markAll, if_neg h]
    rfl
  · rw [heq]
    rfl

/-- The read loop of a cycle over one connection. -/
def readLoop (env : Env) (ctx : Nat) : ReadLoop DriverError ReadRequest Exchange Unit where
  step := readStep env ctx
  exchange := readExchange env ctx
  ids := ReadRequest.ids
  extends_step := extends_readStep env ctx
  trace_step := trace_readStep env ctx
  view_step_ne := view_readStep_ne

theorem extends_runReads (env : Env) (ctx : Nat) (rs : List ReadRequest) (d : State) :
    Extends d (runList (readStep env ctx) rs d).2 := (readLoop env ctx).extends_run rs d

-- ============================================================================
-- One write
-- ============================================================================

/-- The write outcomes that end the cycle. -/
def CallResult.aborts : CallResult Unit → Bool
  | .ok () => false
  | .exception code => !isIllegal code.debug
  | .transport _ => true
  | .timeout => true

/-- After an acknowledged write the tag holds the value; after any other
    outcome it is degraded and the requester is told. -/
theorem finishWrite_cases (env : Env) (m : ModbusMapping) (req : WriteRequest)
    (result : CallResult Unit) (d : State) :
    (result = .ok () ∧ finishWrite env m req result d =
      (.ok (), (d.updateTagValue env.clock m.tagId req.value .good).sendReply req (.ok ()))) ∨
    (result ≠ .ok () ∧ result.aborts = false ∧ ∃ q msg, q ≠ .good ∧
      finishWrite env m req result d =
        (.ok (), (d.setTagQuality env.clock m.tagId q).sendReply req (.error msg))) ∨
    (result.aborts = true ∧ ∃ e q msg, q ≠ .good ∧ finishWrite env m req result d =
      (.error e, ((d.setTagQuality env.clock m.tagId q).sendReply req (.error msg)).putBack none)) := by
  cases result with
  | ok u => exact .inl ⟨rfl, rfl⟩
  | exception code =>
      by_cases h : isIllegal code.debug
      · refine .inr (.inl ⟨by simp, by simp [CallResult.aborts, h], .configError,
          "Modbus exception: " ++ code.debug, by simp, ?_⟩)
        simp only [finishWrite, if_pos h]
      · refine .inr (.inr ⟨by simp [CallResult.aborts, h], .modbus code.debug, .commLost,
          "Modbus error: " ++ code.debug, by simp, ?_⟩)
        simp only [finishWrite, if_neg h]
  | transport msg => exact .inr (.inr ⟨rfl, _, .commLost, _, by simp, rfl⟩)
  | timeout => exact .inr (.inr ⟨rfl, _, .commLost, _, by simp, rfl⟩)

/-- The words the device is asked to store for a value. -/
def ModbusMapping.writeWords (m : ModbusMapping) (value : TagValue) : List UInt16 :=
  m.orderedWords (standardWords value)

/-- A write to a writable holding-register mapping is sent. -/
theorem processWrite_of_holding {mappings : List ModbusMapping} {req : WriteRequest}
    (hfind : mappings.find? (fun m => m.tagId = req.tagId) = some m) (hw : m.writable)
    (hfunc : m.function = .holdingRegisters) (d : State) :
    processWrite env mappings req d = sendWrite env m req (m.writeWords req.value) d := by
  have heven : (applyByteOrder (registersToBytes (standardWords req.value))
      m.byteOrder).length % 2 = 0 := by
    rw [length_applyByteOrder, registersToBytes, length_beBytes]
    omega
  rw [processWrite, hfind]
  simp only [hw, Bool.not_true, Bool.false_eq_true, if_false, tagvalueToRegisters_eq, hfunc]
  rw [if_neg (by omega)]
  rfl

theorem processWrite_of_unmapped {mappings : List ModbusMapping} {req : WriteRequest}
    (hfind : mappings.find? (fun m => m.tagId = req.tagId) = none) (d : State) :
    processWrite env mappings req d = (.ok (), d.sendReply req (.error "Unknown tag mapping")) := by
  rw [processWrite, hfind]

theorem processWrite_of_read_only {mappings : List ModbusMapping} {req : WriteRequest}
    (hfind : mappings.find? (fun m => m.tagId = req.tagId) = some m) (hw : ¬ m.writable) (d : State) :
    processWrite env mappings req d = (.ok (), d.sendReply req (.error "Tag not writable")) := by
  rw [processWrite, hfind]
  simp only [hw, Bool.not_false, if_true]

/-- A write to any other function is refused. -/
theorem processWrite_of_not_holding {mappings : List ModbusMapping} {req : WriteRequest}
    (hfind : mappings.find? (fun m => m.tagId = req.tagId) = some m) (hw : m.writable)
    (hfunc : m.function ≠ .holdingRegisters) (d : State) :
    processWrite env mappings req d = (.ok (), (d.setTagQuality env.clock m.tagId .commLost).sendReply
      req (.error "Unsupported write function")) := by
  cases hf : m.function with
  | holdingRegisters => exact absurd hf hfunc
  | _ =>
      rw [processWrite, hfind]
      simp only [hw, Bool.not_true, Bool.false_eq_true, if_false, tagvalueToRegisters_eq, hf]

/-- A write request is refused without contacting the device, or it is sent
    to the holding registers of a writable mapping of its tag. -/
theorem processWrite_cases (env : Env) (mappings : List ModbusMapping) (req : WriteRequest)
    (d : State) :
    (∃ msg d₁, (d₁ = d ∨ ∃ id, d₁ = d.setTagQuality env.clock id .commLost) ∧
      processWrite env mappings req d = (.ok (), d₁.sendReply req (.error msg))) ∨
    ∃ m, mappings.find? (fun m => m.tagId = req.tagId) = some m ∧ m.writable ∧
      m.function = .holdingRegisters ∧
      processWrite env mappings req d = sendWrite env m req (m.writeWords req.value) d := by
  cases hfind : mappings.find? (fun m => m.tagId = req.tagId) with
  | none => exact .inl ⟨_, d, .inl rfl, processWrite_of_unmapped hfind d⟩
  | some m =>
      by_cases hw : m.writable
      · by_cases hfunc : m.function = .holdingRegisters
        · exact .inr ⟨m, rfl, hw, hfunc, processWrite_of_holding hfind hw hfunc d⟩
        · exact .inl ⟨_, _, .inr ⟨m.tagId, rfl⟩, processWrite_of_not_holding hfind hw hfunc d⟩
      · exact .inl ⟨_, d, .inl rfl, processWrite_of_read_only hfind hw d⟩

/-- The exchange a write makes. -/
def writeExchange (env : Env) (m : ModbusMapping) (req : WriteRequest) (d : State) : Exchange :=
  .write d.takeOrConnect.1 req m.address (m.writeWords req.value)
    (env.writeMultipleRegisters d.trace d.takeOrConnect.1 m.address (m.writeWords req.value))

theorem sendWrite_eq (env : Env) (m : ModbusMapping) (req : WriteRequest) (d : State) :
    sendWrite env m req (m.writeWords req.value) d =
      finishWrite env m req
        (env.writeMultipleRegisters d.trace d.takeOrConnect.1 m.address (m.writeWords req.value))
        ((d.takeOrConnect.2.record (writeExchange env m req d)).putBack (some d.takeOrConnect.1)) := by
  unfold sendWrite writeExchange
  simp only [DriverState.trace_takeOrConnect]

theorem extends_finishWrite (env : Env) (m : ModbusMapping) (req : WriteRequest)
    (result : CallResult Unit) (d : State) : Extends d (finishWrite env m req result d).2 := by
  obtain ⟨-, h⟩ | ⟨-, -, q, msg, -, h⟩ | ⟨-, e, q, msg, -, h⟩ := finishWrite_cases env m req result d
  · rw [h]
    exact (DriverState.extends_updateTagValue d _ _ _).trans (DriverState.extends_sendReply _ req _)
  · rw [h]
    exact (DriverState.extends_setTagQuality d _ q).trans (DriverState.extends_sendReply _ req _)
  · rw [h]
    exact ((DriverState.extends_setTagQuality d _ q).trans
      (DriverState.extends_sendReply _ req _)).trans (DriverState.extends_putBack _ none)

theorem extends_processWrite (env : Env) (mappings : List ModbusMapping) (req : WriteRequest)
    (d : State) : Extends d (processWrite env mappings req d).2 := by
  obtain ⟨msg, d₁, hd₁, h⟩ | ⟨m, -, -, -, h⟩ := processWrite_cases env mappings req d
  · rw [h]
    refine Extends.trans ?_ (DriverState.extends_sendReply d₁ req _)
    rcases hd₁ with rfl | ⟨id, rfl⟩
    · exact Extends.refl _
    · exact DriverState.extends_setTagQuality d id _
  · rw [h, sendWrite_eq]
    exact (((DriverState.extends_takeOrConnect d).trans (DriverState.extends_record _ _)).trans
      (DriverState.extends_putBack _ _)).trans (extends_finishWrite env m req _ _)

/-- A write that ends the cycle was sent and not answered, or refused for
    another reason than its address. -/
theorem processWrite_error {mappings : List ModbusMapping} {req : WriteRequest} {d d' : State}
    {e : DriverError} (h : processWrite env mappings req d = (.error e, d')) :
    ∃ m, d'.trace = d.trace ++ [writeExchange env m req d] ∧
      (env.writeMultipleRegisters d.trace d.takeOrConnect.1 m.address
        (m.writeWords req.value)).aborts = true := by
  obtain ⟨msg, d₁, -, heq⟩ | ⟨m, -, -, -, heq⟩ := processWrite_cases env mappings req d
  · rw [heq] at h
    exact absurd (congrArg Prod.fst h) (by simp)
  · rw [heq, sendWrite_eq] at h
    obtain ⟨-, hf⟩ | ⟨-, -, q, msg, -, hf⟩ | ⟨habort, e', q, msg, -, hf⟩ := finishWrite_cases env m req
      (env.writeMultipleRegisters d.trace d.takeOrConnect.1 m.address (m.writeWords req.value))
      ((d.takeOrConnect.2.record (writeExchange env m req d)).putBack (some d.takeOrConnect.1))
    · rw [hf] at h
      exact absurd (congrArg Prod.fst h) (by simp)
    · rw [hf] at h
      exact absurd (congrArg Prod.fst h) (by simp)
    · rw [hf] at h
      refine ⟨m, ?_, habort⟩
      obtain rfl := congrArg Prod.snd h
      show d.takeOrConnect.2.trace ++ _ = _
      rw [DriverState.trace_takeOrConnect]

theorem extends_dequeue (d : State) (rest : List WriteRequest) : Extends d { d with queue := rest } :=
  ⟨⟨[], rfl⟩, List.prefix_refl _⟩

theorem extends_drainWrites (env : Env) (mappings : List ModbusMapping) (n : Nat) (d : State) :
    Extends d (drainWrites env mappings n d).2 := by
  induction n generalizing d with
  | zero => exact Extends.refl d
  | succ n ih =>
      rw [drainWrites]
      cases hq : d.queue with
      | nil => exact Extends.refl d
      | cons req rest =>
          have hstep := (extends_dequeue d rest).trans
            (extends_processWrite env mappings req { d with queue := rest })
          simp only
          rcases except_cases (processWrite env mappings req { d with queue := rest })
            with ⟨d', h⟩ | ⟨e, d', h⟩
          · rw [h] at hstep ⊢
            exact hstep.trans (ih d')
          · rw [h] at hstep ⊢
            exact hstep

-- ============================================================================
-- The exchanges of a phase
-- ============================================================================

theorem trace_sendWrite (env : Env) (m : ModbusMapping) (req : WriteRequest) (d : State) :
    (sendWrite env m req (m.writeWords req.value) d).2.trace =
      d.trace ++ [writeExchange env m req d] := by
  have htrace : (d.takeOrConnect.2.record (writeExchange env m req d)).trace
      = d.trace ++ [writeExchange env m req d] := by
    rw [← DriverState.trace_takeOrConnect d]
    rfl
  rw [sendWrite_eq]
  obtain ⟨-, hf⟩ | ⟨-, -, q, msg, -, hf⟩ | ⟨-, e, q, msg, -, hf⟩ := finishWrite_cases env m req
    (env.writeMultipleRegisters d.trace d.takeOrConnect.1 m.address (m.writeWords req.value))
    ((d.takeOrConnect.2.record (writeExchange env m req d)).putBack (some d.takeOrConnect.1))
  all_goals
    rw [hf]
    exact htrace

/-- A write makes at most its own exchange. -/
theorem trace_processWrite (env : Env) (mappings : List ModbusMapping) (req : WriteRequest)
    (d : State) :
    (processWrite env mappings req d).2.trace = d.trace ∨
    ∃ m, mappings.find? (fun m => m.tagId = req.tagId) = some m ∧ m.writable ∧
      (processWrite env mappings req d).2.trace = d.trace ++ [writeExchange env m req d] := by
  obtain ⟨msg, d₁, hd₁, h⟩ | ⟨m, hfind, hw, -, h⟩ := processWrite_cases env mappings req d
  · left
    rw [h]
    rcases hd₁ with rfl | ⟨id, rfl⟩ <;> rfl
  · exact .inr ⟨m, hfind, hw, by rw [h, trace_sendWrite]⟩

/-- What holds of every write holds of every exchange of the write phase. -/
theorem allNew_drainWrites {P : Exchange → Prop}
    (hP : ∀ ctx req address words result, P (.write ctx req address words result)) (n : Nat)
    (d : State) (mappings : List ModbusMapping) :
    DriverState.AllNew P d (drainWrites env mappings n d).2 := by
  induction n generalizing d with
  | zero => exact DriverState.AllNew.of_trace_eq rfl
  | succ n ih =>
      rw [drainWrites]
      cases hq : d.queue with
      | nil => exact DriverState.AllNew.of_trace_eq rfl
      | cons req rest =>
          have hext := (extends_dequeue d rest).trans
            (extends_processWrite env mappings req { d with queue := rest })
          have hstep : DriverState.AllNew P d
              (processWrite env mappings req { d with queue := rest }).2 := by
            rcases trace_processWrite env mappings req { d with queue := rest } with h | ⟨m, -, -, h⟩
            · exact DriverState.AllNew.of_trace_eq h
            · exact DriverState.AllNew.of_singleton h (hP ..)
          simp only
          rcases except_cases (processWrite env mappings req { d with queue := rest })
            with ⟨d', h⟩ | ⟨e, d', h⟩
          · rw [h] at hstep hext ⊢
            exact hstep.join hext (extends_drainWrites env mappings n d') (ih d')
          · rw [h] at hstep ⊢
            exact hstep

/-- A write phase without an aborting write goes through. -/
theorem drainWrites_of_not_aborts {mappings : List ModbusMapping} {P : Exchange → Prop}
    (hP : ∀ {ctx req address words result},
      P (.write ctx req address words result) → result.aborts = false) {n : Nat} {d : State}
    (h : DriverState.AllNew P d (drainWrites env mappings n d).2) :
    ∃ d', drainWrites env mappings n d = (.ok (), d') := by
  induction n generalizing d with
  | zero => exact ⟨d, rfl⟩
  | succ n ih =>
      rw [drainWrites] at h ⊢
      cases hq : d.queue with
      | nil => exact ⟨d, rfl⟩
      | cons req rest =>
          rw [hq] at h
          simp only at h ⊢
          have hext := (extends_dequeue d rest).trans
            (extends_processWrite env mappings req { d with queue := rest })
          rcases except_cases (processWrite env mappings req { d with queue := rest })
            with ⟨d', heq⟩ | ⟨e, d', heq⟩
          · rw [heq] at h hext
            simp only [heq]
            exact ih (h.split hext (extends_drainWrites env mappings n d')).2
          · rw [heq] at h
            obtain ⟨m, htrace, habort⟩ := processWrite_error heq
            have hfalse := hP (h.singleton htrace)
            rw [habort] at hfalse
            exact absurd hfalse (by simp)

/-- A write phase whose writes are all acknowledged goes through. -/
theorem drainWrites_of_acknowledged {mappings : List ModbusMapping}
    (hack : ∀ history ctx address words, env.writeMultipleRegisters history ctx address words = .ok ())
    (n : Nat) (d : State) : ∃ d', drainWrites env mappings n d = (.ok (), d') := by
  induction n generalizing d with
  | zero => exact ⟨d, rfl⟩
  | succ n ih =>
      rw [drainWrites]
      cases hq : d.queue with
      | nil => exact ⟨d, rfl⟩
      | cons req rest =>
          obtain ⟨msg, d₁, -, h⟩ | ⟨m, -, -, -, h⟩ :=
            processWrite_cases env mappings req { d with queue := rest }
          · simp only [h]
            exact ih _
          · simp only [h, sendWrite_eq, hack, finishWrite]
            exact ih _

-- ============================================================================
-- The cycle
-- ============================================================================

theorem extends_readPhase (env : Env) (mappings : List ModbusMapping) (d : State) :
    Extends d (readPhase env mappings d).2 := by
  have hrun := (DriverState.extends_takeOrConnect d).trans
    (extends_runReads env d.takeOrConnect.1 (readPlan env.order mappings) d.takeOrConnect.2)
  rw [readPhase]
  rcases except_cases (runList (readStep env d.takeOrConnect.1) (readPlan env.order mappings)
    d.takeOrConnect.2) with ⟨d', h⟩ | ⟨e, d', h⟩
  · rw [h] at hrun
    simp only [h]
    exact hrun.trans (DriverState.extends_putBack d' _)
  · rw [h] at hrun
    simp only [h]
    exact hrun

theorem extends_runReadCycleImpl (env : Env) (mappings : List ModbusMapping) (d : State) :
    Extends d (runReadCycleImpl env mappings d).2 := by
  have hext := extends_drainWrites env mappings 64 d
  rw [runReadCycleImpl]
  rcases except_cases (drainWrites env mappings 64 d) with ⟨d', h⟩ | ⟨e, d', h⟩
  · rw [h] at hext
    simp only [h]
    exact hext.trans (extends_readPhase env mappings d')
  · rw [h] at hext
    simp only [h]
    exact hext

end PlcBridge.Modbus
