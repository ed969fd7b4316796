/-
  PlcBridge.Fins.Steps

  What one step of a FINS cycle can do to the driver: the extraction of one
  mapping, the handling of one read response, the processing of one write.
  Later modules reason with these lemmas and never unfold the cycle.
-/
import PlcBridge.Fins.Cycle

namespace PlcBridge.Fins

open PlcBridge.Lib
open PlcBridge.DriverState (Extends SameIo AllNew)

variable {env : Env} {g : ReadGroup} {data : List UInt8} {d : State} {m : TagMapping}

-- ============================================================================
-- Overlaps on plain numbers
-- ============================================================================

theorem toNat_groupEnd (hg : g.InSpace) :
    g.endAddr.toNat = g.startAddress.toNat + g.wordCount.toNat - 1 := by
  have hpos := hg.pos
  have hlt := hg.lt
  have hadd : (g.startAddress + g.wordCount.toUInt32).toNat
      = g.startAddress.toNat + g.wordCount.toNat := by
    rw [UInt32.toNat_add, UInt16.toNat_toUInt32]
    exact Nat.mod_eq_of_lt hlt
  have hle : 1 ≤ g.startAddress + g.wordCount.toUInt32 := by
    rw [UInt32.le_iff_toNat_le, hadd]
    show 1 ≤ _
    omega
  rw [ReadGroup.endAddr, UInt32.toNat_sub_of_le _ _ hle, hadd]
  rfl

theorem misses_iff (hg : g.InSpace) (hm : m.InSpace) :
    g.Misses m ↔ ¬ Meets g.span m.lo m.len := by
  have hgend := toNat_groupEnd hg
  have hmend := toNat_endAddr hm.endFits
  have hgpos := hg.pos
  have hmpos := hm.pos
  have haddr : m.address.toNat = m.lo := rfl
  rw [ReadGroup.Misses, UInt32.lt_iff_toNat_lt, UInt32.lt_iff_toNat_lt, hgend, hmend, haddr, Meets,
    ReadGroup.span]
  omega

theorem toNat_max (a b : UInt32) : (max a b).toNat = max a.toNat b.toNat := by
  show (if a ≤ b then b else a).toNat = _
  by_cases h : a ≤ b
  · rw [if_pos h, max_eq_right (UInt32.le_iff_toNat_le.mp h)]
  · rw [if_neg h, max_eq_left (le_of_not_ge fun h' => h (UInt32.le_iff_toNat_le.mpr h'))]

theorem toNat_min (a b : UInt32) : (min a b).toNat = min a.toNat b.toNat := by
  show (if a ≤ b then a else b).toNat = _
  by_cases h : a ≤ b
  · rw [if_pos h, min_eq_left (UInt32.le_iff_toNat_le.mp h)]
  · rw [if_neg h, min_eq_right (le_of_not_ge fun h' => h (UInt32.le_iff_toNat_le.mpr h'))]

theorem overlapBytes_eq (hg : g.InSpace) (hm : m.InSpace) (h : Meets g.span m.lo m.len) :
    g.overlapBytes m = (((overlap g.span m.lo m.len).1 - g.startAddress.toNat) * 2,
      (overlap g.span m.lo m.len).2 * 2) := by
  have hgend := toNat_groupEnd hg
  have hmend := toNat_endAddr hm.endFits
  have hgpos := hg.pos
  have hmpos := hm.pos
  have hglt := hg.lt
  have haddr : m.address.toNat = m.lo := rfl
  simp only [Meets, ReadGroup.span] at h
  have hstart : (max m.address g.startAddress).toNat = max m.lo g.startAddress.toNat :=
    toNat_max _ _
  have hend : (min m.endAddr g.endAddr).toNat
      = min (m.lo + m.len - 1) (g.startAddress.toNat + g.wordCount.toNat - 1) := by
    rw [toNat_min, hmend, hgend]
  have hoff : (max m.address g.startAddress - g.startAddress).toNat
      = max m.lo g.startAddress.toNat - g.startAddress.toNat := by
    rw [UInt32.toNat_sub_of_le _ _ (UInt32.le_iff_toNat_le.mpr (by rw [hstart]; omega)), hstart]
  have hlen : (min m.endAddr g.endAddr - max m.address g.startAddress + 1).toNat
      = min (m.lo + m.len) (g.startAddress.toNat + g.wordCount.toNat)
        - max m.lo g.startAddress.toNat := by
    rw [UInt32.toNat_add, UInt32.toNat_sub_of_le _ _
      (UInt32.le_iff_toNat_le.mpr (by rw [hstart, hend]; omega)), hstart, hend]
    show (_ - _ + 1) % 2 ^ 32 = _
    rw [Nat.mod_eq_of_lt (by omega)]
    omega
  simp only [ReadGroup.overlapBytes, hoff, hlen, overlap, ReadGroup.span]

/-- The overlap lies inside the data of a complete response. -/
theorem overlapBytes_le (hg : g.InSpace) (hm : m.InSpace) (h : Meets g.span m.lo m.len) :
    (g.overlapBytes m).1 + (g.overlapBytes m).2 ≤ g.wordCount.toNat * 2 := by
  rw [overlapBytes_eq hg hm h]
  simp only [Meets, overlap, ReadGroup.span] at h ⊢
  omega

-- ============================================================================
-- Extracting one mapping
-- ============================================================================

/-- What the decoder makes of a mapping's part of a response. -/
def piece (chrono : Chrono) (g : ReadGroup) (data : List UInt8) (m : TagMapping) : Attempt TagValue :=
  decodeBytes chrono m.dataType m.bitOffset
    (applyByteOrder ((data.drop (g.overlapBytes m).1).take (g.overlapBytes m).2) m.byteOrder)

/-- Extraction leaves the state alone, degrades the mapping's tag, stores a
    Good value of the mapping's data type in it, or panics. -/
theorem extractMapping_cases (env : Env) (g : ReadGroup) (data : List UInt8) (m : TagMapping)
    (d : State) :
    extractMapping env g data m d = (.ok (), d) ∨
    (∃ d₁ q, (d₁ = d ∨ d₁ = d.tick) ∧ q ≠ .good ∧
      extractMapping env g data m d = (.ok (), d₁.setTagQuality env.clock m.tagId q)) ∨
    (∃ v, v.dataType = m.dataType ∧
      extractMapping env g data m d = (.ok (), d.updateTagValue env.clock m.tagId v .good)) ∨
    (piece env.chrono g data m = .panicked ∧
      extractMapping env g data m d = (.error .panicked, d.tick)) := by
  rw [extractMapping]
  by_cases hmiss : g.Misses m
  · rw [if_pos hmiss]
    exact .inl rfl
  rw [if_neg hmiss]
  simp only
  by_cases hshort : data.length < (g.overlapBytes m).1 + (g.overlapBytes m).2
  · rw [if_pos hshort]
    exact .inr (.inl ⟨d, _, .inl rfl, by simp, rfl⟩)
  rw [if_neg hshort, decodeAndUpdateTag]
  cases hdef : d.registry.getDefinition m.tagId with
  | error e => exact .inr (.inl ⟨d, _, .inl rfl, by simp, rfl⟩)
  | ok def_ =>
      simp only
      rw [show decodeBytes env.chrono m.dataType m.bitOffset (applyByteOrder
        ((data.drop (g.overlapBytes m).1).take (g.overlapBytes m).2) m.byteOrder)
          = piece env.chrono g data m from rfl]
      cases hp : piece env.chrono g data m with
      | done v => exact .inr (.inr (.inl ⟨v, dataType_of_decodeBytes hp, rfl⟩))
      | failed e => exact .inr (.inl ⟨d.tick, _, .inr rfl, by simp, rfl⟩)
      | panicked => exact .inr (.inr (.inr ⟨rfl, rfl⟩))

theorem view_extractMapping_ne {id : String} (h : id ≠ m.tagId) :
    (extractMapping env g data m d).2.view id = d.view id := by
  obtain heq | ⟨d₁, q, hd₁, -, heq⟩ | ⟨v, -, heq⟩ | ⟨-, heq⟩ := extractMapping_cases env g data m d
  · rw [heq]
  · rw [heq]
    rcases hd₁ with rfl | rfl
    · exact DriverState.view_setTagQuality_ne _ q h
    · exact DriverState.view_setTagQuality_ne _ q h
  · rw [heq]
    exact DriverState.view_updateTagValue_ne d v _ h
  · rw [heq]
    rfl

theorem extends_extractMapping (env : Env) (g : ReadGroup) (data : List UInt8) (m : TagMapping)
    (d : State) : Extends d (extractMapping env g data m d).2 := by
  obtain heq | ⟨d₁, q, hd₁, -, heq⟩ | ⟨v, -, heq⟩ | ⟨-, heq⟩ := extractMapping_cases env g data m d
  · rw [heq]
    exact Extends.refl d
  · rw [heq]
    rcases hd₁ with rfl | rfl
    · exact DriverState.extends_setTagQuality _ _ q
    · exact (DriverState.extends_tick d).trans (DriverState.extends_setTagQuality _ _ q)
  · rw [heq]
    exact DriverState.extends_updateTagValue d _ v _
  · rw [heq]
    exact DriverState.extends_tick d

theorem sameIo_extractMapping (env : Env) (g : ReadGroup) (data : List UInt8) (m : TagMapping)
    (d : State) : SameIo d (extractMapping env g data m d).2 := by
  obtain heq | ⟨d₁, q, hd₁, -, heq⟩ | ⟨v, -, heq⟩ | ⟨-, heq⟩ := extractMapping_cases env g data m d
  · rw [heq]
    exact SameIo.refl d
  · rw [heq]
    rcases hd₁ with rfl | rfl
    · exact DriverState.sameIo_setTagQuality _ _ q
    · exact (DriverState.sameIo_tick d).trans (DriverState.sameIo_setTagQuality _ _ q)
  · rw [heq]
    exact DriverState.sameIo_updateTagValue d _ v _
  · rw [heq]
    exact DriverState.sameIo_tick d

/-- A mapping outside the chunk is skipped. -/
theorem extractMapping_of_misses (h : g.Misses m) : extractMapping env g data m d = (.ok (), d) := by
  rw [extractMapping, if_pos h]

/-- A mapping that meets a complete response gets what its piece decodes
    to. -/
theorem extractMapping_of_meets (h : ¬ g.Misses m)
    (hlong : (g.overlapBytes m).1 + (g.overlapBytes m).2 ≤ data.length)
    (hreg : d.Registered m.tagId m.dataType) :
    extractMapping env g data m d =
      match piece env.chrono g data m with
      | .done v => (.ok (), d.updateTagValue env.clock m.tagId v .good)
      | .failed e =>
          (.ok (), d.tick.setTagQuality env.clock m.tagId (.error ("decode_failed: " ++ e.display)))
      | .panicked => (.error .panicked, d.tick) := by
  obtain ⟨def_, hdef, -⟩ := TagRegistry.dataType?_eq_some.mp hreg.1
  rw [extractMapping, if_neg h]
  simp only
  rw [if_neg (by omega), decodeAndUpdateTag, hdef]
  simp only
  rw [show decodeBytes env.chrono m.dataType m.bitOffset (applyByteOrder
    ((data.drop (g.overlapBytes m).1).take (g.overlapBytes m).2) m.byteOrder)
      = piece env.chrono g data m from rfl]
  cases piece env.chrono g data m <;> rfl

/-- A piece that does not decode degrades the tag. -/
theorem extractMapping_of_not_done (h : ¬ g.Misses m)
    (hlong : (g.overlapBytes m).1 + (g.overlapBytes m).2 ≤ data.length)
    (hp : ∀ v, piece env.chrono g data m ≠ .done v) {d' : State}
    (hok : extractMapping env g data m d = (.ok (), d')) : d'.NotGood m.tagId := by
  rw [extractMapping, if_neg h] at hok
  simp only at hok
  rw [if_neg (by omega), decodeAndUpdateTag] at hok
  cases hdef : d.registry.getDefinition m.tagId with
  | error e =>
      simp only [hdef] at hok
      obtain rfl := congrArg Prod.snd hok
      exact DriverState.notGood_setTagQuality _ _ (by simp)
  | ok def_ =>
      simp only [hdef] at hok
      rw [show decodeBytes env.chrono m.dataType m.bitOffset (applyByteOrder
        ((data.drop (g.overlapBytes m).1).take (g.overlapBytes m).2) m.byteOrder)
          = piece env.chrono g data m from rfl] at hok
      cases hpiece : piece env.chrono g data m with
      | done v => exact absurd hpiece (hp v)
      | failed e =>
          rw [hpiece] at hok
          obtain rfl := congrArg Prod.snd hok
          exact DriverState.notGood_setTagQuality _ _ (by simp)
      | panicked =>
          rw [hpiece] at hok
          exact absurd (congrArg Prod.fst hok) (by simp)

-- ============================================================================
-- Extracting all mappings of a group
-- ============================================================================

theorem extends_runExtract (env : Env) (g : ReadGroup) (data : List UInt8) (ms : List TagMapping)
    (d : State) : Extends d (runList (extractMapping env g data) ms d).2 :=
  runList_rel Extends.refl Extends.trans (fun m _ d => extends_extractMapping env g data m d) d

theorem sameIo_runExtract (env : Env) (g : ReadGroup) (data : List UInt8) (ms : List TagMapping)
    (d : State) : SameIo d (runList (extractMapping env g data) ms d).2 :=
  runList_rel SameIo.refl SameIo.trans (fun m _ d => sameIo_extractMapping env g data m d) d

theorem view_runExtract_ne {ms : List TagMapping} {id : String}
    (h : id ∉ ms.map TagMapping.tagId) :
    (runList (extractMapping env g data) ms d).2.view id = d.view id := by
  refine runList_invariant (I := fun d' : State => d'.view id = d.view id) ?_ rfl
  intro m hm d' hd'
  rw [view_extractMapping_ne (fun heq => h (by rw [heq]; exact List.mem_map_of_mem hm)), hd']

/-- Among mappings with different ids, a tag sees its own extraction only. -/
theorem view_runExtract {ms : List TagMapping} (hnodup : (ms.map TagMapping.tagId).Nodup)
    (hm : m ∈ ms) {d' : State} (hok : runList (extractMapping env g data) ms d = (.ok (), d')) :
    ∃ d₁ d₂, Extends d d₁ ∧ d₁.view m.tagId = d.view m.tagId ∧
      extractMapping env g data m d₁ = (.ok (), d₂) ∧ d'.view m.tagId = d₂.view m.tagId := by
  obtain ⟨l₁, l₂, rfl⟩ := List.append_of_mem hm
  rw [List.map_append, List.map_cons, List.nodup_append, List.nodup_cons] at hnodup
  obtain ⟨-, ⟨hafter, -⟩, hdisj⟩ := hnodup
  have hbefore : m.tagId ∉ l₁.map TagMapping.tagId := by
    intro h
    exact hdisj _ h _ (List.mem_cons_self ..) rfl
  obtain ⟨d₁, d₂, hok₁, hstep, hok₂⟩ := runList_at_ok hok
  have hext := extends_runExtract env g data l₁ d
  have hview₁ : (runList (extractMapping env g data) l₁ d).2.view m.tagId = d.view m.tagId :=
    view_runExtract_ne hbefore
  have hview₂ : (runList (extractMapping env g data) l₂ d₂).2.view m.tagId = d₂.view m.tagId :=
    view_runExtract_ne hafter
  rw [hok₁] at hext hview₁
  rw [hok₂] at hview₂
  exact ⟨d₁, d₂, hext, hview₁, hstep, hview₂⟩

/-- Extraction fails only by a panic of the decoder, on a mapping it meets. -/
theorem extractMapping_error {e : Halt} {d' : State} (h : extractMapping env g data m d = (.error e, d')) :
    e = .panicked ∧ ¬ g.Misses m ∧ piece env.chrono g data m = .panicked := by
  have hmeets : ¬ g.Misses m := by
    intro hmiss
    rw [extractMapping_of_misses hmiss] at h
    exact absurd (congrArg Prod.fst h) (by simp)
  obtain heq | ⟨d₁, q, -, -, heq⟩ | ⟨v, -, heq⟩ | ⟨hp, heq⟩ := extractMapping_cases env g data m d
  · rw [heq] at h
    exact absurd (congrArg Prod.fst h) (by simp)
  · rw [heq] at h
    exact absurd (congrArg Prod.fst h) (by simp)
  · rw [heq] at h
    exact absurd (congrArg Prod.fst h) (by simp)
  · rw [heq] at h
    exact ⟨by simpa using (congrArg Prod.fst h).symm, hmeets, hp⟩

/-- Extraction stops only by a panic. -/
theorem runExtract_error {ms : List TagMapping} {e : Halt} {d' : State}
    (h : runList (extractMapping env g data) ms d = (.error e, d')) : e = .panicked := by
  obtain ⟨l₁, m, l₂, d₀, -, -, hstep⟩ := exists_failed_step h
  exact (extractMapping_error hstep).1

/-- Without a panicking piece, all mappings are extracted. -/
theorem runExtract_ok {ms : List TagMapping}
    (h : ∀ m ∈ ms, ¬ g.Misses m → piece env.chrono g data m ≠ .panicked) (d : State) :
    ∃ d', runList (extractMapping env g data) ms d = (.ok (), d') := by
  rcases except_cases (runList (extractMapping env g data) ms d) with ⟨d', h'⟩ | ⟨e, d', h'⟩
  · exact ⟨d', h'⟩
  · obtain ⟨l₁, m, l₂, d₀, rfl, -, hstep⟩ := exists_failed_step h'
    obtain ⟨-, hmeets, hp⟩ := extractMapping_error hstep
    exact absurd hp (h m (by simp) hmeets)

-- ============================================================================
-- Short payloads
-- ============================================================================

/-- The ids of the mappings that meet a request. -/
def ReadGroup.metIds (g : ReadGroup) : List String :=
  (g.mappings.filter fun m => ¬ g.Misses m).map TagMapping.tagId

theorem mem_metIds {id : String} :
    id ∈ g.metIds ↔ ∃ m ∈ g.mappings, ¬ g.Misses m ∧ m.tagId = id := by
  simp [ReadGroup.metIds, and_assoc]

/-- A short payload marks the mappings it meets. -/
theorem markShort_eq (env : Env) (g : ReadGroup) (d : State) :
    markShort env g d = d.markAll env.clock g.metIds (.error "short_payload") := by
  rw [markShort, DriverState.markAll, ReadGroup.metIds, List.foldl_map, List.foldl_filter]
  congr 1
  funext d m
  by_cases h : g.Misses m
  · rw [if_pos h, if_neg (by simpa using h)]
  · rw [if_neg h, if_pos (by simpa using h)]

-- ============================================================================
-- One read
-- ============================================================================

/-- The connection a request of this state is made on. -/
def nextCtx (d : State) : Nat := d.takeOrConnect.1

/-- The exchange a read step makes. -/
def readExchange (env : Env) (g : ReadGroup) (d : State) : Exchange :=
  .read (nextCtx d) d.session g
    (env.transfer d.trace (nextCtx d) (readFrame d.session g.area g.startAddress g.wordCount))

/-- How the driver understands the outcome of an exchange. -/
def Exchange.response : Exchange → Response
  | .read _ sid _ result => result.response sid
  | .write _ sid _ _ _ result => result.response sid

/-- The state in which the response to a read is handled. -/
def afterRead (env : Env) (g : ReadGroup) (d : State) : State :=
  (drawSid d).takeOrConnect.2.record (readExchange env g d)

theorem takeOrConnect_drawSid (d : State) : (drawSid d).takeOrConnect.1 = nextCtx d := by
  have hconn : (drawSid d).conn = d.conn := rfl
  rw [nextCtx, DriverState.takeOrConnect, DriverState.takeOrConnect, hconn]
  cases d.conn <;> rfl

theorem readStep_eq (env : Env) (g : ReadGroup) (d : State) :
    readStep env g d = finishRead env g (nextCtx d) (readExchange env g d).response
      (afterRead env g d) := by
  have htrace : (drawSid d).takeOrConnect.2.trace = d.trace :=
    DriverState.trace_takeOrConnect (drawSid d)
  rw [readStep, afterRead, readExchange]
  simp only [takeOrConnect_drawSid, htrace]
  rfl

theorem trace_afterRead (env : Env) (g : ReadGroup) (d : State) :
    (afterRead env g d).trace = d.trace ++ [readExchange env g d] := by
  show (drawSid d).takeOrConnect.2.trace ++ _ = _
  rw [DriverState.trace_takeOrConnect]
  rfl

theorem extends_afterRead (env : Env) (g : ReadGroup) (d : State) : Extends d (afterRead env g d) := by
  have hdraw : Extends d (drawSid d) := ⟨⟨[], rfl⟩, List.prefix_refl _⟩
  exact (hdraw.trans (DriverState.extends_takeOrConnect (drawSid d))).trans
    (DriverState.extends_record _ _)

theorem view_afterRead (env : Env) (g : ReadGroup) (d : State) (id : String) :
    (afterRead env g d).view id = d.view id :=
  DriverState.view_takeOrConnect (drawSid d) id

/-- The responses that end the loop over the read groups. -/
def Response.breaks : Response → Bool
  | .lost _ | .malformed _ | .refused _ => true
  | .mismatched | .accepted _ => false

/-- The four things that can follow a response: the loop ends with the whole
    group degraded, it goes on with the whole group degraded, with the met
    mappings degraded, or the mappings are extracted. -/
theorem finishRead_cases (env : Env) (g : ReadGroup) (ctx : Nat) (response : Response) (d : State) :
    (response.breaks = true ∧ ∃ d', finishRead env g ctx response d = (.error .broke, d') ∧
      Extends d d' ∧ d'.trace = d.trace ∧
      ∃ q, q ≠ .good ∧ ∀ id, d'.view id = (d.markAll env.clock g.ids q).view id) ∨
    (response = .mismatched ∧
      finishRead env g ctx response d =
        (.ok (), (d.putBack (some ctx)).markAll env.clock g.ids .commLost)) ∨
    ∃ data, response = .accepted data ∧
      ((data.length < g.wordCount.toNat * 2 ∧ finishRead env g ctx response d =
        (.ok (), (d.putBack (some ctx)).markAll env.clock g.metIds (.error "short_payload"))) ∨
       (g.wordCount.toNat * 2 ≤ data.length ∧ finishRead env g ctx response d =
        runList (extractMapping env g data) g.mappings (d.putBack (some ctx)))) := by
  -- Emptying or filling the slot commutes with marking.
  have hput : ∀ (slot : Option Nat) (q : TagQuality) (id : String),
      ((d.putBack slot).markAll env.clock g.ids q).view id = (d.markAll env.clock g.ids q).view id := by
    intro slot q id
    rw [DriverState.view_markAll, DriverState.view_markAll]
    rfl
  cases response with
  | lost err =>
      refine .inl ⟨rfl, _, rfl, ?_, ?_, .commLost, by simp, fun id => rfl⟩
      · exact (DriverState.extends_markAll d _ _).trans (DriverState.extends_putBack _ _)
      · exact (DriverState.sameIo_markAll d _ _).trace
  | malformed e =>
      refine .inl ⟨rfl, _, rfl, ?_, ?_, _, ?_, fun id => hput _ _ id⟩
      · exact (DriverState.extends_putBack d _).trans (DriverState.extends_markAll _ _ _)
      · exact (DriverState.sameIo_markAll (d.putBack (some ctx)) _ _).trace
      · simp
  | mismatched => exact .inr (.inl ⟨rfl, rfl⟩)
  | refused code =>
      refine .inl ⟨rfl, _, rfl, ?_, ?_, _, ?_, fun id => hput _ _ id⟩
      · exact (DriverState.extends_putBack d _).trans (DriverState.extends_markAll _ _ _)
      · exact (DriverState.sameIo_markAll (d.putBack (some ctx)) _ _).trace
      · simp
  | accepted data =>
      refine .inr (.inr ⟨data, rfl, ?_⟩)
      rw [finishRead]
      by_cases hshort : data.length < g.wordCount.toNat * 2
      · rw [if_pos hshort, markShort_eq]
        exact .inl ⟨hshort, rfl⟩
      · rw [if_neg hshort]
        exact .inr ⟨by omega, rfl⟩

/-- Handling a response makes no exchange and neither adds nor removes
    tags. -/
theorem extends_finishRead (env : Env) (g : ReadGroup) (ctx : Nat) (response : Response) (d : State) :
    Extends d (finishRead env g ctx response d).2 ∧
      (finishRead env g ctx response d).2.trace = d.trace := by
  obtain ⟨-, d', h, hext, htrace, -⟩ | ⟨-, h⟩ | ⟨data, -, ⟨-, h⟩ | ⟨-, h⟩⟩ :=
    finishRead_cases env g ctx response d
  · rw [h]
    exact ⟨hext, htrace⟩
  · rw [h]
    exact ⟨(DriverState.extends_putBack d _).trans (DriverState.extends_markAll _ _ _),
      (DriverState.sameIo_markAll (d.putBack (some ctx)) _ _).trace⟩
  · rw [h]
    exact ⟨(DriverState.extends_putBack d _).trans (DriverState.extends_markAll _ _ _),
      (DriverState.sameIo_markAll (d.putBack (some ctx)) _ _).trace⟩
  · rw [h]
    exact ⟨(DriverState.extends_putBack d _).trans (extends_runExtract env g data _ _),
      (sameIo_runExtract env g data _ _).trace⟩

theorem trace_readStep (env : Env) (g : ReadGroup) (d : State) :
    (readStep env g d).2.trace = d.trace ++ [readExchange env g d] := by
  rw [readStep_eq, (extends_finishRead ..).2, trace_afterRead]

theorem extends_readStep (env : Env) (g : ReadGroup) (d : State) : Extends d (readStep env g d).2 := by
  rw [readStep_eq]
  exact (extends_afterRead env g d).trans (extends_finishRead ..).1

theorem metIds_subset {id : String} (h : id ∈ g.metIds) : id ∈ g.ids := by
  obtain ⟨m, hm, -, rfl⟩ := mem_metIds.mp h
  exact List.mem_map_of_mem hm

/-- A read does not touch tags outside its group. -/
theorem view_readStep_ne {id : String} (h : id ∉ g.ids) :
    (readStep env g d).2.view id = d.view id := by
  rw [readStep_eq, ← view_afterRead env g d id]
  obtain ⟨-, d', heq, -, -, q, -, hview⟩ | ⟨-, heq⟩ | ⟨data, -, ⟨-, heq⟩ | ⟨-, heq⟩⟩ :=
    finishRead_cases env g (nextCtx d) (readExchange env g d).response (afterRead env g d)
  · rw [heq, hview, DriverState.view_markAll, if_neg h]
  · rw [heq, DriverState.view_markAll, if_neg h]
    rfl
  · rw [heq, DriverState.view_markAll, if_neg fun hid => h (metIds_subset hid)]
    rfl
  · rw [heq, view_runExtract_ne h]
    rfl

-- ============================================================================
-- Runs of reads
-- ============================================================================

/-- The loop over the read groups. -/
def readLoop (env : Env) : ReadLoop Halt ReadGroup Exchange UInt8 where
  step := readStep env
  exchange := readExchange env
  ids := ReadGroup.ids
  extends_step := extends_readStep env
  trace_step := trace_readStep env
  view_step_ne := view_readStep_ne

theorem extends_runReads (env : Env) (gs : List ReadGroup) (d : State) :
    Extends d (runList (readStep env) gs d).2 := (readLoop env).extends_run gs d

-- ============================================================================
-- One write
-- ============================================================================

/-- The words the PLC is asked to store for a value. -/
def TagMapping.writeWords (m : TagMapping) (value : TagValue) : List UInt16 :=
  m.orderedWords (standardWords value)

theorem writeWords_eq (m : TagMapping) (v : TagValue) :
    m.writeWords v = m.byteOrder.onWords (standardWords v) := by
  rw [TagMapping.writeWords, TagMapping.orderedWords, applyByteOrder_beBytes, beWords_beBytes]

/-- A write to a writable mapping is sent. -/
theorem processWrite_of_find {mappings : List TagMapping} {req : WriteRequest}
    (hfind : mappings.find? (fun m => m.tagId = req.tagId) = some m) (hw : m.writable) (d : State) :
    processWrite env mappings req d = sendWrite env m req (m.writeWords req.value) d := by
  have heven : (applyByteOrder (beBytes (standardWords req.value)) m.byteOrder).length % 2 = 0 := by
    rw [length_applyByteOrder, length_beBytes]
    omega
  rw [processWrite, hfind]
  simp only [hw, Bool.not_true, Bool.false_eq_true, if_false, tagvalueToWordsStandard_eq]
  rw [if_neg (by omega)]
  rfl

/-- A write request is refused without contacting the PLC, or it is sent to a
    writable mapping of its tag. -/
theorem processWrite_cases (env : Env) (mappings : List TagMapping) (req : WriteRequest) (d : State) :
    (∃ msg, processWrite env mappings req d = d.sendReply req (.error msg)) ∨
    ∃ m, mappings.find? (fun m => m.tagId = req.tagId) = some m ∧ m.writable ∧
      processWrite env mappings req d = sendWrite env m req (m.writeWords req.value) d := by
  cases hfind : mappings.find? (fun m => m.tagId = req.tagId) with
  | none =>
      rw [processWrite, hfind]
      exact .inl ⟨_, rfl⟩
  | some m =>
      by_cases hw : m.writable
      · exact .inr ⟨m, rfl, hw, processWrite_of_find hfind hw d⟩
      · rw [processWrite, hfind]
        simp only [hw, Bool.not_false, if_true]
        exact .inl ⟨_, rfl⟩

/-- The exchange a write makes. -/
def writeExchange (env : Env) (m : TagMapping) (req : WriteRequest) (d : State) : Exchange :=
  .write (nextCtx d) d.session req m (m.writeWords req.value)
    (env.transfer d.trace (nextCtx d)
      (writeFrame d.session m.area m.address m.bitOffset (m.writeWords req.value)))

/-- The state in which the response to a write is handled. -/
def afterWrite (env : Env) (m : TagMapping) (req : WriteRequest) (d : State) : State :=
  (drawSid d).takeOrConnect.2.record (writeExchange env m req d)

theorem sendWrite_eq (env : Env) (m : TagMapping) (req : WriteRequest) (d : State) :
    sendWrite env m req (m.writeWords req.value) d =
      finishWrite env m req (nextCtx d) (writeExchange env m req d).response
        (afterWrite env m req d) := by
  have htrace : (drawSid d).takeOrConnect.2.trace = d.trace :=
    DriverState.trace_takeOrConnect (drawSid d)
  rw [sendWrite, afterWrite, writeExchange]
  simp only [takeOrConnect_drawSid, htrace]
  rfl

/-- After an accepted write the tag holds the value; after any other outcome
    it is degraded and the requester is told. -/
theorem finishWrite_cases (env : Env) (m : TagMapping) (req : WriteRequest) (ctx : Nat)
    (response : Response) (d : State) :
    (∃ data, response = .accepted data ∧ finishWrite env m req ctx response d =
      ((d.putBack (some ctx)).updateTagValue env.clock m.tagId req.value .good).sendReply req (.ok ())) ∨
    ((∀ data, response ≠ .accepted data) ∧ ∃ slot q msg, q ≠ .good ∧
      finishWrite env m req ctx response d =
        ((d.putBack slot).setTagQuality env.clock m.tagId q).sendReply req (.error msg)) := by
  cases response with
  | lost err => exact .inr ⟨by simp, none, .commLost, _, by simp, rfl⟩
  | malformed e => exact .inr ⟨by simp, some ctx, _, _, by simp, rfl⟩
  | mismatched => exact .inr ⟨by simp, some ctx, .commLost, _, by simp, rfl⟩
  | refused code => exact .inr ⟨by simp, some ctx, _, _, by simp, rfl⟩
  | accepted data => exact .inl ⟨data, rfl, rfl⟩

theorem extends_afterWrite (env : Env) (m : TagMapping) (req : WriteRequest) (d : State) :
    Extends d (afterWrite env m req d) := by
  have hdraw : Extends d (drawSid d) := ⟨⟨[], rfl⟩, List.prefix_refl _⟩
  exact (hdraw.trans (DriverState.extends_takeOrConnect (drawSid d))).trans
    (DriverState.extends_record _ _)

theorem extends_processWrite (env : Env) (mappings : List TagMapping) (req : WriteRequest) (d : State) :
    Extends d (processWrite env mappings req d) := by
  obtain ⟨msg, h⟩ | ⟨m, -, -, h⟩ := processWrite_cases env mappings req d
  · rw [h]
    exact DriverState.extends_sendReply d req _
  · have hsent := extends_afterWrite env m req d
    rw [h, sendWrite_eq]
    obtain ⟨data, -, hf⟩ | ⟨-, slot, q, msg, -, hf⟩ := finishWrite_cases env m req (nextCtx d)
      (writeExchange env m req d).response (afterWrite env m req d)
    · rw [hf]
      exact ((hsent.trans (DriverState.extends_putBack _ _)).trans
        (DriverState.extends_updateTagValue _ _ _ _)).trans (DriverState.extends_sendReply _ _ _)
    · rw [hf]
      exact ((hsent.trans (DriverState.extends_putBack _ _)).trans
        (DriverState.extends_setTagQuality _ _ q)).trans (DriverState.extends_sendReply _ _ _)

theorem trace_sendWrite (env : Env) (m : TagMapping) (req : WriteRequest) (d : State) :
    (sendWrite env m req (m.writeWords req.value) d).trace =
      d.trace ++ [writeExchange env m req d] := by
  have hsent : (afterWrite env m req d).trace = d.trace ++ [writeExchange env m req d] := by
    show (drawSid d).takeOrConnect.2.trace ++ _ = _
    rw [DriverState.trace_takeOrConnect]
    rfl
  rw [sendWrite_eq, ← hsent]
  obtain ⟨data, -, hf⟩ | ⟨-, slot, q, msg, -, hf⟩ := finishWrite_cases env m req (nextCtx d)
    (writeExchange env m req d).response (afterWrite env m req d)
  · rw [hf]
    rfl
  · rw [hf]
    rfl

/-- A write makes at most its own exchange. -/
theorem trace_processWrite (env : Env) (mappings : List TagMapping) (req : WriteRequest) (d : State) :
    (processWrite env mappings req d).trace = d.trace ∨
    ∃ m, mappings.find? (fun m => m.tagId = req.tagId) = some m ∧ m.writable ∧
      (processWrite env mappings req d).trace = d.trace ++ [writeExchange env m req d] := by
  obtain ⟨msg, h⟩ | ⟨m, hfind, hw, h⟩ := processWrite_cases env mappings req d
  · rw [h]
    exact .inl rfl
  · exact .inr ⟨m, hfind, hw, by rw [h, trace_sendWrite]⟩

theorem extends_drainWrites (env : Env) (mappings : List TagMapping) (n : Nat) (d : State) :
    Extends d (drainWrites env mappings n d) := by
  induction n generalizing d with
  | zero => exact Extends.refl d
  | succ n ih =>
      rw [drainWrites]
      cases hq : d.queue with
      | nil => exact Extends.refl d
      | cons req rest =>
          have hpop : Extends d { d with queue := rest } :=
            ⟨⟨[], rfl⟩, List.prefix_refl _⟩
          exact (hpop.trans (extends_processWrite env mappings req _)).trans (ih _)

/-- What holds of all writes holds of the exchanges of the write phase. -/
theorem allNew_drainWrites {P : Exchange → Prop}
    (hP : ∀ ctx sid req m words result, P (.write ctx sid req m words result)) (mappings : List TagMapping)
    (n : Nat) (d : State) : AllNew P d (drainWrites env mappings n d) := by
  induction n generalizing d with
  | zero => exact AllNew.of_trace_eq rfl
  | succ n ih =>
      rw [drainWrites]
      cases hq : d.queue with
      | nil => exact AllNew.of_trace_eq rfl
      | cons req rest =>
          have hpop : Extends d { d with queue := rest } :=
            ⟨⟨[], rfl⟩, List.prefix_refl _⟩
          refine AllNew.join (hpop.trans (extends_processWrite env mappings req _))
            (extends_drainWrites env mappings n _) ?_ (ih _)
          rcases trace_processWrite env mappings req { d with queue := rest } with h | ⟨m, -, -, h⟩
          · exact AllNew.of_trace_eq h
          · exact AllNew.of_singleton h (hP _ _ _ _ _ _)

-- ============================================================================
-- The cycle
-- ============================================================================

theorem trace_ensureConnected (d : State) : (ensureConnected d).trace = d.trace :=
  DriverState.trace_takeOrConnect d

/-- The state in which the reads of a cycle start. -/
def beforeReads (env : Env) (drv : FinsDriver) (d : State) : State :=
  drainWrites env drv.mappings 64 (ensureConnected d)

theorem extends_beforeReads (env : Env) (drv : FinsDriver) (d : State) :
    Extends d (beforeReads env drv d) :=
  ((DriverState.extends_takeOrConnect d).trans (DriverState.extends_putBack _ _)).trans
    (extends_drainWrites env drv.mappings 64 _)

/-- A cycle ends where its reads end, and panics exactly when they do. -/
theorem runReadCycleImpl_eq (env : Env) (drv : FinsDriver) (d : State) :
    (runReadCycleImpl env drv d).2 =
      (runList (readStep env) drv.readGroups (beforeReads env drv d)).2 ∧
    ((runReadCycleImpl env drv d).1 = .panicked ↔
      (runList (readStep env) drv.readGroups (beforeReads env drv d)).1 = .error .panicked) := by
  rw [runReadCycleImpl, ← beforeReads]
  rcases except_cases (runList (readStep env) drv.readGroups (beforeReads env drv d))
    with ⟨d', h⟩ | ⟨e, d', h⟩
  · rw [h]
    simp
  · rw [h]
    cases e with
    | broke => simp
    | panicked => simp

theorem extends_runReadCycleImpl (env : Env) (drv : FinsDriver) (d : State) :
    Extends d (runReadCycleImpl env drv d).2 := by
  rw [(runReadCycleImpl_eq env drv d).1]
  exact (extends_beforeReads env drv d).trans (extends_runReads env drv.readGroups _)

end PlcBridge.Fins
