/-
  PlcBridge.Bridge.Confinement

  A driver keeps to its own tags.  Whatever a read or a write of a driver does,
  it changes only tags its mappings name (`AgreeOn` outside them), and what it
  does depends on the registry only through the definitions and those tags: run
  on two registries that agree on them, it takes the same way and leaves two
  registries that agree on them.  The staleness check keeps to the tags of its
  PLC in the same sense.
-/
import PlcBridge.Bridge.GoodData
import PlcBridge.Lib.Unwinding

namespace PlcBridge

open PlcBridge.Lib

-- ============================================================================
-- Registries that agree on some tags
-- ============================================================================

namespace TagRegistry

/-- The same definitions, and the same tags under the ids in `P`. -/
structure AgreeOn (P : String → Prop) (r r' : TagRegistry) : Prop where
  definitions : r'.definitions = r.definitions
  tags : ∀ id, P id → r'.tag? id = r.tag? id

namespace AgreeOn

variable {P Q : String → Prop} {r r₁ r₂ r' : TagRegistry}

theorem refl (P : String → Prop) (r : TagRegistry) : AgreeOn P r r := ⟨rfl, fun _ _ => rfl⟩

theorem symm (h : AgreeOn P r r') : AgreeOn P r' r := ⟨h.definitions.symm, fun id hid => (h.tags id hid).symm⟩

theorem trans (h : AgreeOn P r r₁) (h' : AgreeOn P r₁ r₂) : AgreeOn P r r₂ :=
  ⟨h'.definitions.trans h.definitions, fun id hid => (h'.tags id hid).trans (h.tags id hid)⟩

theorem mono (h : AgreeOn P r r') (hQ : ∀ id, Q id → P id) : AgreeOn Q r r' :=
  ⟨h.definitions, fun id hid => h.tags id (hQ id hid)⟩

theorem getDefinition (h : AgreeOn P r r') (id : String) : r'.getDefinition id = r.getDefinition id := by
  rw [TagRegistry.getDefinition, h.definitions]
  rfl

theorem dataType? (h : AgreeOn P r r') (id : String) : r'.dataType? id = r.dataType? id := by
  rw [TagRegistry.dataType?, h.definitions]
  rfl

theorem getTag (h : AgreeOn P r r') {id : String} (hid : P id) : r'.getTag id = r.getTag id := by
  have htag : r'.tags.inner.tag? id = r.tags.inner.tag? id := h.tags id hid
  rw [TagRegistry.getTag, TagRegistry.getTag, TagStore.get, TagStore.get, Inner.get, Inner.get, htag]

theorem setTagQuality (h : AgreeOn P r r') (id : String) (q : TagQuality) (now : DateTime) :
    AgreeOn P (r.setTagQuality id q now).2 (r'.setTagQuality id q now).2 where
  definitions := h.definitions
  tags := by
    intro id' hid'
    rw [tag?_setTagQuality, tag?_setTagQuality]
    by_cases hid : id' = id
    · rw [if_pos hid, if_pos hid, h.tags id (hid ▸ hid')]
    · rw [if_neg hid, if_neg hid, h.tags id' hid']

theorem updateTagValue (h : AgreeOn P r r') (id : String) (v : TagValue) (q : TagQuality)
    (ts now : DateTime) : AgreeOn P (r.updateTagValue id v q ts now).2 (r'.updateTagValue id v q ts now).2 where
  definitions := by
    rw [definitions_updateTagValue, definitions_updateTagValue]
    exact h.definitions
  tags := by
    intro id' hid'
    rw [tag?_updateTagValue, tag?_updateTagValue, h.dataType?]
    by_cases hid : id' = id ∧ r.dataType? id = some v.dataType
    · rw [if_pos hid, if_pos hid, h.tags id (hid.1 ▸ hid')]
    · rw [if_neg hid, if_neg hid, h.tags id' hid']

end AgreeOn

variable {P : String → Prop}

/-- An update succeeds exactly when there is a tag. -/
theorem modify_result (i : Inner) (id : String) (f : Tag → Tag) :
    (i.modify id f).1 = match i.tag? id with
      | some t => .ok (f t)
      | none => .error (.tagNotFound id) := by
  rw [Inner.modify]
  cases hl : i.index.lookup id with
  | none =>
      have hnone : i.tag? id = none := by rw [Inner.tag?, hl]; rfl
      rw [hnone]
  | some idx =>
      cases i.tag? id <;> rfl

/-- The result of an update depends on the definition and the tag alone. -/
theorem AgreeOn.updateResult {r r' : TagRegistry} (h : AgreeOn P r r') {id : String} (hid : P id)
    (v : TagValue) (q : TagQuality) (ts now : DateTime) :
    (r'.updateTagValue id v q ts now).1 = (r.updateTagValue id v q ts now).1 := by
  have htag : r'.tags.inner.tag? id = r.tags.inner.tag? id := h.tags id hid
  rw [TagRegistry.updateTagValue, TagRegistry.updateTagValue, h.definitions]
  cases r.definitions.get id with
  | error e => rfl
  | ok d =>
      simp only [TagStore.updateValueWithExpected, Inner.updateValueWithExpected]
      split
      · rw [modify_result, modify_result, htag]
      · rfl

/-- A quality update changes its own tag only. -/
theorem agreeOn_setTagQuality (r : TagRegistry) {id : String} (hid : P id) (q : TagQuality)
    (now : DateTime) : AgreeOn (fun id => ¬ P id) r (r.setTagQuality id q now).2 where
  definitions := rfl
  tags := by
    intro id' hid'
    rw [tag?_setTagQuality, if_neg (fun heq : id' = id => hid' (heq ▸ hid))]

theorem agreeOn_updateTagValue (r : TagRegistry) {id : String} (hid : P id) (v : TagValue)
    (q : TagQuality) (ts now : DateTime) :
    AgreeOn (fun id => ¬ P id) r (r.updateTagValue id v q ts now).2 where
  definitions := definitions_updateTagValue r id v q ts now
  tags := by
    intro id' hid'
    rw [tag?_updateTagValue, if_neg (fun heq : id' = id ∧ _ => hid' (heq.1 ▸ hid))]

end TagRegistry

-- ============================================================================
-- Driver states
-- ============================================================================

namespace DriverState

variable {ξ σ : Type} {P : String → Prop} {clock : Nat → DateTime}

/-- The same but for tags outside `P`. -/
inductive AgreeOn (P : String → Prop) (d : DriverState ξ σ) : DriverState ξ σ → Prop
  | mk {r' : TagRegistry} (h : TagRegistry.AgreeOn P d.registry r') : AgreeOn P d { d with registry := r' }

/-- Nothing happened to tags outside `P`. -/
def TouchesOnly (P : String → Prop) (d d' : DriverState ξ σ) : Prop :=
  TagRegistry.AgreeOn (fun id => ¬ P id) d.registry d'.registry

namespace AgreeOn

variable {d d' : DriverState ξ σ}

theorem registry (h : AgreeOn P d d') : TagRegistry.AgreeOn P d.registry d'.registry := by
  cases h with
  | mk h => exact h

theorem trace (h : AgreeOn P d d') : d'.trace = d.trace := by
  cases h with
  | mk h => rfl

theorem session (h : AgreeOn P d d') : d'.session = d.session := by
  cases h with
  | mk h => rfl

theorem setTagQuality (h : AgreeOn P d d') (id : String) (q : TagQuality) :
    AgreeOn P (d.setTagQuality clock id q) (d'.setTagQuality clock id q) := by
  cases h with
  | mk h => exact .mk (h.setTagQuality id q _)

theorem updateTagValue (h : AgreeOn P d d') {id : String} (hid : P id) (v : TagValue) (q : TagQuality) :
    AgreeOn P (d.updateTagValue clock id v q) (d'.updateTagValue clock id v q) := by
  cases h with
  | @mk r' h =>
      have hresult := h.updateResult hid v q (clock d.ticks) (clock (d.ticks + 1))
      have hupdate := h.updateTagValue id v q (clock d.ticks) (clock (d.ticks + 1))
      unfold DriverState.updateTagValue
      simp only [hresult]
      exact .mk hupdate

theorem markAll (h : AgreeOn P d d') (ids : List String) (q : TagQuality) :
    AgreeOn P (d.markAll clock ids q) (d'.markAll clock ids q) :=
  related_foldl (R := AgreeOn P) (fun id _ _ _ h => h.setTagQuality id q) h

theorem sendReply (h : AgreeOn P d d') (req : WriteRequest) (result : Except String Unit) :
    AgreeOn P (d.sendReply req result) (d'.sendReply req result) := by
  cases h with
  | mk h => exact .mk h

theorem record (h : AgreeOn P d d') (x : ξ) : AgreeOn P (d.record x) (d'.record x) := by
  cases h with
  | mk h => exact .mk h

theorem putBack (h : AgreeOn P d d') (conn : Option Nat) : AgreeOn P (d.putBack conn) (d'.putBack conn) := by
  cases h with
  | mk h => exact .mk h

theorem tick (h : AgreeOn P d d') : AgreeOn P d.tick d'.tick := by
  cases h with
  | mk h => exact .mk h

theorem takeOrConnect (h : AgreeOn P d d') :
    d'.takeOrConnect.1 = d.takeOrConnect.1 ∧ AgreeOn P d.takeOrConnect.2 d'.takeOrConnect.2 := by
  cases h with
  | mk h =>
      unfold DriverState.takeOrConnect
      cases d.conn with
      | none => exact ⟨rfl, .mk h⟩
      | some c => exact ⟨rfl, .mk h⟩

end AgreeOn

namespace TouchesOnly

variable {d d₁ d₂ : DriverState ξ σ}

theorem refl (P : String → Prop) (d : DriverState ξ σ) : TouchesOnly P d d := TagRegistry.AgreeOn.refl _ _

theorem trans (h : TouchesOnly P d d₁) (h' : TouchesOnly P d₁ d₂) : TouchesOnly P d d₂ := TagRegistry.AgreeOn.trans h h'

theorem of_registry_eq (h : d₁.registry = d.registry) : TouchesOnly P d d₁ := by
  rw [TouchesOnly, h]
  exact .refl _ _

end TouchesOnly

theorem touchesOnly_setTagQuality (d : DriverState ξ σ) {id : String} (hid : P id) (q : TagQuality) :
    TouchesOnly P d (d.setTagQuality clock id q) := TagRegistry.agreeOn_setTagQuality _ hid q _

theorem touchesOnly_updateTagValue (d : DriverState ξ σ) {id : String} (hid : P id) (v : TagValue)
    (q : TagQuality) : TouchesOnly P d (d.updateTagValue clock id v q) :=
  TagRegistry.agreeOn_updateTagValue _ hid v q _ _

theorem touchesOnly_markAll (d : DriverState ξ σ) {ids : List String} (hids : ∀ id ∈ ids, P id)
    (q : TagQuality) : TouchesOnly P d (d.markAll clock ids q) := by
  induction ids generalizing d with
  | nil => exact .refl P d
  | cons id ids ih =>
      obtain ⟨hid, hrest⟩ := List.forall_mem_cons.mp hids
      exact (touchesOnly_setTagQuality d hid q).trans (ih (d.setTagQuality clock id q) hrest)

end DriverState

-- ============================================================================
-- Modbus
-- ============================================================================

namespace Modbus

open DriverState (AgreeOn TouchesOnly)

variable {P : String → Prop} {d d' : State}

theorem agreeOn_extractMapping (env : Env) (r : ReadRequest) (raw : List UInt8) {m : ModbusMapping}
    (hm : P m.tagId) (h : AgreeOn P d d') :
    AgreeOn P (extractMapping env r raw d m) (extractMapping env r raw d' m) := by
  unfold extractMapping
  simp only [h.registry.getDefinition m.tagId, h.registry.getTag hm]
  split
  · exact h
  · split
    · exact h.setTagQuality _ _
    · cases d.registry.getDefinition m.tagId with
      | error e => exact h.setTagQuality _ _
      | ok td =>
          cases d.registry.getTag m.tagId with
          | error e => exact h.setTagQuality _ _
          | ok t =>
              simp only
              split
              · exact h.updateTagValue hm _ _
              · exact h.setTagQuality _ _

theorem touchesOnly_extractMapping (env : Env) (r : ReadRequest) (raw : List UInt8) (d : State)
    {m : ModbusMapping} (hm : P m.tagId) : TouchesOnly P d (extractMapping env r raw d m) := by
  obtain heq | ⟨q, -, heq⟩ | ⟨v, -, heq⟩ := extractMapping_cases env r raw d m
  · rw [heq]
    exact .refl P d
  · rw [heq]
    exact d.touchesOnly_setTagQuality hm q
  · rw [heq]
    exact d.touchesOnly_updateTagValue hm v _

theorem touchesOnly_foldl_extract (env : Env) (r : ReadRequest) (raw : List UInt8) (d : State)
    {ms : List ModbusMapping} (hms : ∀ m ∈ ms, P m.tagId) :
    TouchesOnly P d (ms.foldl (extractMapping env r raw) d) := by
  induction ms generalizing d with
  | nil => exact .refl P d
  | cons m ms ih =>
      obtain ⟨hm, hrest⟩ := List.forall_mem_cons.mp hms
      exact (touchesOnly_extractMapping env r raw d hm).trans (ih _ hrest)

theorem agreeOn_readStep (env : Env) (ctx : Nat) {r : ReadRequest} (hr : ∀ m ∈ r.members, P m.tagId)
    (h : AgreeOn P d d') : AgreeOn P (readStep env ctx r d).2 (readStep env ctx r d').2 := by
  unfold readStep
  simp only [h.trace]
  have hrecord := h.record (.read ctx r.func r.start r.qty (env.read d.trace ctx r.func r.start r.qty))
  cases (env.read d.trace ctx r.func r.start r.qty).payload with
  | ok raw =>
      refine related_foldl (R := AgreeOn P) ?_ hrecord
      intro m hm d d' h
      exact agreeOn_extractMapping env r raw (hr m hm) h
  | error err =>
      simp only
      split
      · exact hrecord.markAll _ _
      · split
        · exact (hrecord.markAll _ _).putBack none
        · exact hrecord

theorem touchesOnly_readStep (env : Env) (ctx : Nat) {r : ReadRequest} (hr : ∀ m ∈ r.members, P m.tagId)
    (d : State) : TouchesOnly P d (readStep env ctx r d).2 := by
  have hids : ∀ id ∈ r.ids, P id := by
    intro id hid
    obtain ⟨m, hm, rfl⟩ := List.mem_map.mp hid
    exact hr m hm
  obtain ⟨data, -, heq⟩ | ⟨err, -, ⟨-, heq⟩ | ⟨-, heq⟩ | ⟨-, -, heq⟩⟩ := readStep_cases env ctx r d
  · rw [heq]
    exact touchesOnly_foldl_extract env r data.rawBytes (d.record (readExchange env ctx r d)) hr
  · rw [heq]
    exact (d.record _).touchesOnly_markAll hids _
  · rw [heq]
    exact (d.record _).touchesOnly_markAll hids _
  · rw [heq]
    exact .of_registry_eq rfl

theorem agreeOn_finishWrite (env : Env) {m : ModbusMapping} (hm : P m.tagId) (req : WriteRequest)
    (result : CallResult Unit) (h : AgreeOn P d d') :
    AgreeOn P (finishWrite env m req result d).2 (finishWrite env m req result d').2 := by
  cases result with
  | ok u => exact (h.updateTagValue hm _ _).sendReply _ _
  | exception code =>
      simp only [finishWrite]
      split
      · exact (h.setTagQuality _ _).sendReply _ _
      · exact ((h.setTagQuality _ _).sendReply _ _).putBack _
  | transport msg => exact ((h.setTagQuality _ _).sendReply _ _).putBack _
  | timeout => exact ((h.setTagQuality _ _).sendReply _ _).putBack _

theorem agreeOn_sendWrite (env : Env) {m : ModbusMapping} (hm : P m.tagId) (req : WriteRequest)
    (words : List UInt16) (h : AgreeOn P d d') :
    AgreeOn P (sendWrite env m req words d).2 (sendWrite env m req words d').2 := by
  obtain ⟨hctx, htaken⟩ := h.takeOrConnect
  unfold sendWrite
  simp only [hctx, htaken.trace]
  exact agreeOn_finishWrite env hm req _ ((htaken.record _).putBack _)

/-- A write is decided by the mapping it finds. -/
theorem agreeOn_processWrite (env : Env) {mappings : List ModbusMapping} (req : WriteRequest)
    (hms : ∀ m ∈ mappings, P m.tagId) (h : AgreeOn P d d') :
    AgreeOn P (processWrite env mappings req d).2 (processWrite env mappings req d').2 := by
  unfold processWrite
  cases hfind : mappings.find? fun m => m.tagId = req.tagId with
  | none => exact h.sendReply _ _
  | some m =>
      have hm : P m.tagId := hms m (List.mem_of_find?_eq_some hfind)
      simp only
      split
      · exact h.sendReply _ _
      · split
        · exact (h.setTagQuality _ _).sendReply _ _
        · split
          · split
            · exact (h.setTagQuality _ _).sendReply _ _
            · exact agreeOn_sendWrite env hm req _ h
          · exact (h.setTagQuality _ _).sendReply _ _

theorem touchesOnly_finishWrite (env : Env) {m : ModbusMapping} (hm : P m.tagId) (req : WriteRequest)
    (result : CallResult Unit) (d : State) : TouchesOnly P d (finishWrite env m req result d).2 := by
  obtain ⟨-, heq⟩ | ⟨-, -, q, msg, -, heq⟩ | ⟨-, e, q, msg, -, heq⟩ := finishWrite_cases env m req result d
  · rw [heq]
    exact d.touchesOnly_updateTagValue hm _ _
  · rw [heq]
    exact d.touchesOnly_setTagQuality hm q
  · rw [heq]
    exact d.touchesOnly_setTagQuality hm q

theorem touchesOnly_processWrite (env : Env) {mappings : List ModbusMapping} (req : WriteRequest)
    (hms : ∀ m ∈ mappings, P m.tagId) (d : State) : TouchesOnly P d (processWrite env mappings req d).2 := by
  cases hfind : mappings.find? fun m => m.tagId = req.tagId with
  | none =>
      rw [processWrite_of_unmapped hfind]
      exact .of_registry_eq rfl
  | some m =>
      have hm : P m.tagId := hms m (List.mem_of_find?_eq_some hfind)
      by_cases hw : m.writable
      · by_cases hfunc : m.function = .holdingRegisters
        · rw [processWrite_of_holding hfind hw hfunc, sendWrite_eq]
          have htaken : TouchesOnly P d
              ((d.takeOrConnect.2.record (writeExchange env m req d)).putBack (some d.takeOrConnect.1)) :=
            .of_registry_eq d.registry_takeOrConnect
          exact htaken.trans (touchesOnly_finishWrite env hm req _ _)
        · rw [processWrite_of_not_holding hfind hw hfunc]
          exact d.touchesOnly_setTagQuality hm _
      · rw [processWrite_of_read_only hfind hw]
        exact .of_registry_eq rfl

end Modbus

-- ============================================================================
-- FINS
-- ============================================================================

namespace Fins

open DriverState (AgreeOn TouchesOnly)

variable {P : String → Prop} {d d' : State}

theorem agreeOn_drawSid (h : AgreeOn P d d') : AgreeOn P (drawSid d) (drawSid d') := by
  cases h with
  | mk h => exact .mk h

theorem alike_extractMapping (env : Env) (g : ReadGroup) (data : List UInt8) {m : TagMapping}
    (hm : P m.tagId) : Alike (AgreeOn P) (extractMapping env g data m) := by
  intro d d' h
  unfold extractMapping
  split
  · exact ⟨rfl, h⟩
  · simp only
    split
    · exact ⟨rfl, h.setTagQuality _ _⟩
    · simp only [decodeAndUpdateTag, h.registry.getDefinition m.tagId]
      cases d.registry.getDefinition m.tagId with
      | error e => exact ⟨rfl, h.setTagQuality _ _⟩
      | ok td =>
          simp only
          cases decodeBytes env.chrono m.dataType m.bitOffset (applyByteOrder
              ((data.drop (g.overlapBytes m).1).take (g.overlapBytes m).2) m.byteOrder) with
          | done v => exact ⟨rfl, h.updateTagValue hm v _⟩
          | failed e => exact ⟨rfl, h.tick.setTagQuality _ _⟩
          | panicked => exact ⟨rfl, h.tick⟩

theorem touchesOnly_extractMapping (env : Env) (g : ReadGroup) (data : List UInt8) {m : TagMapping}
    (hm : P m.tagId) (d : State) : TouchesOnly P d (extractMapping env g data m d).2 := by
  obtain heq | ⟨d₁, q, hd₁, -, heq⟩ | ⟨v, -, heq⟩ | ⟨-, heq⟩ := extractMapping_cases env g data m d
  · rw [heq]
    exact .refl P d
  · rw [heq]
    have htick : TouchesOnly P d d₁ := by
      rcases hd₁ with rfl | rfl <;> exact .of_registry_eq rfl
    exact htick.trans (d₁.touchesOnly_setTagQuality hm q)
  · rw [heq]
    exact d.touchesOnly_updateTagValue hm v _
  · rw [heq]
    exact .of_registry_eq rfl

theorem agreeOn_finishRead (env : Env) {g : ReadGroup} (hg : ∀ m ∈ g.mappings, P m.tagId) (ctx : Nat)
    (response : Response) (h : AgreeOn P d d') :
    AgreeOn P (finishRead env g ctx response d).2 (finishRead env g ctx response d').2 := by
  have hput := h.putBack (some ctx)
  cases response with
  | lost err => exact (h.markAll _ _).putBack _
  | malformed e => exact hput.markAll _ _
  | mismatched => exact hput.markAll _ _
  | refused code => exact hput.markAll _ _
  | accepted data =>
      simp only [finishRead]
      split
      · rw [markShort_eq, markShort_eq]
        exact hput.markAll _ _
      · exact (alike_runList (fun m hm => alike_extractMapping env g data (hg m hm)) hput).2

theorem touchesOnly_finishRead (env : Env) {g : ReadGroup} (hg : ∀ m ∈ g.mappings, P m.tagId) (ctx : Nat)
    (response : Response) (d : State) : TouchesOnly P d (finishRead env g ctx response d).2 := by
  have hids : ∀ id ∈ g.ids, P id := by
    intro id hid
    obtain ⟨m, hm, rfl⟩ := List.mem_map.mp hid
    exact hg m hm
  cases response with
  | lost err => exact d.touchesOnly_markAll hids _
  | malformed e => exact (d.putBack (some ctx)).touchesOnly_markAll hids _
  | mismatched => exact (d.putBack (some ctx)).touchesOnly_markAll hids _
  | refused code => exact (d.putBack (some ctx)).touchesOnly_markAll hids _
  | accepted data =>
      rw [finishRead]
      split
      · rw [markShort_eq]
        exact (d.putBack (some ctx)).touchesOnly_markAll (fun id hid => hids id (metIds_subset hid)) _
      · exact runList_rel (TouchesOnly.refl P) TouchesOnly.trans
          (fun m hm d => touchesOnly_extractMapping env g data (hg m hm) d) (d.putBack (some ctx))

theorem agreeOn_readStep (env : Env) {g : ReadGroup} (hg : ∀ m ∈ g.mappings, P m.tagId)
    (h : AgreeOn P d d') : AgreeOn P (readStep env g d).2 (readStep env g d').2 := by
  obtain ⟨hctx, htaken⟩ := (agreeOn_drawSid h).takeOrConnect
  unfold readStep
  simp only [hctx, htaken.trace, h.session]
  exact agreeOn_finishRead env hg _ _ (htaken.record _)

theorem touchesOnly_readStep (env : Env) {g : ReadGroup} (hg : ∀ m ∈ g.mappings, P m.tagId) (d : State) :
    TouchesOnly P d (readStep env g d).2 := by
  have hafter : TouchesOnly P d (afterRead env g d) := .of_registry_eq (registry_afterRead env g d)
  rw [readStep_eq]
  exact hafter.trans (touchesOnly_finishRead env hg _ _ _)

theorem agreeOn_finishWrite (env : Env) {m : TagMapping} (hm : P m.tagId) (req : WriteRequest)
    (ctx : Nat) (response : Response) (h : AgreeOn P d d') :
    AgreeOn P (finishWrite env m req ctx response d) (finishWrite env m req ctx response d') := by
  have hput := h.putBack (some ctx)
  cases response with
  | lost err => exact ((h.setTagQuality _ _).sendReply _ _).putBack _
  | malformed e => exact (hput.setTagQuality _ _).sendReply _ _
  | mismatched => exact (hput.setTagQuality _ _).sendReply _ _
  | refused code => exact (hput.setTagQuality _ _).sendReply _ _
  | accepted data => exact (hput.updateTagValue hm _ _).sendReply _ _

theorem touchesOnly_finishWrite (env : Env) {m : TagMapping} (hm : P m.tagId) (req : WriteRequest)
    (ctx : Nat) (response : Response) (d : State) : TouchesOnly P d (finishWrite env m req ctx response d) := by
  cases response with
  | lost err => exact d.touchesOnly_setTagQuality hm _
  | malformed e => exact (d.putBack (some ctx)).touchesOnly_setTagQuality hm _
  | mismatched => exact (d.putBack (some ctx)).touchesOnly_setTagQuality hm _
  | refused code => exact (d.putBack (some ctx)).touchesOnly_setTagQuality hm _
  | accepted data => exact (d.putBack (some ctx)).touchesOnly_updateTagValue hm _ _

theorem agreeOn_processWrite (env : Env) {mappings : List TagMapping} (req : WriteRequest)
    (hms : ∀ m ∈ mappings, P m.tagId) (h : AgreeOn P d d') :
    AgreeOn P (processWrite env mappings req d) (processWrite env mappings req d') := by
  unfold processWrite
  cases hfind : mappings.find? fun m => m.tagId = req.tagId with
  | none => exact h.sendReply _ _
  | some m =>
      have hm : P m.tagId := hms m (List.mem_of_find?_eq_some hfind)
      obtain ⟨hctx, htaken⟩ := (agreeOn_drawSid h).takeOrConnect
      simp only
      split
      · exact h.sendReply _ _
      · split
        · exact h.sendReply _ _
        · split
          · exact h.sendReply _ _
          · unfold sendWrite
            simp only [hctx, htaken.trace, h.session]
            exact agreeOn_finishWrite env hm req _ _ (htaken.record _)

theorem touchesOnly_processWrite (env : Env) {mappings : List TagMapping} (req : WriteRequest)
    (hms : ∀ m ∈ mappings, P m.tagId) (d : State) : TouchesOnly P d (processWrite env mappings req d) := by
  obtain ⟨msg, heq⟩ | ⟨m, hfind, -, heq⟩ := processWrite_cases env mappings req d
  · rw [heq]
    exact .of_registry_eq rfl
  · have hafter : TouchesOnly P d (afterWrite env m req d) :=
      .of_registry_eq (drawSid d).registry_takeOrConnect
    rw [heq, sendWrite_eq]
    exact hafter.trans (touchesOnly_finishWrite env (hms m (List.mem_of_find?_eq_some hfind)) req _ _ _)

end Fins

-- ============================================================================
-- The staleness check
-- ============================================================================

namespace Runtime

open TagRegistry (AgreeOn)

variable {P : String → Prop} {plcName : String}

/-- The check reads and marks the tags of its PLC. -/
theorem alike_checkStaleTag (now : DateTime) {td : TagDefinition} (htd : td.plcName = plcName → P td.id) :
    Alike (AgreeOn P) (checkStaleTag plcName now td) := by
  intro r r' h
  unfold checkStaleTag
  split
  · exact ⟨rfl, h⟩
  · rename_i hname
    rw [h.getTag (htd (not_not.mp hname))]
    split
    · exact ⟨rfl, h⟩
    · cases r.getTag td.id with
      | error e => exact ⟨rfl, h⟩
      | ok t =>
          simp only
          split
          · exact ⟨rfl, h⟩
          · split
            · split
              · exact ⟨rfl, h.setTagQuality td.id .stale now⟩
              · exact ⟨rfl, h⟩
            · exact ⟨rfl, h⟩

theorem agreeOn_checkStaleTags (now : DateTime) {r r' : TagRegistry}
    (hdefs : ∀ td ∈ r.allDefinitionsSorted, td.plcName = plcName → P td.id) (h : AgreeOn P r r') :
    AgreeOn P (checkStaleTags plcName now r).2 (checkStaleTags plcName now r').2 := by
  have hsame : r'.allDefinitionsSorted = r.allDefinitionsSorted := by
    rw [TagRegistry.allDefinitionsSorted, h.definitions]
    rfl
  rw [checkStaleTags, checkStaleTags, hsame]
  exact (alike_runList (fun td htd => alike_checkStaleTag now (hdefs td htd)) h).2

theorem touchesOnly_checkStaleTags (now : DateTime) {r : TagRegistry}
    (hdefs : ∀ td ∈ r.allDefinitionsSorted, td.plcName = plcName → P td.id) :
    AgreeOn (fun id => ¬ P id) r (checkStaleTags plcName now r).2 := by
  refine runList_rel (R := AgreeOn fun id => ¬ P id) (AgreeOn.refl _) AgreeOn.trans ?_ r
  intro td htd r
  unfold checkStaleTag
  split
  · exact .refl _ r
  · rename_i hname
    have hown : P td.id := hdefs td htd (not_not.mp hname)
    split
    · exact .refl _ r
    · split
      · exact .refl _ r
      · split
        · exact .refl _ r
        · split
          · split
            · exact TagRegistry.agreeOn_setTagQuality r hown .stale now
            · exact .refl _ r
          · exact .refl _ r

end Runtime

end PlcBridge
