/-
  PlcBridge.Bridge.GoodData

  Where the values come from that clients see as Good.

  Drivers and staleness checks share the registry, in any order.  Whatever one
  of their steps does, it leaves a tag alone, stores a value its device has just
  delivered or accepted, or degrades the tag (`Grounded`); no step makes a tag
  Initializing again.  So the step that last changed a tag tells what its
  reported status rests on.
-/
import PlcBridge.Bridge.Confirmed
import PlcBridge.Runtime.StaleTags

namespace PlcBridge

open PlcBridge.Lib

-- ============================================================================
-- What a step makes of a tag
-- ============================================================================

/-- The tag is as it was, or holds a Good value that `E` accounts for, or is
    degraded. -/
inductive Grounded (E : TagValue → Prop) (o : Option Tag) : Option Tag → Prop where
  | same : Grounded E o o
  | stored {t : Tag} (hquality : t.quality = .good) (hvalue : E t.value) : Grounded E o (some t)
  | degraded {t : Tag} (hgood : t.quality ≠ .good) (hnew : t.quality ≠ .initializing) :
      Grounded E o (some t)

theorem Grounded.trans {E : TagValue → Prop} {o o₁ o₂ : Option Tag} (h : Grounded E o o₁)
    (h' : Grounded E o₁ o₂) : Grounded E o o₂ := by
  cases h' with
  | same => exact h
  | stored hquality hvalue => exact .stored hquality hvalue
  | degraded hgood hnew => exact .degraded hgood hnew

theorem Grounded.mono {E E' : TagValue → Prop} {o o' : Option Tag} (h : Grounded E o o')
    (hE : ∀ v, E v → E' v) : Grounded E' o o' := by
  cases h with
  | same => exact .same
  | stored hquality hvalue => exact .stored hquality (hE _ hvalue)
  | degraded hgood hnew => exact .degraded hgood hnew

namespace TagRegistry

/-- Every tag is grounded. -/
def GroundedIn (E : String → TagValue → Prop) (r r' : TagRegistry) : Prop :=
  ∀ id, Grounded (E id) (r.tag? id) (r'.tag? id)

variable {E E' : String → TagValue → Prop} {r r₁ r₂ : TagRegistry}

theorem GroundedIn.refl (E : String → TagValue → Prop) (r : TagRegistry) : GroundedIn E r r :=
  fun _ => .same

theorem GroundedIn.trans (h : GroundedIn E r r₁) (h' : GroundedIn E r₁ r₂) : GroundedIn E r r₂ :=
  fun id => (h id).trans (h' id)

theorem GroundedIn.mono (h : GroundedIn E r r₁) (hE : ∀ id v, E id v → E' id v) : GroundedIn E' r r₁ :=
  fun id => (h id).mono (hE id)

theorem groundedIn_setTagQuality (r : TagRegistry) (id : String) {q : TagQuality} (now : DateTime)
    (hgood : q ≠ .good) (hnew : q ≠ .initializing) : GroundedIn E r (r.setTagQuality id q now).2 := by
  intro id'
  rw [tag?_setTagQuality]
  split
  · rename_i hid
    subst hid
    cases r.tag? id' with
    | none => exact .same
    | some t => exact .degraded hgood hnew
  · exact .same

theorem groundedIn_updateTagValue (r : TagRegistry) {id : String} {v : TagValue} (ts now : DateTime)
    (h : E id v) : GroundedIn E r (r.updateTagValue id v .good ts now).2 := by
  intro id'
  rw [tag?_updateTagValue]
  split
  · rename_i hid
    obtain ⟨rfl, -⟩ := hid
    cases r.tag? id' with
    | none => exact .same
    | some t => exact .stored rfl h
  · exact .same

end TagRegistry

namespace DriverState

open TagRegistry (GroundedIn)

variable {ξ σ : Type} {clock : Nat → DateTime} {E : String → TagValue → Prop} {q : TagQuality}

theorem grounded_setTagQuality (d : DriverState ξ σ) (id : String) (hgood : q ≠ .good)
    (hnew : q ≠ .initializing) : GroundedIn E d.registry (d.setTagQuality clock id q).registry :=
  TagRegistry.groundedIn_setTagQuality _ _ _ hgood hnew

theorem grounded_updateTagValue (d : DriverState ξ σ) {id : String} {v : TagValue} (h : E id v) :
    GroundedIn E d.registry (d.updateTagValue clock id v .good).registry :=
  TagRegistry.groundedIn_updateTagValue _ _ _ h

theorem grounded_markAll (d : DriverState ξ σ) (ids : List String) (hgood : q ≠ .good)
    (hnew : q ≠ .initializing) : GroundedIn E d.registry (d.markAll clock ids q).registry := by
  induction ids generalizing d with
  | nil => exact .refl E _
  | cons id ids ih => exact (grounded_setTagQuality d id hgood hnew).trans (ih (d.setTagQuality clock id q))

theorem registry_takeOrConnect (d : DriverState ξ σ) : d.takeOrConnect.2.registry = d.registry := by
  unfold takeOrConnect
  split <;> rfl

end DriverState

-- ============================================================================
-- Modbus
-- ============================================================================

namespace Modbus

open TagRegistry (GroundedIn)

variable {env : Env} {r : ReadRequest} {raw : List UInt8} {d : State} {m : ModbusMapping}
  {E : String → TagValue → Prop}

/-- Byte offset and length of the part of a payload that is decoded for a
    mapping. -/
def decodedPart (r : ReadRequest) (m : ModbusMapping) : Nat × Nat :=
  let chunkEnd := r.start.toNat + r.qty.toNat - 1
  let mapEnd := m.address.toNat + m.quantity.toNat - 1
  let overlapStart := max m.address.toNat r.start.toNat
  ((overlapStart - r.start.toNat) * 2, (min mapEnd chunkEnd - overlapStart + 1) * 2)

/-- The payload of a read contains the value `v` for a mapping. -/
def Contains (chrono : Chrono) (r : ReadRequest) (raw : List UInt8) (m : ModbusMapping)
    (v : TagValue) : Prop :=
  (decodedPart r m).1 + (decodedPart r m).2 ≤ raw.length ∧
  decodeBytesToTagvalue chrono m.dataType
    (applyByteOrder ((raw.drop (decodedPart r m).1).take (decodedPart r m).2) m.byteOrder)
    m.bitOffset = .ok v

theorem grounded_extractMapping (env : Env) (r : ReadRequest) (raw : List UInt8) (d : State)
    (m : ModbusMapping) (h : ∀ v, Contains env.chrono r raw m v → E m.tagId v) :
    GroundedIn E d.registry (extractMapping env r raw d m).registry := by
  unfold extractMapping
  simp only
  split
  · exact .refl E _
  · split
    · exact d.grounded_setTagQuality _ (by simp) (by simp)
    · rename_i hlong
      split
      · exact d.grounded_setTagQuality _ (by simp) (by simp)
      · split
        · exact d.grounded_setTagQuality _ (by simp) (by simp)
        · split
          · rename_i v hv
            exact d.grounded_updateTagValue (h v ⟨Nat.le_of_not_lt hlong, hv⟩)
          · exact d.grounded_setTagQuality _ (by simp) (by simp)

theorem grounded_foldl_extract (env : Env) (r : ReadRequest) (raw : List UInt8) (d : State)
    (ms : List ModbusMapping) (h : ∀ m ∈ ms, ∀ v, Contains env.chrono r raw m v → E m.tagId v) :
    GroundedIn E d.registry (ms.foldl (extractMapping env r raw) d).registry := by
  induction ms generalizing d with
  | nil => exact .refl E _
  | cons m ms ih =>
      obtain ⟨hm, hrest⟩ := List.forall_mem_cons.mp h
      exact (grounded_extractMapping env r raw d m hm).trans (ih _ hrest)

/-- What a read delivers: the value of a member of the request, decoded from
    the answer. -/
def Delivered (env : Env) (ctx : Nat) (r : ReadRequest) (d : State) (id : String) (v : TagValue) : Prop :=
  ∃ data, env.read d.trace ctx r.func r.start r.qty = .ok data ∧
    ∃ m ∈ r.members, m.tagId = id ∧ Contains env.chrono r data.rawBytes m v

theorem grounded_readStep (env : Env) (ctx : Nat) (r : ReadRequest) (d : State) :
    GroundedIn (Delivered env ctx r d) d.registry (readStep env ctx r d).2.registry := by
  obtain ⟨data, hdata, h⟩ | ⟨err, -, ⟨-, h⟩ | ⟨-, h⟩ | ⟨-, -, h⟩⟩ := readStep_cases env ctx r d
  · rw [h]
    refine grounded_foldl_extract env r data.rawBytes (d.record (readExchange env ctx r d)) r.members ?_
    exact fun m hm v hv => ⟨data, hdata, m, hm, rfl, hv⟩
  · rw [h]
    exact (d.record _).grounded_markAll _ (by simp) (by simp)
  · rw [h]
    exact (d.record _).grounded_markAll _ (by simp) (by simp)
  · rw [h]
    exact .refl _ _

/-- What a write leaves: the request's value, once the device has acknowledged
    it. -/
def Acknowledged (env : Env) (mappings : List ModbusMapping) (req : WriteRequest) (d : State)
    (id : String) (v : TagValue) : Prop :=
  req.tagId = id ∧ req.value = v ∧
    ∃ m, mappings.find? (fun m => m.tagId = req.tagId) = some m ∧
      env.writeMultipleRegisters d.trace d.takeOrConnect.1 m.address (m.writeWords req.value) = .ok ()

theorem grounded_finishWrite (env : Env) (m : ModbusMapping) (req : WriteRequest)
    (result : CallResult Unit) (d : State) (h : result = .ok () → E m.tagId req.value) :
    GroundedIn E d.registry (finishWrite env m req result d).2.registry := by
  cases result with
  | ok u => exact d.grounded_updateTagValue (h rfl)
  | exception code =>
      simp only [finishWrite]
      split <;> exact d.grounded_setTagQuality _ (by simp) (by simp)
  | transport msg => exact d.grounded_setTagQuality _ (by simp) (by simp)
  | timeout => exact d.grounded_setTagQuality _ (by simp) (by simp)

theorem grounded_processWrite (env : Env) (mappings : List ModbusMapping) (req : WriteRequest)
    (d : State) :
    GroundedIn (Acknowledged env mappings req d) d.registry
      (processWrite env mappings req d).2.registry := by
  obtain ⟨msg, d₁, hd₁, h⟩ | ⟨m, hfind, -, -, h⟩ := processWrite_cases env mappings req d
  · rw [h]
    rcases hd₁ with rfl | ⟨id, rfl⟩
    · exact .refl _ _
    · exact d.grounded_setTagQuality _ (by simp) (by simp)
  · have hid : m.tagId = req.tagId := by simpa using List.find?_some hfind
    rw [h, sendWrite_eq, ← d.registry_takeOrConnect]
    refine grounded_finishWrite env m req _
      ((d.takeOrConnect.2.record (writeExchange env m req d)).putBack (some d.takeOrConnect.1)) ?_
    exact fun hack => ⟨hid.symm, rfl, m, hfind, hack⟩

end Modbus

-- ============================================================================
-- FINS
-- ============================================================================

namespace Fins

open TagRegistry (GroundedIn)

variable {E : String → TagValue → Prop}

/-- The data of a response contains the value `v` for a mapping. -/
def Contains (chrono : Chrono) (g : ReadGroup) (data : List UInt8) (m : TagMapping) (v : TagValue) : Prop :=
  (g.overlapBytes m).1 + (g.overlapBytes m).2 ≤ data.length ∧ piece chrono g data m = .done v

theorem grounded_extractMapping (env : Env) (g : ReadGroup) (data : List UInt8) (m : TagMapping)
    (d : State) (h : ∀ v, Contains env.chrono g data m v → E m.tagId v) :
    GroundedIn E d.registry (extractMapping env g data m d).2.registry := by
  rw [extractMapping]
  split
  · exact .refl E _
  · simp only
    split
    · exact d.grounded_setTagQuality _ (by simp) (by simp)
    · rename_i hlong
      rw [decodeAndUpdateTag]
      cases d.registry.getDefinition m.tagId with
      | error e => exact d.grounded_setTagQuality _ (by simp) (by simp)
      | ok td =>
          simp only
          cases hv : decodeBytes env.chrono m.dataType m.bitOffset (applyByteOrder
              ((data.drop (g.overlapBytes m).1).take (g.overlapBytes m).2) m.byteOrder) with
          | done v => exact d.grounded_updateTagValue (h v ⟨Nat.le_of_not_lt hlong, hv⟩)
          | failed e => exact d.tick.grounded_setTagQuality _ (by simp) (by simp)
          | panicked => exact .refl E _

/-- What a read delivers: the value of a mapping of the group, decoded from a
    complete response. -/
def Delivered (env : Env) (g : ReadGroup) (d : State) (id : String) (v : TagValue) : Prop :=
  ∃ data, (readExchange env g d).response = .accepted data ∧ g.wordCount.toNat * 2 ≤ data.length ∧
    ∃ m ∈ g.mappings, m.tagId = id ∧ Contains env.chrono g data m v

theorem grounded_finishRead (env : Env) (g : ReadGroup) (ctx : Nat) (response : Response) (d : State)
    (h : ∀ data, response = .accepted data → g.wordCount.toNat * 2 ≤ data.length →
      ∀ m ∈ g.mappings, ∀ v, Contains env.chrono g data m v → E m.tagId v) :
    GroundedIn E d.registry (finishRead env g ctx response d).2.registry := by
  cases response with
  | lost err => exact d.grounded_markAll _ (by simp) (by simp)
  | malformed e => exact (d.putBack (some ctx)).grounded_markAll _ (by simp) (by simp)
  | mismatched => exact (d.putBack (some ctx)).grounded_markAll _ (by simp) (by simp)
  | refused code => exact (d.putBack (some ctx)).grounded_markAll _ (by simp) (by simp)
  | accepted data =>
      rw [finishRead]
      split
      · rw [markShort_eq]
        exact (d.putBack (some ctx)).grounded_markAll _ (by simp) (by simp)
      · rename_i hlong
        refine runList_rel (R := fun d d' : State => GroundedIn E d.registry d'.registry)
          (fun d => .refl E _) GroundedIn.trans ?_ (d.putBack (some ctx))
        intro m hm d
        exact grounded_extractMapping env g data m d (h data rfl (Nat.le_of_not_lt hlong) m hm)

theorem registry_afterRead (env : Env) (g : ReadGroup) (d : State) :
    (afterRead env g d).registry = d.registry := (drawSid d).registry_takeOrConnect

theorem grounded_readStep (env : Env) (g : ReadGroup) (d : State) :
    GroundedIn (Delivered env g d) d.registry (readStep env g d).2.registry := by
  rw [readStep_eq, ← registry_afterRead env g d]
  refine grounded_finishRead env g _ _ _ ?_
  exact fun data hdata hlong m hm v hv => ⟨data, hdata, hlong, m, hm, rfl, hv⟩

/-- What a write leaves: the request's value, once the PLC has accepted it. -/
def Acknowledged (env : Env) (mappings : List TagMapping) (req : WriteRequest) (d : State)
    (id : String) (v : TagValue) : Prop :=
  req.tagId = id ∧ req.value = v ∧
    ∃ m, mappings.find? (fun m => m.tagId = req.tagId) = some m ∧
      ∃ data, (writeExchange env m req d).response = .accepted data

theorem grounded_finishWrite (env : Env) (m : TagMapping) (req : WriteRequest) (ctx : Nat)
    (response : Response) (d : State) (h : ∀ data, response = .accepted data → E m.tagId req.value) :
    GroundedIn E d.registry (finishWrite env m req ctx response d).registry := by
  cases response with
  | lost err => exact d.grounded_setTagQuality _ (by simp) (by simp)
  | malformed e => exact (d.putBack (some ctx)).grounded_setTagQuality _ (by simp) (by simp)
  | mismatched => exact (d.putBack (some ctx)).grounded_setTagQuality _ (by simp) (by simp)
  | refused code => exact (d.putBack (some ctx)).grounded_setTagQuality _ (by simp) (by simp)
  | accepted data => exact (d.putBack (some ctx)).grounded_updateTagValue (h data rfl)

theorem grounded_processWrite (env : Env) (mappings : List TagMapping) (req : WriteRequest) (d : State) :
    GroundedIn (Acknowledged env mappings req d) d.registry (processWrite env mappings req d).registry := by
  obtain ⟨msg, h⟩ | ⟨m, hfind, -, h⟩ := processWrite_cases env mappings req d
  · rw [h]
    exact .refl _ _
  · have hid : m.tagId = req.tagId := by simpa using List.find?_some hfind
    have hregistry : (afterWrite env m req d).registry = d.registry := (drawSid d).registry_takeOrConnect
    rw [h, sendWrite_eq, ← hregistry]
    refine grounded_finishWrite env m req _ _ _ ?_
    exact fun data hdata => ⟨hid.symm, rfl, m, hfind, data, hdata⟩

end Fins

-- ============================================================================
-- The staleness check
-- ============================================================================

namespace Runtime

open TagRegistry (GroundedIn)

/-- A check only degrades, also one that panics. -/
theorem grounded_checkStaleTags (E : String → TagValue → Prop) (plcName : String) (now : DateTime)
    (r : TagRegistry) : GroundedIn E r (checkStaleTags plcName now r).2 := by
  refine runList_rel (R := GroundedIn E) (GroundedIn.refl E) GroundedIn.trans ?_ r
  intro d _ r
  unfold checkStaleTag
  split
  · exact .refl E r
  · split
    · exact .refl E r
    · split
      · exact .refl E r
      · split
        · exact .refl E r
        · split
          · split
            · exact TagRegistry.groundedIn_setTagQuality r d.id now (by simp) (by simp)
            · exact .refl E r
          · exact .refl E r

end Runtime

-- ============================================================================
-- Drivers and checks on one registry
-- ============================================================================

namespace Bridge

open PlcBridge.Opcua
open TagRegistry (GroundedIn)

/-- In the turn the driver obtains the value of a tag: the device delivers it
    in a read, or acknowledges it in a write. -/
def Driver.Obtains (registry : TagRegistry) (id : String) (v : TagValue) : Driver → Turn → Prop
  | .modbus env _ _ d, .readChunk ctx r => Modbus.Delivered env ctx r { d with registry := registry } id v
  | .modbus env mappings (some req) d, .write =>
      Modbus.Acknowledged env mappings req { d with registry := registry } id v
  | .fins env _ _ d, .readGroup g => Fins.Delivered env g { d with registry := registry } id v
  | .fins env drv (some req) d, .write =>
      Fins.Acknowledged env drv.mappings req { d with registry := registry } id v
  | _, _ => False

theorem Driver.grounded_turn {registry : TagRegistry} {d d' : Driver} {t : Turn}
    (h : d.turn registry t = some d') :
    GroundedIn (fun id v => d.Obtains registry id v t) registry d'.registry := by
  cases turned_of_turn h with
  | modbusTake _ => exact .refl _ _
  | @modbusWrite env mappings req d =>
      exact Modbus.grounded_processWrite env mappings req { d with registry := registry }
  | @modbusRead env mappings ctx r d => exact Modbus.grounded_readStep env ctx r { d with registry := registry }
  | @modbusConnect env mappings d =>
      have hsame := { d with registry := registry }.registry_takeOrConnect
      rw [Driver.registry, hsame]
      exact .refl _ _
  | modbusPutBack => exact .refl _ _
  | finsTake _ => exact .refl _ _
  | @finsWrite env drv req d =>
      exact Fins.grounded_processWrite env drv.mappings req { d with registry := registry }
  | @finsRead env drv g d => exact Fins.grounded_readStep env g { d with registry := registry }
  | @finsConnect env drv d =>
      have hsame := { d with registry := registry }.registry_takeOrConnect
      rw [Driver.registry, hsame]
      exact .refl _ _
  | finsPutBack => exact .refl _ _

/-- The registry and the drivers that share it. -/
structure Polling where
  registry : TagRegistry
  drivers : List Driver

namespace Polling

/-- A driver takes a turn, a write request arrives at a driver, or the tags of
    a PLC are checked for staleness. -/
inductive Event where
  | turn (i : Nat) (t : Turn)
  | arrive (i : Nat) (req : WriteRequest)
  | check (plcName : String) (now : DateTime)

def step (s : Polling) : Event → Option Polling
  | .turn i t =>
      s.drivers[i]?.bind fun d =>
        (d.turn s.registry t).map fun d' => ⟨d'.registry, s.drivers.set i d'⟩
  | .arrive i req => s.drivers[i]?.map fun d => { s with drivers := s.drivers.set i (d.enqueue req) }
  | .check plcName now => some { s with registry := (Runtime.checkStaleTags plcName now s.registry).2 }

/-- Drivers only read what they plan to. -/
def Planned (s : Polling) : Event → Prop
  | .turn i t => ∀ d ∈ s.drivers[i]?, d.Planned t
  | .arrive .. | .check .. => True

instance (s : Polling) : (e : Event) → Decidable (s.Planned e)
  | .turn i t => inferInstanceAs (Decidable (∀ d ∈ s.drivers[i]?, d.Planned t))
  | .arrive .. | .check .. => isTrue trivial

/-- A driver obtains the value of a tag in the event. -/
def Obtains (s : Polling) (id : String) (v : TagValue) : Event → Prop
  | .turn i t => ∃ d, s.drivers[i]? = some d ∧ d.Obtains s.registry id v t
  | .arrive .. | .check .. => False

variable {s s' : Polling} {e : Event}

theorem grounded_step (h : s.step e = some s') :
    GroundedIn (fun id v => s.Obtains id v e) s.registry s'.registry := by
  cases e with
  | turn i t =>
      obtain ⟨d, hd, hmap⟩ := Option.bind_eq_some_iff.mp h
      obtain ⟨d', hturn, rfl⟩ := Option.map_eq_some_iff.mp hmap
      exact (Driver.grounded_turn hturn).mono fun id v hv => ⟨d, hd, hv⟩
  | arrive i req =>
      obtain ⟨d, -, rfl⟩ := Option.map_eq_some_iff.mp h
      exact .refl _ _
  | check plcName now =>
      obtain rfl := Option.some.inj h
      exact Runtime.grounded_checkStaleTags _ plcName now s.registry

-- ============================================================================
-- Cycles
-- ============================================================================

/-- Uninterrupted turns of driver `i` are a run of the whole. -/
theorem run_of_turns {i : Nat} {d d' : Driver} (h : Driver.Turns d d') (hd : s.drivers[i]? = some d)
    (hregistry : d.registry = s.registry) :
    ∃ es, runEvents step Planned es s = some ⟨d'.registry, s.drivers.set i d'⟩ := by
  have hlt : i < s.drivers.length := (List.getElem?_eq_some_iff.mp hd).1
  induction h with
  | refl =>
      refine ⟨[], ?_⟩
      have hset : s.drivers.set i d = s.drivers := by
        rw [← (List.getElem?_eq_some_iff.mp hd).2, List.set_getElem_self]
      rw [hregistry, hset]
      rfl
  | @next d₁ d₂ t _ hplan hturn ih =>
      obtain ⟨es, hes⟩ := ih
      have hget : (s.drivers.set i d₁)[i]? = some d₁ := List.getElem?_set_self hlt
      have hlast : runEvents step Planned [.turn i t] ⟨d₁.registry, s.drivers.set i d₁⟩ =
          some ⟨d₂.registry, s.drivers.set i d₂⟩ := by
        have hok : Planned ⟨d₁.registry, s.drivers.set i d₁⟩ (.turn i t) := by
          intro d hmem
          rw [Option.mem_def, hget] at hmem
          obtain rfl := Option.some.inj hmem
          exact hplan
        rw [runEvents, if_pos hok]
        simp only [step, hget, Option.bind_some, hturn, Option.map_some, List.set_set, runEvents]
      exact ⟨es ++ [.turn i t], runEvents_append hes hlast⟩

/-- Whole cycles are runs, of the one driver as of the other. -/
theorem run_of_modbus_cycle {i : Nat} {env : Modbus.Env} {mappings : List Modbus.ModbusMapping}
    {d : Modbus.State} (hd : s.drivers[i]? = some (.modbus env mappings none d))
    (hregistry : d.registry = s.registry) :
    ∃ es, runEvents step Planned es s = some ⟨(Modbus.runReadCycleImpl env mappings d).2.registry,
      s.drivers.set i (.modbus env mappings none (Modbus.runReadCycleImpl env mappings d).2)⟩ :=
  run_of_turns (Driver.turns_modbus_cycle env mappings d) hd hregistry

theorem run_of_fins_cycle {i : Nat} {env : Fins.Env} {drv : Fins.FinsDriver} {d : Fins.State}
    (hd : s.drivers[i]? = some (.fins env drv none d)) (hregistry : d.registry = s.registry) :
    ∃ es, runEvents step Planned es s = some ⟨(Fins.runReadCycleImpl env drv d).2.registry,
      s.drivers.set i (.fins env drv none (Fins.runReadCycleImpl env drv d).2)⟩ :=
  run_of_turns (Driver.turns_fins_cycle env drv d) hd hregistry

-- ============================================================================
-- What Good rests on
-- ============================================================================

/-- The step of a run that last changed a tag. -/
def lastTagChange (id : String) (es : List Event) (s₀ : Polling) : Option (Polling × Event × Polling) :=
  lastChange step (fun s => s.registry.tag? id) es s₀

/-- The last change of the tag stored a value that a device had delivered or
    acknowledged, and `x` is that value. -/
def FromPlc (ua : Encoding) (s₀ : Polling) (es : List Event) (id : String) (x : UaScalar) : Prop :=
  ∃ s₁ e s₂ v, lastTagChange id es s₀ = some (s₁, e, s₂) ∧ s₁.Obtains id v e ∧
    tagvalueToVariant ua v = some x

/-- The tag was never changed: it is still Initializing, and `x` is the initial
    value of its definition's type. -/
def AsBuilt (ua : Encoding) (clock : Nat → DateTime) (s₀ : Polling) (es : List Event) (id : String)
    (x : UaScalar) : Prop :=
  lastTagChange id es s₀ = none ∧ ∃ d n, s₀.registry.getDefinition id = .ok d ∧
    s₀.registry.tag? id = some (.new (initialValue d.dataType (clock n)) (clock (n + 1))) ∧
    tagvalueToVariant ua (initialValue d.dataType (clock n)) = some x

/-- In every run, a tag is reported as Good only with a value its PLC delivered
    or acknowledged when the tag was last changed, or before its first change
    with the initial value. -/
theorem good_is_plc_data_or_initial {clock : Nat → DateTime} {defs : List TagDefinition}
    {r : TagRegistry} (hbuilt : TagRegistry.fromDefinitions clock defs = .ok r) (drivers : List Driver)
    {es : List Event} {s : Polling} (hrun : runEvents step Planned es ⟨r, drivers⟩ = some s)
    {ua : Encoding} {id : String} {dv : DataValue}
    (hread : TagDataSource.read ua ⟨id, s.registry⟩ = .ok dv) (hgood : dv.status = .good) :
    FromPlc ua ⟨r, drivers⟩ es id dv.value ∨ AsBuilt ua clock ⟨r, drivers⟩ es id dv.value := by
  obtain ⟨t, ht, hvalue, hquality⟩ := read_good hread hgood
  cases hlast : lastTagChange id es ⟨r, drivers⟩ with
  | none =>
      have hsame : s.registry.tag? id = r.tag? id := obs_eq_of_lastChange_none hrun hlast
      rw [ht] at hsame
      obtain ⟨d, n, hd, rfl⟩ := TagRegistry.tag?_fromDefinitions hbuilt hsame.symm
      exact .inr ⟨hlast, d, n, hd, hsame.symm, hvalue⟩
  | some c =>
      obtain ⟨s₁, e, s₂⟩ := c
      obtain ⟨-, hstep, hchanged, hend⟩ := of_lastChange_some hrun hlast
      have hafter : s₂.registry.tag? id = some t := hend.symm.trans ht
      have hground := grounded_step hstep id
      have hne : some t ≠ s₁.registry.tag? id := by
        rw [← hafter]
        exact hchanged
      rw [hafter] at hground
      generalize s₁.registry.tag? id = before at hground hne
      left
      cases hground with
      | same => exact absurd rfl hne
      | stored _ hobtained => exact ⟨s₁, e, s₂, t.value, hlast, hobtained, hvalue⟩
      | degraded hnotGood hnotNew =>
          rcases hquality with hq | hq
          · exact absurd hq hnotGood
          · exact absurd hq hnotNew

/-- The encoding of short texts and of times near the present. -/
def plainEncoding : Encoding where
  newString := fun text => some (utf8Bytes text)
  ticks := fun nanos => some (Int64.ofInt (unixEpochTicks + nanos / 100))
  epoch := Int64.ofInt unixEpochTicks
  ticks_zero := rfl

/-- A write of 5 is acknowledged, and the tags are checked. -/
def tankWrite : List Event :=
  [.arrive 0 ⟨"tank", .uint16 5, none⟩, .turn 0 .take, .turn 0 .write, .check "plc" .unixEpoch]

def tankAfterWrite : Polling :=
  (runEvents step Planned tankWrite ⟨tankRegistry, [tankDriver]⟩).getD ⟨tankRegistry, []⟩

/-- What a client then reads. -/
def fiveRead : DataValue := ⟨.uint16 5, .good, plainEncoding.epoch, plainEncoding.epoch⟩

theorem good_is_plc_data_tank :
    TagDataSource.read plainEncoding ⟨"tank", tankAfterWrite.registry⟩ = .ok fiveRead ∧
    (FromPlc plainEncoding ⟨tankRegistry, [tankDriver]⟩ tankWrite "tank" (.uint16 5) ∨
      AsBuilt plainEncoding (fun _ => .unixEpoch) ⟨tankRegistry, [tankDriver]⟩ tankWrite "tank"
        (.uint16 5)) := by
  have hbuilt : TagRegistry.fromDefinitions (fun _ => .unixEpoch) [tankDefinition] = .ok tankRegistry :=
    rfl
  have hrun : runEvents step Planned tankWrite ⟨tankRegistry, [tankDriver]⟩ = some tankAfterWrite := rfl
  have hread : TagDataSource.read plainEncoding ⟨"tank", tankAfterWrite.registry⟩ = .ok fiveRead := rfl
  exact ⟨hread, good_is_plc_data_or_initial hbuilt [tankDriver] hrun hread rfl⟩

/-- A driver whose device refuses every connection. -/
def refusedDriver : Driver :=
  .modbus { Runtime.acceptingDevice with readRegisters := fun _ _ _ _ _ => .transport "Connection refused" }
    [tankMapping] none (.new tankRegistry () [])

/-- It tries to read. -/
def refusedRead : List Event :=
  [.turn 0 .takeOrConnect, .turn 0 (.readChunk 0 ⟨.holdingRegisters, 7, 1, [tankMapping]⟩),
   .turn 0 (.putBack (some 0)), .check "plc" .unixEpoch]

def tankAfterRefusal : Polling :=
  (runEvents step Planned refusedRead ⟨tankRegistry, [refusedDriver]⟩).getD ⟨tankRegistry, []⟩

def zeroRead : DataValue := ⟨.uint16 0, .good, plainEncoding.epoch, plainEncoding.epoch⟩

/-- The initial value is reported as Good although the PLC was never
    reached. -/
theorem initial_value_reported_good :
    TagRegistry.fromDefinitions (fun _ => .unixEpoch) [tankDefinition] = .ok tankRegistry ∧
    runEvents step Planned refusedRead ⟨tankRegistry, [refusedDriver]⟩ = some tankAfterRefusal ∧
    TagDataSource.read plainEncoding ⟨"tank", tankAfterRefusal.registry⟩ = .ok zeroRead ∧
    zeroRead.status = .good ∧
    ¬ FromPlc plainEncoding ⟨tankRegistry, [refusedDriver]⟩ refusedRead "tank" zeroRead.value := by
  refine ⟨rfl, rfl, rfl, rfl, ?_⟩
  rintro ⟨s₁, e, s₂, v, hlast, -⟩
  have hnone : lastTagChange "tank" refusedRead ⟨tankRegistry, [refusedDriver]⟩ = none := rfl
  rw [hnone] at hlast
  exact absurd hlast (by simp)

end Polling

end Bridge

end PlcBridge
