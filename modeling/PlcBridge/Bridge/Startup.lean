/-
  PlcBridge.Bridge.Startup

  Startup up to the OPC UA server (runtime/src/main.rs): the definitions and
  the registry, then one driver for each PLC of a known protocol, with a route
  for each of its tags.

  A driver runs as soon as it is set up, beside the setup of the next; its
  turns only touch itself and the registry, so these are runs of the complete
  system as well.
-/
import PlcBridge.Bridge.Drivers
import PlcBridge.Runtime.Tags
import Mathlib.Data.List.Flatten

namespace PlcBridge.Bridge

open PlcBridge.Lib PlcBridge.Runtime

-- ============================================================================
-- The write handler's routes
-- ============================================================================

/-- A driver's end of the write channel, by protocol; drivers are numbered in
    the order of their setup. -/
inductive DriverSender where
  | fins (driver : Nat)
  | modbus (driver : Nat)
deriving DecidableEq

def DriverSender.driver : DriverSender → Nat
  | .fins n => n
  | .modbus n => n

/-- The protocol's name in error texts. -/
def DriverSender.protocol : DriverSender → String
  | .fins _ => "FINS"
  | .modbus _ => "Modbus"

structure RuntimeWriteHandler where
  routing : AList fun _ : String => DriverSender
  registry : TagRegistry

namespace RuntimeWriteHandler

def new (registry : TagRegistry) : RuntimeWriteHandler := ⟨∅, registry⟩

/-- A later route replaces an earlier one. -/
def addRoute (h : RuntimeWriteHandler) (tagId : String) (sender : DriverSender) : RuntimeWriteHandler :=
  { h with routing := h.routing.insert tagId sender }

def addRouteForFins (h : RuntimeWriteHandler) (tagId : String) (driver : Nat) : RuntimeWriteHandler :=
  h.addRoute tagId (.fins driver)

def addRouteForModbus (h : RuntimeWriteHandler) (tagId : String) (driver : Nat) : RuntimeWriteHandler :=
  h.addRoute tagId (.modbus driver)

/-- The number of the driver a tag is routed to. -/
def driverOf (h : RuntimeWriteHandler) (tagId : String) : Option Nat :=
  (h.routing.lookup tagId).map DriverSender.driver

end RuntimeWriteHandler

-- ============================================================================
-- Configuration and surroundings
-- ============================================================================

/-- PLC configuration block. -/
structure PlcConfig where
  name : String
  protocol : String
  endpoint : String
  tags : List TagConfig := []
  maxWordsPerRequest : Option UInt32 := none

/-- What startup meets besides the configuration: case mapping, the clock and,
    for each driver, name resolution, the iteration order of `validate`'s hash
    map and the driver's own surroundings. -/
structure Host where
  unicode : Unicode
  clock : Nat → DateTime
  lookupHost : Nat → String → Except String (List String)
  finsOrder : Nat → Fins.AreaOrder
  finsEnv : Nat → Fins.Env
  modbusOrder : Nat → Modbus.FuncOrder
  modbusEnv : Nat → Modbus.Env

/-- Startup ends with an error, or hangs in `FinsDriver::new`. -/
inductive StartupError where
  | failed (chain : Anyhow)
  | hangs
deriving DecidableEq

/-- The `?` operator. -/
def orFail {α : Type} (r : Except Anyhow α) : Except StartupError α := r.mapError .failed

/-- The system as far as it is set up. -/
structure Assembly where
  writeHandler : RuntimeWriteHandler
  drivers : List Driver

-- ============================================================================
-- Setup
-- ============================================================================

/-- Resolve a PLC endpoint string. -/
def resolveEndpoint (lookupHost : String → Except String (List String)) (hostPort plcName : String) :
    Except Anyhow String :=
  match lookupHost hostPort with
  | .error e => .error ["Failed to resolve endpoint " ++ hostPort ++ " for " ++ plcName, e]
  | .ok [] => .error ["No addresses found for " ++ hostPort]
  | .ok (addr :: _) => .ok addr

/-- `FinsDriver::new`. -/
def newFinsDriver (config : Fins.FinsConfig) : Except StartupError Fins.FinsDriver :=
  match Fins.FinsDriver.new config with
  | some drv => .ok drv
  | none => .error .hangs

/-- Set up a FINS driver and wire it into the runtime. -/
def setupFinsDriver (host : Host) (plc : PlcConfig) (a : Assembly) : Except StartupError Assembly := do
  let n := a.drivers.length
  let _ ← orFail (resolveEndpoint (host.lookupHost n) plc.endpoint plc.name)
  let mappings ← orFail (plc.tags.mapM fun t => withContext (tagconfigToFinsMapping host.unicode t)
    ("FINS mapping error for " ++ plc.name ++ "::" ++ t.id))
  let drv ← newFinsDriver ⟨mappings, plc.maxWordsPerRequest.getD 960⟩
  orFail ((Fins.validate (host.finsOrder n) drv.mappings).mapError fun e =>
    ["FINS driver validation failed for " ++ plc.name ++ ": " ++ e.display])
  return {
    writeHandler := plc.tags.foldl (fun h t => h.addRouteForFins t.id n) a.writeHandler
    drivers := a.drivers ++ [.fins (host.finsEnv n) drv none (.new a.writeHandler.registry 1 [])] }

/-- Set up a Modbus driver and wire it into the runtime. -/
def setupModbusDriver (host : Host) (plc : PlcConfig) (a : Assembly) : Except StartupError Assembly := do
  let n := a.drivers.length
  let _ ← orFail (resolveEndpoint (host.lookupHost n) plc.endpoint plc.name)
  let mappings ← orFail (plc.tags.mapM fun t => withContext (tagconfigToModbusMapping host.unicode t)
    ("Modbus mapping error for " ++ plc.name ++ "::" ++ t.id))
  orFail ((Modbus.validate (host.modbusOrder n) mappings).mapError fun e =>
    ["Modbus driver validation failed for " ++ plc.name ++ ": " ++ e.display])
  return {
    writeHandler := plc.tags.foldl (fun h t => h.addRouteForModbus t.id n) a.writeHandler
    drivers := a.drivers ++ [.modbus (host.modbusEnv n) mappings none (.new a.writeHandler.registry () [])] }

/-- One turn of the loop over the PLCs; unknown protocols are skipped. -/
def setupDriver (host : Host) (a : Assembly) (plc : PlcConfig) : Except StartupError Assembly :=
  match host.unicode.toLowercase plc.protocol with
  | "fins" => setupFinsDriver host plc a
  | "modbus" => setupModbusDriver host plc a
  | _ => .ok a

/-- The entries of all PLCs, each with its PLC. -/
def allTags (plcs : List PlcConfig) : List (PlcConfig × TagConfig) :=
  plcs.flatMap fun plc => plc.tags.map fun t => (plc, t)

/-- `all_definitions`. -/
def allDefinitions (u : Unicode) (plcs : List PlcConfig) : Except Anyhow (List TagDefinition) :=
  (allTags plcs).mapM fun pt => withContext (tagconfigToDefinition u pt.2 pt.1.name)
    ("Failed to convert tag config for " ++ pt.1.name ++ "::" ++ pt.2.id)

/-- The registry. -/
def buildRegistry (clock : Nat → DateTime) (defs : List TagDefinition) : Except Anyhow TagRegistry :=
  (TagRegistry.fromDefinitions clock defs).mapError fun e => ["Failed building TagRegistry: " ++ e.display]

/-- Startup, for the PLCs of the configuration. -/
def startup (host : Host) (plcs : List PlcConfig) : Except StartupError Assembly := do
  let defs ← orFail (allDefinitions host.unicode plcs)
  let registry ← orFail (buildRegistry host.clock defs)
  plcs.foldlM (setupDriver host) ⟨.new registry, []⟩

-- ============================================================================
-- What a driver knows of its tags
-- ============================================================================

/-- What a mapping says of its tag. -/
structure MappedTag where
  id : String
  dataType : TagDataType
  byteOrder : WordOrder
  writable : Bool
deriving DecidableEq

namespace MappedTag

def ofModbus (m : Modbus.ModbusMapping) : MappedTag := ⟨m.tagId, m.dataType, m.byteOrder, m.writable⟩

def ofFins (m : Fins.TagMapping) : MappedTag := ⟨m.tagId, m.dataType, m.byteOrder, m.writable⟩

/-- As the entry has it. -/
def From (u : Unicode) (t : TagConfig) (m : MappedTag) : Prop :=
  t.Gives u m.id m.dataType m.byteOrder m.writable

end MappedTag

namespace Driver

def mapped : Driver → List MappedTag
  | .modbus _ mappings _ _ => mappings.map .ofModbus
  | .fins _ drv _ _ => drv.mappings.map .ofFins

/-- The mapping the write phase finds for a tag. -/
def mapping? (d : Driver) (tagId : String) : Option MappedTag :=
  match d with
  | .modbus _ mappings _ _ => (mappings.find? fun m => m.tagId = tagId).map .ofModbus
  | .fins _ drv _ _ => (drv.mappings.find? fun m => m.tagId = tagId).map .ofFins

/-- `update_tag_value` calls whose error was discarded. -/
def refused : Driver → List (String × CoreError)
  | .modbus _ _ _ d => d.refused
  | .fins _ _ _ d => d.refused

/-- Reads are for the driver's own mappings. -/
def PlansOwn : Driver → Prop
  | .modbus .. => True
  | .fins _ drv _ _ => ∀ g ∈ drv.readGroups, ∀ m ∈ g.mappings, m ∈ drv.mappings

theorem mapping?_eq (d : Driver) (tagId : String) :
    d.mapping? tagId = d.mapped.find? fun m => m.id = tagId := by
  cases d with
  | modbus env mappings taken d =>
      rw [mapping?, mapped, List.find?_map]
      rfl
  | fins env drv taken d =>
      rw [mapping?, mapped, List.find?_map]
      rfl

theorem mem_mapped_of_mapping? {d : Driver} {tagId : String} {m : MappedTag}
    (h : d.mapping? tagId = some m) : m ∈ d.mapped ∧ m.id = tagId := by
  rw [mapping?_eq] at h
  exact ⟨List.mem_of_find?_eq_some h, by simpa using List.find?_some h⟩

end Driver

/-- A new driver for the entries of a PLC. -/
structure Serves (u : Unicode) (plc : PlcConfig) (d : Driver) : Prop where
  tags : List.Forall₂ (MappedTag.From u) plc.tags d.mapped
  plan : d.PlansOwn
  pipeline : d.pipeline = []
  replies : d.replies = []
  refused : d.refused = []

section

variable {u : Unicode} {plc : PlcConfig} {registry : TagRegistry}

theorem serves_fins {mappings : List Fins.TagMapping} {context : TagConfig → String}
    (hconv : (plc.tags.mapM fun t => withContext (tagconfigToFinsMapping u t) (context t)) = .ok mappings)
    {maxWords : UInt32} {drv : Fins.FinsDriver} (hnew : Fins.FinsDriver.new ⟨mappings, maxWords⟩ = some drv)
    (env : Fins.Env) : Serves u plc (.fins env drv none (.new registry 1 [])) where
  tags := by
    have hmappings : drv.mappings = mappings := (Fins.new_eq_some hnew).1
    rw [Driver.mapped, hmappings, List.forall₂_map_right_iff]
    exact (forall₂_of_mapM_eq_ok hconv).imp fun t m h => gives_finsMapping (withContext_eq_ok.mp h)
  plan := fun g hg m hm => Fins.mem_mappings_of_readGroups hnew hg hm
  pipeline := rfl
  replies := rfl
  refused := rfl

theorem serves_modbus {mappings : List Modbus.ModbusMapping} {context : TagConfig → String}
    (hconv : (plc.tags.mapM fun t => withContext (tagconfigToModbusMapping u t) (context t)) = .ok mappings)
    (env : Modbus.Env) : Serves u plc (.modbus env mappings none (.new registry () [])) where
  tags := by
    rw [Driver.mapped, List.forall₂_map_right_iff]
    exact (forall₂_of_mapM_eq_ok hconv).imp fun t m h => (gives_modbusMapping (withContext_eq_ok.mp h)).1
  plan := trivial
  pipeline := rfl
  replies := rfl
  refused := rfl

end

-- ============================================================================
-- The loop over the PLCs
-- ============================================================================

/-- Routes for all entries of a PLC. -/
theorem routing_addRoutes (h : RuntimeWriteHandler) (ts : List TagConfig) (sender : DriverSender)
    (id : String) :
    (ts.foldl (fun h t => h.addRoute t.id sender) h).routing.lookup id =
      if id ∈ ts.map TagConfig.id then some sender else h.routing.lookup id := by
  induction ts generalizing h with
  | nil => rfl
  | cons t ts ih =>
      rw [List.foldl_cons, ih, List.map_cons]
      by_cases hts : id ∈ ts.map TagConfig.id
      · rw [if_pos hts, if_pos (List.mem_cons_of_mem _ hts)]
      · rw [if_neg hts]
        by_cases hid : id = t.id
        · rw [hid, if_pos (List.mem_cons_self ..)]
          exact AList.lookup_insert _
        · rw [if_neg (by simp only [List.mem_cons, hid, hts, or_self, not_false_eq_true])]
          exact AList.lookup_insert_ne hid

theorem registry_addRoutes (h : RuntimeWriteHandler) (ts : List TagConfig) (sender : DriverSender) :
    (ts.foldl (fun h t => h.addRoute t.id sender) h).registry = h.registry := by
  induction ts generalizing h with
  | nil => rfl
  | cons t ts ih => exact ih (h.addRoute t.id sender)

/-- The PLC gets a driver. -/
def PlcConfig.Supported (u : Unicode) (plc : PlcConfig) : Prop :=
  u.toLowercase plc.protocol = "fins" ∨ u.toLowercase plc.protocol = "modbus"

instance (u : Unicode) (plc : PlcConfig) : Decidable (plc.Supported u) :=
  inferInstanceAs (Decidable (_ ∨ _))

/-- The PLCs with a driver, in the order of their drivers. -/
def supported (u : Unicode) (plcs : List PlcConfig) : List PlcConfig :=
  plcs.filter fun plc => plc.Supported u

/-- After the setup of `plcs`: a driver for each supported one, and routes for
    exactly their tags. -/
structure Assembled (u : Unicode) (registry : TagRegistry) (plcs : List PlcConfig) (a : Assembly) :
    Prop where
  registry : a.writeHandler.registry = registry
  drivers : List.Forall₂ (Serves u) (supported u plcs) a.drivers
  routed : ∀ {id sender}, a.writeHandler.routing.lookup id = some sender →
    ∃ plc d, (supported u plcs)[sender.driver]? = some plc ∧ a.drivers[sender.driver]? = some d ∧
      sender.protocol = d.protocol ∧ ∃ t ∈ plc.tags, t.id = id
  complete : ∀ plc ∈ supported u plcs, ∀ t ∈ plc.tags,
    (a.writeHandler.routing.lookup t.id).isSome

namespace Assembled

variable {u : Unicode} {r : TagRegistry} {plcs : List PlcConfig} {plc : PlcConfig} {a : Assembly}

/-- A PLC without a driver. -/
theorem skip (h : Assembled u r plcs a) (hno : ¬ plc.Supported u) : Assembled u r (plcs ++ [plc]) a := by
  have hsame : supported u (plcs ++ [plc]) = supported u plcs := by
    simp [supported, hno]
  exact ⟨h.registry, by rw [hsame]; exact h.drivers, by rw [hsame]; exact h.routed,
    by rw [hsame]; exact h.complete⟩

/-- One more driver and its routes. -/
theorem add (h : Assembled u r plcs a) (hyes : plc.Supported u) {d : Driver} (hd : Serves u plc d)
    (sender : DriverSender) (hdriver : sender.driver = a.drivers.length)
    (hprotocol : sender.protocol = d.protocol) :
    Assembled u r (plcs ++ [plc])
      ⟨plc.tags.foldl (fun h t => h.addRoute t.id sender) a.writeHandler, a.drivers ++ [d]⟩ := by
  have hmore : supported u (plcs ++ [plc]) = supported u plcs ++ [plc] := by
    simp [supported, hyes]
  have hlen : (supported u plcs).length = a.drivers.length := h.drivers.length_eq
  refine ⟨?_, ?_, ?_, ?_⟩
  · rw [registry_addRoutes, h.registry]
  · rw [hmore]
    exact List.rel_append h.drivers (.cons hd .nil)
  · intro id s hs
    rw [hmore]
    simp only at hs ⊢
    rw [routing_addRoutes] at hs
    split at hs
    · rename_i hid
      obtain rfl := Option.some.inj hs
      obtain ⟨t, ht, rfl⟩ := List.mem_map.mp hid
      refine ⟨plc, d, ?_, ?_, hprotocol, t, ht, rfl⟩
      · rw [hdriver, ← hlen]
        exact List.getElem?_concat_length
      · rw [hdriver]
        exact List.getElem?_concat_length
    · obtain ⟨plc', d', hplc', hd', hrest⟩ := h.routed hs
      have hlt := (List.getElem?_eq_some_iff.mp hd').1
      refine ⟨plc', d', ?_, ?_, hrest⟩
      · rw [List.getElem?_append_left (hlen ▸ hlt), hplc']
      · rw [List.getElem?_append_left hlt, hd']
  · intro plc' hplc' t ht
    rw [hmore, List.mem_append, List.mem_singleton] at hplc'
    simp only
    rw [routing_addRoutes]
    split
    · rfl
    · rename_i hid
      rcases hplc' with hplc' | rfl
      · exact h.complete plc' hplc' t ht
      · exact absurd (List.mem_map_of_mem ht) hid

theorem step {host : Host} (h : Assembled host.unicode r plcs a) {a' : Assembly}
    (hsetup : setupDriver host a plc = .ok a') : Assembled host.unicode r (plcs ++ [plc]) a' := by
  rw [setupDriver] at hsetup
  split at hsetup
  · rename_i hfins
    obtain ⟨-, -, hsetup⟩ := bind_eq_ok.mp hsetup
    obtain ⟨mappings, hconv, hsetup⟩ := bind_eq_ok.mp hsetup
    obtain ⟨drv, hnew, hsetup⟩ := bind_eq_ok.mp hsetup
    obtain ⟨-, -, hsetup⟩ := bind_eq_ok.mp hsetup
    rw [← Except.ok.inj hsetup]
    have hdrv : Fins.FinsDriver.new ⟨mappings, plc.maxWordsPerRequest.getD 960⟩ = some drv := by
      rw [newFinsDriver] at hnew
      split at hnew
      · rename_i hsome
        rw [hsome, Except.ok.inj hnew]
      · exact absurd hnew (by simp)
    exact h.add (.inl hfins) (serves_fins (mapError_eq_ok.mp hconv) hdrv _) (.fins a.drivers.length) rfl rfl
  · rename_i hmodbus
    obtain ⟨-, -, hsetup⟩ := bind_eq_ok.mp hsetup
    obtain ⟨mappings, hconv, hsetup⟩ := bind_eq_ok.mp hsetup
    obtain ⟨-, -, hsetup⟩ := bind_eq_ok.mp hsetup
    rw [← Except.ok.inj hsetup]
    exact h.add (.inr hmodbus) (serves_modbus (mapError_eq_ok.mp hconv) _) (.modbus a.drivers.length) rfl rfl
  · rename_i hfins hmodbus
    rw [← Except.ok.inj hsetup]
    exact h.skip (by rintro (h' | h'); exacts [hfins h', hmodbus h'])

end Assembled

-- ============================================================================
-- What startup leaves behind
-- ============================================================================

/-- Every entry has its definition, under an id of its own. -/
structure Defined (u : Unicode) (plcs : List PlcConfig) (registry : TagRegistry) : Prop where
  unique : (plcs.flatMap fun plc => plc.tags.map TagConfig.id).Nodup
  definition : ∀ plc ∈ plcs, ∀ t ∈ plc.tags, ∃ d, registry.getDefinition t.id = .ok d ∧
    d.plcName = plc.name ∧ t.Gives u d.id d.dataType d.byteOrder d.writable

theorem defined_of_definitions {u : Unicode} {plcs : List PlcConfig} {defs : List TagDefinition}
    {clock : Nat → DateTime} {registry : TagRegistry} (hdefs : allDefinitions u plcs = .ok defs)
    (hregistry : TagRegistry.fromDefinitions clock defs = .ok registry) : Defined u plcs registry := by
  have hconv : List.Forall₂ (fun (pt : PlcConfig × TagConfig) (d : TagDefinition) =>
      d.plcName = pt.1.name ∧ pt.2.Gives u d.id d.dataType d.byteOrder d.writable) (allTags plcs) defs := by
    refine (forall₂_of_mapM_eq_ok hdefs).imp ?_
    intro pt d h
    have h := withContext_eq_ok.mp h
    exact ⟨plcName_of_definition h, gives_definition h⟩
  have hids : (plcs.flatMap fun plc => plc.tags.map TagConfig.id) = defs.map TagDefinition.id := by
    rw [← map_eq_of_forall₂ (hconv.imp fun pt d h => h.2.id.symm), allTags, List.map_flatMap]
    simp only [List.map_map, Function.comp_def]
  rw [TagRegistry.fromDefinitions] at hregistry
  split at hregistry
  · exact absurd hregistry (by simp)
  · rename_i store hstore
    obtain ⟨-, hadded, hnodup⟩ := TagDefinitionStore.insertAll_eq_ok hstore
    obtain rfl := Except.ok.inj hregistry
    refine ⟨by rw [hids]; exact hnodup, ?_⟩
    intro plc hplc t ht
    have hmem : (plc, t) ∈ allTags plcs :=
      List.mem_flatMap.mpr ⟨plc, hplc, List.mem_map.mpr ⟨t, ht, rfl⟩⟩
    obtain ⟨d, hd, hname, hgives⟩ := exists_mem_of_forall₂ hconv hmem
    refine ⟨d, ?_, hname, hgives⟩
    rw [← hgives.id]
    exact TagDefinitionStore.get_eq_ok.mpr (hadded d hd).2

theorem startup_eq_ok {host : Host} {plcs : List PlcConfig} {a : Assembly} (h : startup host plcs = .ok a) :
    Defined host.unicode plcs a.writeHandler.registry ∧
    Assembled host.unicode a.writeHandler.registry plcs a ∧
    ∃ defs, TagRegistry.fromDefinitions host.clock defs = .ok a.writeHandler.registry := by
  obtain ⟨defs, hdefs, h⟩ := bind_eq_ok.mp h
  obtain ⟨registry, hregistry, h⟩ := bind_eq_ok.mp h
  have hdefs := mapError_eq_ok.mp hdefs
  have hregistry := mapError_eq_ok.mp (mapError_eq_ok.mp hregistry)
  have hinit : Assembled host.unicode registry [] ⟨.new registry, []⟩ := by
    refine ⟨rfl, .nil, ?_, ?_⟩
    · intro id sender hs
      exact absurd hs (by simp [RuntimeWriteHandler.new])
    · intro plc hplc
      exact absurd hplc (List.not_mem_nil)
  have hend := foldlM_invariant (I := Assembled host.unicode registry)
    (fun done plc b b' hb hsetup => hb.step hsetup) hinit h
  rw [List.nil_append] at hend
  rw [hend.registry]
  exact ⟨defined_of_definitions hdefs hregistry, hend, defs, hregistry⟩

variable {u : Unicode} {plcs : List PlcConfig} {r : TagRegistry}

namespace Defined

/-- An id names one entry. -/
theorem tag_unique (h : Defined u plcs r) {plc plc' : PlcConfig} (hplc : plc ∈ plcs) (hplc' : plc' ∈ plcs)
    {t t' : TagConfig} (ht : t ∈ plc.tags) (ht' : t' ∈ plc'.tags) (hid : t.id = t'.id) : t = t' := by
  have hnodup : ((plcs.flatMap PlcConfig.tags).map TagConfig.id).Nodup := by
    rw [List.map_flatMap]
    exact h.unique
  exact List.inj_on_of_nodup_map hnodup (List.mem_flatMap.mpr ⟨plc, hplc, ht⟩)
    (List.mem_flatMap.mpr ⟨plc', hplc', ht'⟩) hid

theorem plc_unique (h : Defined u plcs r) {i j : Nat} {plc plc' : PlcConfig} (hi : plcs[i]? = some plc)
    (hj : plcs[j]? = some plc') {t t' : TagConfig} (ht : t ∈ plc.tags) (ht' : t' ∈ plc'.tags)
    (hid : t.id = t'.id) : i = j :=
  index_unique_of_nodup h.unique hi hj (List.mem_map_of_mem ht)
    (by rw [hid]; exact List.mem_map_of_mem ht')

theorem nodup_tags (h : Defined u plcs r) {plc : PlcConfig} (hplc : plc ∈ plcs) :
    (plc.tags.map TagConfig.id).Nodup := (List.nodup_flatMap.mp h.unique).1 plc hplc

/-- Leaving PLCs out leaves the others distinct. -/
theorem unique_supported (h : Defined u plcs r) :
    ((supported u plcs).flatMap fun plc => plc.tags.map TagConfig.id).Nodup :=
  h.unique.sublist (List.filter_sublist.flatMap _)

end Defined

namespace Serves

variable {plc : PlcConfig} {d : Driver} {t : TagConfig}

theorem exists_tag (h : Serves u plc d) {m : MappedTag} (hm : m ∈ d.mapped) : ∃ t ∈ plc.tags, m.From u t :=
  exists_mem_of_forall₂ h.tags.flip hm

/-- The write phase finds the mapping of each entry. -/
theorem mapping_of_tag (h : Serves u plc d) (hnodup : (plc.tags.map TagConfig.id).Nodup)
    (ht : t ∈ plc.tags) : ∃ m, d.mapping? t.id = some m ∧ m.From u t := by
  obtain ⟨m, hm, hfrom⟩ := exists_mem_of_forall₂ h.tags ht
  have hids : plc.tags.map TagConfig.id = d.mapped.map MappedTag.id :=
    map_eq_of_forall₂ (h.tags.imp fun t m h => h.id.symm)
  refine ⟨m, ?_, hfrom⟩
  rw [Driver.mapping?_eq, ← hfrom.id]
  exact find?_eq_of_nodup (by rw [← hids]; exact hnodup) hm

end Serves

end PlcBridge.Bridge
