/-
  PlcBridge.Bridge.Agreement

  Definition, mapping and route of a tag agree, after startup and in every run.

  An entry is converted three times, and the results are looked up by id in
  three places: the registry, the write handler's routes and the driver's
  mappings.  The registry admits an id once, so all three lead back to the same
  entry.  A driver then never meets a request it has no writable mapping for,
  and the registry never refuses the value a driver stores.
-/
import PlcBridge.Bridge.Confirmed
import PlcBridge.Bridge.Startup
import PlcBridge.Refusals

namespace PlcBridge.Bridge

open PlcBridge.Lib PlcBridge.Runtime

-- ============================================================================
-- What turns leave alone
-- ============================================================================

namespace Driver

/-- Two states of one driver instance. -/
inductive SameInstance : Driver → Driver → Prop
  | modbus {env mappings taken taken' state state'} :
      SameInstance (.modbus env mappings taken state) (.modbus env mappings taken' state')
  | fins {env drv taken taken' state state'} :
      SameInstance (.fins env drv taken state) (.fins env drv taken' state')

variable {d d' : Driver} {registry : TagRegistry} {t : Turn}

theorem SameInstance.mapped (h : SameInstance d d') : d'.mapped = d.mapped := by
  cases h <;> rfl

theorem SameInstance.mapping? (h : SameInstance d d') (tagId : String) :
    d'.mapping? tagId = d.mapping? tagId := by
  cases h <;> rfl

theorem SameInstance.plansOwn (h : SameInstance d d') (hown : d.PlansOwn) : d'.PlansOwn := by
  cases h <;> exact hown

theorem sameInstance_enqueue (d : Driver) (req : WriteRequest) : SameInstance d (d.enqueue req) := by
  cases d <;> constructor

theorem sameInstance_turn (h : d.turn registry t = some d') : SameInstance d d' := by
  cases turned_of_turn h <;> constructor

-- ============================================================================
-- What turns store
-- ============================================================================

/-- The tags of the mappings exist, with the mappings' data types. -/
def TypedIn (registry : TagRegistry) (d : Driver) : Prop :=
  ∀ m ∈ d.mapped, registry.dataType? m.id = some m.dataType ∧ (registry.tag? m.id).isSome

theorem registered_of_registry {ξ σ : Type} (d : DriverState ξ σ) {id : String} {dt : TagDataType}
    (htype : registry.dataType? id = some dt) (htag : (registry.tag? id).isSome) :
    DriverState.Registered { d with registry := registry } id dt :=
  ⟨htype, by rw [DriverState.view, Option.isSome_map]; exact htag⟩

/-- Planned reads and writes of values of the registered type are never
    refused. -/
theorem refused_turn (htyped : d.TypedIn registry) (hown : d.PlansOwn)
    (htaken : ∀ req, d.taken = some req → registry.dataType? req.tagId = some req.value.dataType)
    (hplan : d.Planned t) (h : d.turn registry t = some d') : d'.refused = d.refused := by
  cases turned_of_turn h with
  | modbusTake _ => rfl
  | @modbusWrite env mappings req d =>
      refine Modbus.refused_processWrite ?_
      intro m hm
      have hid : m.tagId = req.tagId := by simpa using List.find?_some hm
      have htag := (htyped _ (List.mem_map_of_mem (List.mem_of_find?_eq_some hm))).2
      exact registered_of_registry d (by rw [hid]; exact htaken req rfl) htag
  | @modbusRead env mappings ctx r d =>
      refine Modbus.refused_readStep ?_ ctx
      intro m hm
      obtain ⟨g, hg, hr⟩ := Modbus.mem_readPlan hplan
      rw [(Modbus.mem_groupRequests hr).2] at hm
      obtain ⟨htype, htag⟩ := htyped _ (List.mem_map_of_mem (Modbus.mem_funcGroups_members hg hm).1)
      exact registered_of_registry d htype htag
  | modbusConnect => exact DriverState.refused_takeOrConnect _
  | modbusPutBack => rfl
  | finsTake _ => rfl
  | @finsWrite env drv req d =>
      refine Fins.refused_processWrite ?_
      intro m hm
      have hid : m.tagId = req.tagId := by simpa using List.find?_some hm
      have htag := (htyped _ (List.mem_map_of_mem (List.mem_of_find?_eq_some hm))).2
      exact registered_of_registry d (by rw [hid]; exact htaken req rfl) htag
  | @finsRead env drv g d =>
      refine Fins.refused_readStep ?_
      intro m hm
      obtain ⟨htype, htag⟩ := htyped _ (List.mem_map_of_mem (hown g hplan m hm))
      exact registered_of_registry d htype htag
  | finsConnect => exact DriverState.refused_takeOrConnect _
  | finsPutBack => rfl

end Driver

-- ============================================================================
-- The invariant
-- ============================================================================

/-- What a mapping should say of a tag. -/
def MappedTag.ofDefinition (d : TagDefinition) : MappedTag := ⟨d.id, d.dataType, d.byteOrder, d.writable⟩

/-- Mappings, definitions and routes agree for driver `i`, and none of its
    updates was refused. -/
structure Wired (routing : String → Option Nat) (s : Sys) (i : Nat) (d : Driver) : Prop where
  plan : d.PlansOwn
  defined : ∀ m ∈ d.mapped, ∃ td, s.registry.getDefinition m.id = .ok td ∧ m = .ofDefinition td
  routed : ∀ id, routing id = some i → ∃ m, d.mapping? id = some m
  refused : d.refused = []

/-- Drivers only read what they plan to. -/
def Sys.Planned (s : Sys) : Event → Prop
  | .turn i t => ∀ d ∈ s.drivers[i]?, d.Planned t
  | _ => True

instance (s : Sys) : (e : Event) → Decidable (s.Planned e)
  | .turn i t => inferInstanceAs (Decidable (∀ d ∈ s.drivers[i]?, d.Planned t))
  | .call .. | .collect _ | .giveUp _ | .receive | .enqueue | .enqueueTimeout | .enqueueClosed | .confirm
  | .confirmTimeout | .confirmClosed | .answer | .stop | .update _ => isTrue trivial

structure Agreed (routing : String → Option Nat) (s : Sys) : Prop where
  sound : Sound routing s
  wired : ∀ {i : Nat} {d : Driver}, s.drivers[i]? = some d → Wired routing s i d

variable {routing : String → Option Nat} {s s' : Sys} {i : Nat} {d d' : Driver}

theorem Wired.typedIn (h : Wired routing s i d) (hcons : s.registry.Consistent) :
    d.TypedIn s.registry := by
  intro m hm
  obtain ⟨td, htd, hofd⟩ := h.defined m hm
  refine ⟨TagRegistry.dataType?_eq_some.mpr ⟨td, htd, by rw [hofd]; rfl⟩, ?_⟩
  obtain ⟨t, ht⟩ := (getTag_iff_getDefinition hcons).mpr ⟨td, htd⟩
  rw [TagRegistry.getTag_eq_ok.mp ht]
  rfl

/-- Driver `i` has a writable mapping, of the value's data type, for every
    request it holds or has held. -/
theorem Wired.mapping_of_request (h : Wired routing s i d) {req : WriteRequest}
    (horigin : s.Origin routing i req) :
    ∃ m, d.mapping? req.tagId = some m ∧ m.writable = true ∧ m.dataType = req.value.dataType := by
  obtain ⟨k, n, -, -, -, hroute, td, htd, hwritable, htype⟩ := horigin
  obtain ⟨m, hm⟩ := h.routed req.tagId hroute
  obtain ⟨hmem, hid⟩ := Driver.mem_mapped_of_mapping? hm
  obtain ⟨td', htd', hofd⟩ := h.defined m hmem
  rw [hid, htd] at htd'
  obtain rfl := Except.ok.inj htd'
  exact ⟨m, hm, by rw [hofd]; exact hwritable, by rw [hofd, htype]; rfl⟩

/-- Later states of the same instance. -/
theorem Wired.next (h : Wired routing s i d) (hgrows : Grows s s') (hsame : d.SameInstance d')
    (hrefused : d'.refused = d.refused) : Wired routing s' i d' where
  plan := hsame.plansOwn h.plan
  defined := by
    obtain ⟨ops, hops⟩ := hgrows.registry
    rw [hsame.mapped, hops]
    simp only [TagRegistry.getDefinition, TagRegistry.definitions_run]
    exact h.defined
  routed := by
    intro id hid
    rw [hsame.mapping?]
    exact h.routed id hid
  refused := hrefused.trans h.refused

theorem Driver.refused_enqueue (d : Driver) (req : WriteRequest) : (d.enqueue req).refused = d.refused := by
  cases d <;> rfl

theorem Driver.SameInstance.refl (d : Driver) : d.SameInstance d := by
  cases d <;> constructor

/-- A request that was taken has the registered type of its tag. -/
theorem Sound.type_of_taken (h : Sound routing s) (hd : s.drivers[i]? = some d) {req : WriteRequest}
    (htaken : d.taken = some req) : s.registry.dataType? req.tagId = some req.value.dataType := by
  have hmem : req ∈ d.pipeline :=
    List.mem_append_left _ (List.mem_append_right _ (Option.mem_toList.mpr htaken))
  obtain ⟨k, n, -, -, -, -, td, htd, -, htype⟩ := (h.drivers hd).origin req hmem
  exact TagRegistry.dataType?_eq_some.mpr ⟨td, htd, htype.symm⟩

theorem Agreed.step (h : Agreed routing s) {e : Event} (hplan : s.Planned e)
    (hstep : step routing s e = some s') : Agreed routing s' := by
  have hmove := moves_of_step hstep
  have hgrows := Grows.of_moves hmove
  refine ⟨h.sound.step hmove, ?_⟩
  intro j d hj
  -- Only two kinds of steps touch a driver.
  cases hmove with
  | @enqueue bw i k d₀ hsending hd =>
      rcases getElem?_set_cases hd hj with ⟨rfl, rfl⟩ | hj
      · exact (h.wired hd).next hgrows (d₀.sameInstance_enqueue _) (d₀.refused_enqueue _)
      · exact (h.wired hj).next hgrows (.refl d) rfl
  | @turn i d₀ d' t he hd hturn =>
      subst he
      rcases getElem?_set_cases hd hj with ⟨rfl, rfl⟩ | hj
      · have hwired := h.wired hd
        have hrefused := Driver.refused_turn (hwired.typedIn h.sound.consistent) hwired.plan
          (fun req htaken => h.sound.type_of_taken hd htaken) (hplan d₀ hd) hturn
        exact hwired.next hgrows (Driver.sameInstance_turn hturn) hrefused
      · exact (h.wired hj).next hgrows (.refl d) rfl
  | _ => exact (h.wired hj).next hgrows (.refl d) rfl

-- ============================================================================
-- After startup
-- ============================================================================

variable {u : Unicode} {r : TagRegistry} {plcs : List PlcConfig} {a : Assembly}

/-- A mapping and a definition of one entry say the same. -/
theorem MappedTag.From.eq_ofDefinition {t : TagConfig} {m : MappedTag} {td : TagDefinition}
    (hm : m.From u t) (htd : t.Gives u td.id td.dataType td.byteOrder td.writable) : m = .ofDefinition td := by
  obtain ⟨hid, hdt, horder, hw⟩ := hm.unique htd
  rw [MappedTag.ofDefinition, ← hid, ← hdt, ← horder, ← hw]

namespace Assembled

theorem serves (h : Assembled u r plcs a) (hd : a.drivers[i]? = some d) :
    ∃ plc, (supported u plcs)[i]? = some plc ∧ plc ∈ plcs ∧ Serves u plc d := by
  obtain ⟨plc, hplc, hserves⟩ := getElem?_of_forall₂ h.drivers.flip hd
  exact ⟨plc, hplc, List.mem_of_mem_filter (List.mem_of_getElem? hplc), hserves⟩

/-- A route leads to the driver that has the mapping. -/
theorem mapping_of_route (h : Assembled u r plcs a) (hdef : Defined u plcs r) {id : String}
    (hroute : a.writeHandler.driverOf id = some i) (hd : a.drivers[i]? = some d) :
    ∃ plc ∈ plcs, plc.Supported u ∧ ∃ t ∈ plc.tags, t.id = id ∧
      ∃ m, d.mapping? id = some m ∧ m.From u t := by
  obtain ⟨sender, hsender, rfl⟩ := Option.map_eq_some_iff.mp hroute
  obtain ⟨plc, d', hplc, hd', -, t, ht, rfl⟩ := h.routed hsender
  rw [hd] at hd'
  obtain rfl := Option.some.inj hd'
  obtain ⟨plc', hplc', hmem, hserves⟩ := h.serves hd
  rw [hplc] at hplc'
  obtain rfl := Option.some.inj hplc'
  refine ⟨plc, hmem, ?_, t, ht, rfl, hserves.mapping_of_tag (hdef.nodup_tags hmem) ht⟩
  simpa [supported, hmem] using List.mem_of_getElem? hplc

theorem wired (h : Assembled u r plcs a) (hdef : Defined u plcs r) (hd : a.drivers[i]? = some d) :
    Wired a.writeHandler.driverOf (.init r a.drivers) i d := by
  obtain ⟨plc, -, hplc, hserves⟩ := h.serves hd
  refine ⟨hserves.plan, ?_, ?_, hserves.refused⟩
  · intro m hm
    obtain ⟨t, ht, hfrom⟩ := hserves.exists_tag hm
    obtain ⟨td, htd, -, hgives⟩ := hdef.definition plc hplc t ht
    exact ⟨td, by rw [hfrom.id]; exact htd, hfrom.eq_ofDefinition hgives⟩
  · intro id hid
    obtain ⟨-, -, -, -, -, -, m, hm, -⟩ := h.mapping_of_route hdef hid hd
    exact ⟨m, hm⟩

/-- Only one driver has a mapping for a tag. -/
theorem driver_unique (h : Assembled u r plcs a) (hdef : Defined u plcs r) {j : Nat} {id : String}
    (hi : a.drivers[i]? = some d) (hj : a.drivers[j]? = some d') (hmi : (d.mapping? id).isSome)
    (hmj : (d'.mapping? id).isSome) : i = j := by
  have hlabel : ∀ {n : Nat} {d : Driver}, a.drivers[n]? = some d → (d.mapping? id).isSome →
      ∃ plc, (supported u plcs)[n]? = some plc ∧ id ∈ plc.tags.map TagConfig.id := by
    intro n d hn hmn
    obtain ⟨m, hm⟩ := Option.isSome_iff_exists.mp hmn
    obtain ⟨hmem, hid⟩ := Driver.mem_mapped_of_mapping? hm
    obtain ⟨plc, hplc, -, hserves⟩ := h.serves hn
    obtain ⟨t, ht, hfrom⟩ := hserves.exists_tag hmem
    exact ⟨plc, hplc, by rw [← hid, hfrom.id]; exact List.mem_map_of_mem ht⟩
  obtain ⟨plc, hplc, hid⟩ := hlabel hi hmi
  obtain ⟨plc', hplc', hid'⟩ := hlabel hj hmj
  exact index_unique_of_nodup hdef.unique_supported hplc hplc' hid hid'

/-- The entries of a supported PLC are routed to a driver that maps them. -/
theorem route_of_tag (h : Assembled u r plcs a) (hdef : Defined u plcs r) {plc : PlcConfig}
    (hplc : plc ∈ plcs) (hyes : plc.Supported u) {t : TagConfig} (ht : t ∈ plc.tags) :
    ∃ sender d m, a.writeHandler.routing.lookup t.id = some sender ∧
      a.drivers[sender.driver]? = some d ∧ sender.protocol = d.protocol ∧
      d.mapping? t.id = some m ∧ m.From u t := by
  have hmem : plc ∈ supported u plcs := by
    simp [supported, hplc, hyes]
  obtain ⟨sender, hsender⟩ := Option.isSome_iff_exists.mp (h.complete plc hmem t ht)
  obtain ⟨-, d, -, hd, hprotocol, -⟩ := h.routed hsender
  have hroute : a.writeHandler.driverOf t.id = some sender.driver := by
    rw [RuntimeWriteHandler.driverOf, hsender]
    rfl
  obtain ⟨plc', hplc', -, t', ht', hid, m, hm, hfrom⟩ := h.mapping_of_route hdef hroute hd
  obtain rfl := hdef.tag_unique hplc' hplc ht' ht hid
  exact ⟨sender, d, m, hsender, hd, hprotocol, hm, hfrom⟩

/-- The entries of other PLCs are not routed. -/
theorem no_route (h : Assembled u r plcs a) (hdef : Defined u plcs r) {plc : PlcConfig}
    (hplc : plc ∈ plcs) (hno : ¬ plc.Supported u) {t : TagConfig} (ht : t ∈ plc.tags) :
    a.writeHandler.routing.lookup t.id = none := by
  by_contra hsome
  obtain ⟨sender, hsender⟩ := Option.ne_none_iff_exists'.mp hsome
  obtain ⟨plc', -, hget, -, -, t', ht', hid⟩ := h.routed hsender
  have hin : plc' ∈ plcs ∧ plc'.Supported u := by
    simpa [supported] using List.mem_of_getElem? hget
  obtain ⟨n, hn⟩ := List.mem_iff_getElem?.mp hplc
  obtain ⟨n', hn'⟩ := List.mem_iff_getElem?.mp hin.1
  obtain rfl := hdef.plc_unique hn' hn ht' ht hid
  rw [hn] at hn'
  obtain rfl := Option.some.inj hn'
  exact hno hin.2

end Assembled

theorem agreed_of_reaches {host : Host} (h : startup host plcs = .ok a)
    (hrun : Reaches (step a.writeHandler.driverOf) Sys.Planned (.init a.writeHandler.registry a.drivers) s) :
    Agreed a.writeHandler.driverOf s := by
  obtain ⟨hdef, hassembled, defs, hregistry⟩ := startup_eq_ok h
  have hfresh : ∀ d ∈ a.drivers, d.Fresh := by
    intro d hd
    obtain ⟨i, hi⟩ := List.mem_iff_getElem?.mp hd
    obtain ⟨plc, -, -, hserves⟩ := hassembled.serves hi
    exact ⟨hserves.pipeline, hserves.replies⟩
  have hinit : Agreed a.writeHandler.driverOf (.init a.writeHandler.registry a.drivers) :=
    ⟨sound_init (TagRegistry.consistent_fromDefinitions hregistry) hfresh,
      fun hd => hassembled.wired hdef hd⟩
  exact hrun.invariant hinit fun _ _ _ hI hplan hstep => hI.step hplan hstep

/-- For every configuration that passes startup: a tag id belongs to one entry
    of one PLC; its definition exists and, for a PLC with a driver, its route
    leads to the one driver that maps it, with a mapping that agrees with the
    definition; and in every run, every request a driver ever holds finds a
    writable mapping of its value's type, and no update is refused. -/
theorem tags_agree {host : Host} (h : startup host plcs = .ok a) :
    (∀ (i j : Nat) (plc plc' : PlcConfig) (t t' : TagConfig), plcs[i]? = some plc → plcs[j]? = some plc' →
      t ∈ plc.tags → t' ∈ plc'.tags → t.id = t'.id → i = j ∧ t = t') ∧
    (∀ plc ∈ plcs, ∀ t ∈ plc.tags, ∃ td, a.writeHandler.registry.getDefinition t.id = .ok td ∧
      td.plcName = plc.name ∧
      (plc.Supported host.unicode → ∃ sender d, a.writeHandler.routing.lookup t.id = some sender ∧
        a.drivers[sender.driver]? = some d ∧ sender.protocol = d.protocol ∧
        d.mapping? t.id = some (.ofDefinition td) ∧
        ∀ (j : Nat) (d' : Driver), a.drivers[j]? = some d' → (d'.mapping? t.id).isSome → j = sender.driver) ∧
      (¬ plc.Supported host.unicode → a.writeHandler.routing.lookup t.id = none)) ∧
    ∀ s, Reaches (step a.writeHandler.driverOf) Sys.Planned
        (.init a.writeHandler.registry a.drivers) s →
      ∀ d ∈ s.drivers, (∀ req ∈ d.pipeline, ∃ m, d.mapping? req.tagId = some m ∧ m.writable = true ∧
        m.dataType = req.value.dataType) ∧ d.refused = [] := by
  obtain ⟨hdef, hassembled, -⟩ := startup_eq_ok h
  refine ⟨?_, ?_, ?_⟩
  · intro i j plc plc' t t' hi hj ht ht' hid
    exact ⟨hdef.plc_unique hi hj ht ht' hid,
      hdef.tag_unique (List.mem_of_getElem? hi) (List.mem_of_getElem? hj) ht ht' hid⟩
  · intro plc hplc t ht
    obtain ⟨td, htd, hname, hgives⟩ := hdef.definition plc hplc t ht
    refine ⟨td, htd, hname, ?_, fun hno => hassembled.no_route hdef hplc hno ht⟩
    intro hyes
    obtain ⟨sender, d, m, hsender, hd, hprotocol, hm, hfrom⟩ := hassembled.route_of_tag hdef hplc hyes ht
    refine ⟨sender, d, hsender, hd, hprotocol, by rw [hm, hfrom.eq_ofDefinition hgives], ?_⟩
    intro j d' hj hmj
    exact hassembled.driver_unique hdef hj hd hmj (by rw [hm]; rfl)
  · intro s hrun d hd
    have hagreed := agreed_of_reaches h hrun
    obtain ⟨i, hi⟩ := List.mem_iff_getElem?.mp hd
    have hwired := hagreed.wired hi
    exact ⟨fun req hreq => hwired.mapping_of_request ((hagreed.sound.drivers hi).origin req hreq),
      hwired.refused⟩

/-- A FINS tag and the Modbus tags of examples/config.toml; the FINS PLC cannot
    be reached. -/
def motorSpeedConfig : TagConfig where
  id := "ns=1;s=OmronPLC.MotorSpeed"
  name := "MotorSpeed"
  address := "D100"
  dataType := "UInt16"
  writable := true

def plantConfig : List PlcConfig :=
  [⟨"OmronPLC", "fins", "192.168.100.50:9600", [motorSpeedConfig], none⟩,
   ⟨"ModbusPLC", "modbus", "192.168.100.51:502", [startCmdConfig, setpointConfig], none⟩]

def plantHost : Host where
  unicode := .basic
  clock := fun _ => .unixEpoch
  lookupHost := fun _ hostPort => .ok [hostPort]
  finsOrder := fun _ => .ascending
  finsEnv := fun _ => ⟨.rejecting, fun _ => .unixEpoch, fun _ _ _ => .sendFailed "Broken pipe"⟩
  modbusOrder := fun _ => .declared
  modbusEnv := fun _ => acceptingDevice

def plant : Assembly := (startup plantHost plantConfig).toOption.getD ⟨.new (.ofDefinitions []), []⟩

theorem startup_plant : startup plantHost plantConfig = .ok plant := by
  have hok : (startup plantHost plantConfig).toOption.isSome = true := by
    decide +kernel
  rw [plant]
  cases h : startup plantHost plantConfig with
  | ok a => rfl
  | error e =>
      rw [h] at hok
      exact absurd hok (by simp [Except.toOption])

/-- A write to `Setpoint`, and a read of each driver in between. -/
def plantEvents : List Event :=
  [.call setpointConfig.id .confirmedAck (some (.uint16 70)), .receive, .enqueue,
   .turn 0 (.readGroup ⟨0x82, 100, 1, [⟨motorSpeedConfig.id, 0x82, 100, 0, 1, true, .ABCD, .uint16⟩]⟩),
   .turn 1 .take, .turn 1 .write, .turn 1 (.readChunk 0 ⟨.holdingRegisters, 100, 1, [setpointMapping]⟩),
   .confirm, .answer, .collect 0]

def plantEnd : Sys :=
  (runEvents (step plant.writeHandler.driverOf) Sys.Planned plantEvents
    (.init plant.writeHandler.registry plant.drivers)).getD (.init plant.writeHandler.registry [])

theorem reaches_plantEnd : Reaches (step plant.writeHandler.driverOf) Sys.Planned
    (.init plant.writeHandler.registry plant.drivers) plantEnd := by
  have hok : (runEvents (step plant.writeHandler.driverOf) Sys.Planned plantEvents
      (.init plant.writeHandler.registry plant.drivers)).isSome = true := by
    decide +kernel
  exact Reaches.refl.runEvents plantEvents
    (Option.getD_of_ne_none (Option.isSome_iff_ne_none.mp hok) _).symm

theorem tags_agree_plant :
    startup plantHost plantConfig = .ok plant ∧
    plantEnd.calls.map ClientCall.result = [some true] ∧
    ∀ d ∈ plantEnd.drivers, (∀ req ∈ d.pipeline, ∃ m, d.mapping? req.tagId = some m ∧ m.writable = true ∧
      m.dataType = req.value.dataType) ∧ d.refused = [] := by
  have hresult : plantEnd.calls.map ClientCall.result = [some true] := by
    decide +kernel
  exact ⟨startup_plant, hresult, (tags_agree startup_plant).2.2 plantEnd reaches_plantEnd⟩

end PlcBridge.Bridge
