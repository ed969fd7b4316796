/-
  PlcBridge.Bridge.ClientView

  What the address space promises, the running system keeps.  A client finds a
  variable in the folder of its PLC, with a data type and perhaps write access;
  behind it stand the registry, the write handler's routes and the drivers.  In
  every run a read of the variable delivers a value of the declared type, and
  whatever is on its way to a device for its tag was let through by the access
  level, has the declared type, and is with a driver of the folder's PLC.
-/
import PlcBridge.Bridge.Agreement
import PlcBridge.Bridge.GoodData
import PlcBridge.Opcua.AddressSpace

namespace PlcBridge.Bridge

open PlcBridge.Lib PlcBridge.Opcua PlcBridge.Runtime

variable {b : Backend} {nodes : List Node} {n : Node} {ty : Ns0} {access : AccessLevel} {tagId : String}

/-- The definition behind a variable. -/
theorem Mirrors.definition {r : TagRegistry} (h : Mirrors b r.allDefinitionsSorted nodes) (hn : n ∈ nodes)
    (hkind : n.kind = .tagVariable ty access tagId) :
    ∃ td, r.getDefinition tagId = .ok td ∧ td.id = tagId ∧ ty = dataTypeNodeid td.dataType ∧
      access.currentWrite = td.writable ∧
      ∃ f ∈ nodes, f.id = n.parent ∧ f.browseName = td.plcName := by
  have hmem : n ∈ nodes.filter Node.isVariable := by
    rw [List.mem_filter]
    exact ⟨hn, by rw [Node.isVariable, hkind]⟩
  obtain ⟨td, htd, f, hf, hfolder, rfl⟩ := exists_mem_of_forall₂ h.tags.flip hmem
  obtain ⟨rfl, rfl, rfl⟩ := NodeKind.tagVariable.inj hkind
  exact ⟨td, TagDefinitionStore.mem_allDefinitionsSorted.mp htd, rfl, rfl, rfl, f, hf, rfl,
    hfolder.browseName⟩

theorem dataTypeNodeid_string {dt : TagDataType} (h : dataTypeNodeid dt ≠ .string) : dt ≠ .string := by
  rintro rfl
  exact h rfl

theorem dataTypeNodeid_dateTime {dt : TagDataType} (h : dataTypeNodeid dt ≠ .dateTime) :
    dt ≠ .dateTime := by
  rintro rfl
  exact h rfl

/-- The driver that holds a request for a tag serves a PLC of the name in the
    tag's definition. -/
theorem plcName_of_request {host : Host} {plcs : List PlcConfig} {a : Assembly}
    (hstart : startup host plcs = .ok a) {s : Sys} {i : Nat} {req : WriteRequest}
    (horigin : s.Origin a.writeHandler.driverOf i req) {td : TagDefinition}
    (htd : a.writeHandler.registry.getDefinition req.tagId = .ok td) :
    ∃ plc, (supported host.unicode plcs)[i]? = some plc ∧ plc.name = td.plcName := by
  obtain ⟨-, -, -, -, -, hroute, -⟩ := horigin
  obtain ⟨hdef, hassembled, -⟩ := startup_eq_ok hstart
  obtain ⟨sender, hsender, rfl⟩ := Option.map_eq_some_iff.mp hroute
  obtain ⟨plc, -, hplc, -, -, c, hc, hid⟩ := hassembled.routed hsender
  have hmem : plc ∈ plcs := List.mem_of_mem_filter (List.mem_of_getElem? hplc)
  obtain ⟨td', htd', hname, -⟩ := hdef.definition plc hmem c hc
  rw [hid, htd] at htd'
  rw [Except.ok.inj htd']
  exact ⟨plc, hplc, hname.symm⟩

/-- For every configuration that starts up, every address space built for it
    and every run after that: a variable reads as a value of its declared type,
    always, unless a text or a time cannot be sent; and a request for its tag
    that a driver holds or has sent was let in by the variable's access level,
    has the declared type, and is with a driver of the PLC in whose folder the
    variable is. -/
theorem declared_types_and_access {host : Host} {plcs : List PlcConfig} {a : Assembly}
    (hstart : startup host plcs = .ok a) (hb : b.Documented)
    (hspace : buildAddressSpace b a.writeHandler.registry = .ok nodes) {s : Sys}
    (hrun : Reaches (step a.writeHandler.driverOf) Sys.Planned (.init a.writeHandler.registry a.drivers) s)
    (hn : n ∈ nodes) (hkind : n.kind = .tagVariable ty access tagId) (ua : Encoding) :
    (∀ dv, TagDataSource.read ua ⟨tagId, s.registry⟩ = .ok dv → dv.value.typeId = some ty) ∧
    (ty ≠ .string → ty ≠ .dateTime → ∃ dv, TagDataSource.read ua ⟨tagId, s.registry⟩ = .ok dv) ∧
    ∀ (i : Nat) (d : Driver), s.drivers[i]? = some d → ∀ req ∈ d.pipeline, req.tagId = tagId →
      access.currentWrite = true ∧ dataTypeNodeid req.value.dataType = ty ∧
      ∃ plc f, (supported host.unicode plcs)[i]? = some plc ∧ f ∈ nodes ∧ f.id = n.parent ∧
        f.browseName = plc.name := by
  have hagreed := agreed_of_reaches hstart hrun
  obtain ⟨td, htd, rfl, rfl, hwrite, f, hf, hparent, hname⟩ :=
    Mirrors.definition (mirrors_of_build hb hspace) hn hkind
  have hlater : s.registry.definitions = a.writeHandler.registry.definitions := by
    refine hrun.invariant
      (I := fun s => s.registry.definitions = a.writeHandler.registry.definitions) rfl ?_
    intro s₁ e s₂ h₁ _ hstep
    obtain ⟨ops, hops⟩ := (Grows.of_moves (moves_of_step hstep)).registry
    rw [hops, TagRegistry.definitions_run]
    exact h₁
  have htd' : s.registry.getDefinition td.id = .ok td := by
    rw [TagRegistry.getDefinition, hlater]
    exact htd
  obtain ⟨htyped, hfound⟩ := read_typed hagreed.sound.consistent ua htd'
  refine ⟨htyped, ?_, ?_⟩
  · intro hstring htime
    exact hfound (dataTypeNodeid_string hstring) (dataTypeNodeid_dateTime htime)
  · intro i d hd req hreq htag
    have horigin := (hagreed.sound.drivers hd).origin req hreq
    obtain ⟨-, -, -, -, -, -, td', htdreq, hwritable, htype⟩ := horigin
    rw [htag, htd'] at htdreq
    obtain rfl := Except.ok.inj htdreq
    rw [← htag] at htd
    obtain ⟨plc, hplc, hplcName⟩ := plcName_of_request hstart
      ((hagreed.sound.drivers hd).origin req hreq) htd
    exact ⟨hwrite.trans hwritable, by rw [htype], plc, f, hplc, hf, hparent, hname.trans hplcName.symm⟩

/-- What is built for the plant. -/
def plantNodes : List Node :=
  (buildAddressSpace countingBackend plant.writeHandler.registry).toOption.getD []

theorem build_plantNodes :
    buildAddressSpace countingBackend plant.writeHandler.registry = .ok plantNodes := by
  have hok : (buildAddressSpace countingBackend plant.writeHandler.registry).toOption.isSome = true := by
    decide +kernel
  rw [plantNodes]
  cases h : buildAddressSpace countingBackend plant.writeHandler.registry with
  | ok nodes => rfl
  | error e =>
      rw [h] at hok
      exact absurd hok (by simp [Except.toOption])

/-- The variable of `Setpoint`, in the second PLC's folder. -/
def setpointNode : Node where
  id := .string 2 "ModbusPLC.Setpoint"
  parent := .numeric 1 2
  browseName := setpointConfig.name
  kind := .tagVariable .uint16 ⟨true, true⟩ setpointConfig.id

theorem declared_types_and_access_plant :
    setpointNode ∈ plantNodes ∧ plantEnd.drivers.map (fun d => d.pipeline.length) = [0, 1] ∧
    (∃ dv, TagDataSource.read Polling.plainEncoding ⟨setpointConfig.id, plantEnd.registry⟩ = .ok dv) ∧
    ∀ (i : Nat) (d : Driver), plantEnd.drivers[i]? = some d → ∀ req ∈ d.pipeline,
      req.tagId = setpointConfig.id → dataTypeNodeid req.value.dataType = .uint16 := by
  have hmem : setpointNode ∈ plantNodes := by
    decide +kernel
  have hlength : plantEnd.drivers.map (fun d => d.pipeline.length) = [0, 1] := by
    decide +kernel
  obtain ⟨-, hread, hwrite⟩ := declared_types_and_access startup_plant documented_countingBackend
    build_plantNodes reaches_plantEnd hmem rfl Polling.plainEncoding
  refine ⟨hmem, hlength, hread (by decide) (by decide), ?_⟩
  intro i d hd req hreq htag
  exact (hwrite i d hd req hreq htag).2.1

end PlcBridge.Bridge
