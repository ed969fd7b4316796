/-
  PlcBridge.Bridge.Isolation

  The PLCs do not disturb each other.  All drivers share one registry, and in a
  run their turns come in any order, with write requests and staleness checks
  between them.  Take away everything that does not concern the PLCs of one
  name: what is left is a run again, and in it the drivers of that name send and
  answer the same, and their tags end up the same, as in the whole.
-/
import PlcBridge.Bridge.Agreement
import PlcBridge.Bridge.Confinement

namespace PlcBridge.Bridge

open PlcBridge.Lib PlcBridge.Runtime

-- ============================================================================
-- Drivers
-- ============================================================================

namespace Driver

/-- One driver in two registries that agree on `P`: everything else is the
    same. -/
inductive AgreeOn (P : String → Prop) : Driver → Driver → Prop
  | modbus {env mappings taken d d'} : DriverState.AgreeOn P d d' →
      AgreeOn P (.modbus env mappings taken d) (.modbus env mappings taken d')
  | fins {env drv taken d d'} : DriverState.AgreeOn P d d' →
      AgreeOn P (.fins env drv taken d) (.fins env drv taken d')

/-- The ids of the driver's mappings. -/
def MapsTo (P : String → Prop) (d : Driver) : Prop := ∀ m ∈ d.mapped, P m.id

variable {P : String → Prop} {d d' d₁ : Driver} {r r' : TagRegistry} {t : Turn}

theorem AgreeOn.refl (P : String → Prop) (d : Driver) : AgreeOn P d d := by
  cases d with
  | modbus env mappings taken s => exact .modbus (.mk (.refl P s.registry))
  | fins env drv taken s => exact .fins (.mk (.refl P s.registry))

theorem AgreeOn.registry (h : AgreeOn P d d') : TagRegistry.AgreeOn P d.registry d'.registry := by
  cases h with
  | modbus h => exact h.registry
  | fins h => exact h.registry

theorem AgreeOn.enqueue (h : AgreeOn P d d') (req : WriteRequest) :
    AgreeOn P (d.enqueue req) (d'.enqueue req) := by
  cases h with
  | modbus h =>
      cases h with
      | mk h => exact .modbus (.mk h)
  | fins h =>
      cases h with
      | mk h => exact .fins (.mk h)

theorem AgreeOn.planned (h : AgreeOn P d d') (hplan : d.Planned t) : d'.Planned t := by
  cases h with
  | modbus h => cases t <;> exact hplan
  | fins h => cases t <;> exact hplan

/-- A turn starts from the shared registry, whatever the driver last saw of
    it. -/
theorem agreeOn_withRegistry {ξ σ : Type} {d d' : DriverState ξ σ} (h : DriverState.AgreeOn P d d')
    (hr : r.AgreeOn P r') :
    DriverState.AgreeOn P { d with registry := r } { d' with registry := r' } := by
  cases h with
  | mk h => exact .mk hr

/-- Reads are for mapped ids. -/
theorem mapsTo_readPlan {env : Modbus.Env} {mappings : List Modbus.ModbusMapping}
    {taken : Option WriteRequest} {s : Modbus.State} (hmaps : (Driver.modbus env mappings taken s).MapsTo P)
    {q : Modbus.ReadRequest} (hq : q ∈ Modbus.readPlan env.order mappings) : ∀ m ∈ q.members, P m.tagId := by
  intro m hm
  obtain ⟨g, hg, hqg⟩ := Modbus.mem_readPlan hq
  rw [(Modbus.mem_groupRequests hqg).2] at hm
  exact hmaps _ (List.mem_map_of_mem (Modbus.mem_funcGroups_members hg hm).1)

theorem AgreeOn.turn (h : AgreeOn P d d') (hr : r.AgreeOn P r') (hmaps : d.MapsTo P) (hown : d.PlansOwn)
    (hplan : d.Planned t) (hturn : d.turn r t = some d₁) :
    ∃ d₁', d'.turn r' t = some d₁' ∧ AgreeOn P d₁ d₁' := by
  cases turned_of_turn hturn with
  | @modbusTake env mappings req rest s hqueue =>
      cases h with
      | modbus h =>
          cases h with
          | mk h =>
              refine ⟨.modbus env mappings (some req) { s with registry := r', queue := rest }, ?_,
                .modbus (.mk hr)⟩
              simp only [Driver.turn, hqueue]
  | @modbusWrite env mappings req s =>
      cases h with
      | modbus h =>
          have hms : ∀ m ∈ mappings, P m.tagId := fun m hm => hmaps _ (List.mem_map_of_mem hm)
          exact ⟨_, rfl, .modbus (Modbus.agreeOn_processWrite env req hms (agreeOn_withRegistry h hr))⟩
  | @modbusRead env mappings ctx q s =>
      cases h with
      | modbus h =>
          exact ⟨_, rfl, .modbus (Modbus.agreeOn_readStep env ctx (mapsTo_readPlan hmaps hplan)
            (agreeOn_withRegistry h hr))⟩
  | modbusConnect =>
      cases h with
      | modbus h => exact ⟨_, rfl, .modbus (agreeOn_withRegistry h hr).takeOrConnect.2⟩
  | modbusPutBack =>
      cases h with
      | modbus h => exact ⟨_, rfl, .modbus ((agreeOn_withRegistry h hr).putBack _)⟩
  | @finsTake env drv req rest s hqueue =>
      cases h with
      | fins h =>
          cases h with
          | mk h =>
              refine ⟨.fins env drv (some req) { s with registry := r', queue := rest }, ?_,
                .fins (.mk hr)⟩
              simp only [Driver.turn, hqueue]
  | @finsWrite env drv req s =>
      cases h with
      | fins h =>
          have hms : ∀ m ∈ drv.mappings, P m.tagId := fun m hm => hmaps _ (List.mem_map_of_mem hm)
          exact ⟨_, rfl, .fins (Fins.agreeOn_processWrite env req hms (agreeOn_withRegistry h hr))⟩
  | @finsRead env drv g s =>
      cases h with
      | fins h =>
          have hg : ∀ m ∈ g.mappings, P m.tagId :=
            fun m hm => hmaps _ (List.mem_map_of_mem (hown g hplan m hm))
          exact ⟨_, rfl, .fins (Fins.agreeOn_readStep env hg (agreeOn_withRegistry h hr))⟩
  | finsConnect =>
      cases h with
      | fins h => exact ⟨_, rfl, .fins (agreeOn_withRegistry h hr).takeOrConnect.2⟩
  | finsPutBack =>
      cases h with
      | fins h => exact ⟨_, rfl, .fins ((agreeOn_withRegistry h hr).putBack _)⟩

/-- A turn changes tags of the driver's mappings only. -/
theorem touchesOnly_turn (hmaps : d.MapsTo P) (hown : d.PlansOwn) (hplan : d.Planned t)
    (hturn : d.turn r t = some d') : TagRegistry.AgreeOn (fun id => ¬ P id) r d'.registry := by
  cases turned_of_turn hturn with
  | modbusTake _ => exact .refl _ r
  | @modbusWrite env mappings req s =>
      have hms : ∀ m ∈ mappings, P m.tagId := fun m hm => hmaps _ (List.mem_map_of_mem hm)
      exact Modbus.touchesOnly_processWrite env req hms { s with registry := r }
  | @modbusRead env mappings ctx q s =>
      exact Modbus.touchesOnly_readStep env ctx (mapsTo_readPlan hmaps hplan) { s with registry := r }
  | @modbusConnect env mappings s =>
      have hsame := { s with registry := r }.registry_takeOrConnect
      rw [Driver.registry, hsame]
      exact .refl _ r
  | modbusPutBack => exact .refl _ r
  | finsTake _ => exact .refl _ r
  | @finsWrite env drv req s =>
      have hms : ∀ m ∈ drv.mappings, P m.tagId := fun m hm => hmaps _ (List.mem_map_of_mem hm)
      exact Fins.touchesOnly_processWrite env req hms { s with registry := r }
  | @finsRead env drv g s =>
      have hg : ∀ m ∈ g.mappings, P m.tagId :=
        fun m hm => hmaps _ (List.mem_map_of_mem (hown g hplan m hm))
      exact Fins.touchesOnly_readStep env hg { s with registry := r }
  | @finsConnect env drv s =>
      have hsame := { s with registry := r }.registry_takeOrConnect
      rw [Driver.registry, hsame]
      exact .refl _ r
  | finsPutBack => exact .refl _ r

end Driver

-- ============================================================================
-- Whose tag, whose event
-- ============================================================================

/-- The tag is defined for a PLC of that name. -/
def OwnedBy (r : TagRegistry) (name id : String) : Prop :=
  ∃ td, r.getDefinition id = .ok td ∧ td.plcName = name

theorem OwnedBy.unique {r : TagRegistry} {name name' id : String} (h : OwnedBy r name id)
    (h' : OwnedBy r name' id) : name = name' := by
  obtain ⟨td, htd, rfl⟩ := h
  obtain ⟨td', htd', rfl⟩ := h'
  rw [htd] at htd'
  rw [Except.ok.inj htd']

theorem ownedBy_of_mem {r : TagRegistry} {td : TagDefinition} (h : td ∈ r.allDefinitionsSorted) :
    OwnedBy r td.plcName td.id :=
  ⟨td, TagDefinitionStore.mem_allDefinitionsSorted.mp h, rfl⟩

/-- The name of the PLC that driver `i` serves. -/
def plcNameOf (u : Unicode) (plcs : List PlcConfig) (i : Nat) : Option String :=
  (supported u plcs)[i]?.map PlcConfig.name

namespace Polling

/-- The event concerns the PLCs of that name. -/
def Event.Concerns (names : Nat → Option String) (name : String) : Event → Prop
  | .turn i _ => names i = some name
  | .arrive i _ => names i = some name
  | .check plcName _ => plcName = name

instance (names : Nat → Option String) (name : String) : DecidablePred (Event.Concerns names name)
  | .turn i _ => inferInstanceAs (Decidable (names i = some name))
  | .arrive i _ => inferInstanceAs (Decidable (names i = some name))
  | .check plcName _ => inferInstanceAs (Decidable (plcName = name))

variable {names : Nat → Option String} {name : String} {r₀ : TagRegistry} {s s' t : Polling} {e : Event}

/-- Every driver keeps to the tags of the PLC it serves; definitions are as
    they were. -/
structure Housed (names : Nat → Option String) (r₀ : TagRegistry) (s : Polling) : Prop where
  definitions : s.registry.definitions = r₀.definitions
  drivers : ∀ {i : Nat} {d : Driver}, s.drivers[i]? = some d →
    d.PlansOwn ∧ ∃ name, names i = some name ∧ d.MapsTo (OwnedBy r₀ name)

/-- States that look the same from the PLCs of a name. -/
structure Alike (names : Nat → Option String) (r₀ : TagRegistry) (name : String) (s t : Polling) : Prop where
  registry : s.registry.AgreeOn (OwnedBy r₀ name) t.registry
  drivers : ∀ i, names i = some name →
    Option.Rel (Driver.AgreeOn (OwnedBy r₀ name)) s.drivers[i]? t.drivers[i]?

theorem Alike.refl (s : Polling) : Alike names r₀ name s s where
  registry := .refl _ _
  drivers := by
    intro i _
    cases s.drivers[i]? with
    | none => exact .none
    | some d => exact .some (.refl _ d)

/-- The definitions of a PLC's tags are its own. -/
theorem Housed.owned (h : Housed names r₀ s) {plcName : String} :
    ∀ td ∈ s.registry.allDefinitionsSorted, td.plcName = plcName → OwnedBy r₀ plcName td.id := by
  intro td htd hname
  rw [← hname]
  refine ownedBy_of_mem ?_
  rw [TagRegistry.allDefinitionsSorted, ← h.definitions]
  exact htd

/-- What a step can do to one driver. -/
theorem Housed.set (h : Housed names r₀ s) {i : Nat} {d d' : Driver} (hd : s.drivers[i]? = some d)
    (hsame : d.SameInstance d') {r : TagRegistry} (hr : r.definitions = r₀.definitions) :
    Housed names r₀ ⟨r, s.drivers.set i d'⟩ where
  definitions := hr
  drivers := by
    intro j d₁ hj
    rcases getElem?_set_cases hd hj with ⟨rfl, rfl⟩ | hj
    · obtain ⟨hown, name, hname, hmaps⟩ := h.drivers hd
      refine ⟨hsame.plansOwn hown, name, hname, ?_⟩
      rw [Driver.MapsTo, hsame.mapped]
      exact hmaps
    · exact h.drivers hj

theorem Housed.step (h : Housed names r₀ s) (hplan : s.Planned e) (hstep : s.step e = some s') :
    Housed names r₀ s' := by
  cases e with
  | turn i t =>
      obtain ⟨d, hd, hmap⟩ := Option.bind_eq_some_iff.mp hstep
      obtain ⟨d', hturn, rfl⟩ := Option.map_eq_some_iff.mp hmap
      obtain ⟨hown, name, -, hmaps⟩ := h.drivers hd
      have hdefs := (Driver.touchesOnly_turn hmaps hown (hplan d hd) hturn).definitions
      exact h.set hd (Driver.sameInstance_turn hturn) (hdefs.trans h.definitions)
  | arrive i req =>
      obtain ⟨d, hd, rfl⟩ := Option.map_eq_some_iff.mp hstep
      exact h.set hd (d.sameInstance_enqueue req) h.definitions
  | check plcName now =>
      obtain rfl := Option.some.inj hstep
      exact ⟨(Runtime.touchesOnly_checkStaleTags now h.owned).definitions.trans h.definitions, h.drivers⟩

/-- Tags of one name are not of another. -/
theorem ownedBy_of_ne {name' : String} (hne : name' ≠ name) {r r' : TagRegistry}
    (h : r.AgreeOn (fun id => ¬ OwnedBy r₀ name' id) r') : r.AgreeOn (OwnedBy r₀ name) r' :=
  h.mono fun _ hid hid' => hne (hid'.unique hid)

/-- What does not concern the name leaves its tags and drivers. -/
theorem alike_hidden (hs : Housed names r₀ s) (h : Alike names r₀ name s t) (hplan : s.Planned e)
    (hhidden : ¬ e.Concerns names name) (hstep : s.step e = some s') : Alike names r₀ name s' t := by
  have hother : ∀ {i : Nat} {d : Driver} (r : TagRegistry), names i ≠ some name → ∀ j, names j = some name →
      (Polling.mk r (s.drivers.set i d)).drivers[j]? = s.drivers[j]? := by
    intro i d r hi j hj
    refine List.getElem?_set_ne ?_
    rintro rfl
    exact hi hj
  cases e with
  | turn i t =>
      obtain ⟨d, hd, hmap⟩ := Option.bind_eq_some_iff.mp hstep
      obtain ⟨d', hturn, rfl⟩ := Option.map_eq_some_iff.mp hmap
      obtain ⟨hown, name', hname', hmaps⟩ := hs.drivers hd
      have hne : name' ≠ name := by
        rintro rfl
        exact hhidden hname'
      refine ⟨?_, ?_⟩
      · exact (ownedBy_of_ne hne (Driver.touchesOnly_turn hmaps hown (hplan d hd) hturn)).symm.trans
          h.registry
      · intro j hj
        rw [hother _ hhidden j hj]
        exact h.drivers j hj
  | arrive i req =>
      obtain ⟨d, hd, rfl⟩ := Option.map_eq_some_iff.mp hstep
      refine ⟨h.registry, ?_⟩
      intro j hj
      rw [hother _ hhidden j hj]
      exact h.drivers j hj
  | check plcName now =>
      obtain rfl := Option.some.inj hstep
      exact ⟨(ownedBy_of_ne hhidden (Runtime.touchesOnly_checkStaleTags now hs.owned)).symm.trans h.registry,
        h.drivers⟩

/-- Replace one driver on both sides. -/
theorem Alike.set (h : Alike names r₀ name s t) {i : Nat} {d d' d₁ d₁' : Driver}
    (hd : s.drivers[i]? = some d) (hd' : t.drivers[i]? = some d')
    (hagree : Driver.AgreeOn (OwnedBy r₀ name) d₁ d₁') {r r' : TagRegistry}
    (hr : r.AgreeOn (OwnedBy r₀ name) r') :
    Alike names r₀ name ⟨r, s.drivers.set i d₁⟩ ⟨r', t.drivers.set i d₁'⟩ where
  registry := hr
  drivers := by
    intro j hj
    by_cases hij : i = j
    · subst hij
      simp only [List.getElem?_set_self (List.getElem?_eq_some_iff.mp hd).1,
        List.getElem?_set_self (List.getElem?_eq_some_iff.mp hd').1]
      exact .some hagree
    · simp only [List.getElem?_set_ne hij]
      exact h.drivers j hj

theorem Alike.driver (h : Alike names r₀ name s t) {i : Nat} (hi : names i = some name) {d : Driver}
    (hd : s.drivers[i]? = some d) :
    ∃ d', t.drivers[i]? = some d' ∧ Driver.AgreeOn (OwnedBy r₀ name) d d' := by
  have hrel := h.drivers i hi
  rw [hd] at hrel
  generalize hd' : t.drivers[i]? = o at hrel
  cases hrel with
  | some hagree => exact ⟨_, rfl, hagree⟩

/-- What concerns the name happens in both, and to the same effect. -/
theorem alike_shown (hs : Housed names r₀ s) (h : Alike names r₀ name s t) (hplan : s.Planned e)
    (hshown : e.Concerns names name) (hstep : s.step e = some s') :
    ∃ t', t.Planned e ∧ t.step e = some t' ∧ Alike names r₀ name s' t' := by
  cases e with
  | turn i turn =>
      obtain ⟨d, hd, hmap⟩ := Option.bind_eq_some_iff.mp hstep
      obtain ⟨d₁, hturn, rfl⟩ := Option.map_eq_some_iff.mp hmap
      obtain ⟨d', hd', hagree⟩ := h.driver hshown hd
      obtain ⟨hown, name', hname', hmaps⟩ := hs.drivers hd
      obtain rfl : name' = name := Option.some.inj (hname'.symm.trans hshown)
      obtain ⟨d₁', hturn', hagree'⟩ := hagree.turn h.registry hmaps hown (hplan d hd) hturn
      refine ⟨⟨d₁'.registry, t.drivers.set i d₁'⟩, ?_, ?_, h.set hd hd' hagree' hagree'.registry⟩
      · intro x hx
        rw [Option.mem_def, hd'] at hx
        obtain rfl := Option.some.inj hx
        exact hagree.planned (hplan d hd)
      · simp only [Polling.step, hd', Option.bind_some, hturn', Option.map_some]
  | arrive i req =>
      obtain ⟨d, hd, rfl⟩ := Option.map_eq_some_iff.mp hstep
      obtain ⟨d', hd', hagree⟩ := h.driver hshown hd
      refine ⟨⟨t.registry, t.drivers.set i (d'.enqueue req)⟩, trivial, ?_,
        h.set hd hd' (hagree.enqueue req) h.registry⟩
      simp only [Polling.step, hd', Option.map_some]
  | check plcName now =>
      obtain rfl := Option.some.inj hstep
      have hdefs : ∀ td ∈ s.registry.allDefinitionsSorted, td.plcName = plcName → OwnedBy r₀ name td.id := by
        intro td htd hname
        rw [← (show plcName = name from hshown)]
        exact hs.owned td htd hname
      exact ⟨_, trivial, rfl, Runtime.agreeOn_checkStaleTags now hdefs h.registry, h.drivers⟩

theorem unwinding (names : Nat → Option String) (r₀ : TagRegistry) (name : String) :
    Unwinding step Planned (Event.Concerns names name) (Housed names r₀) (Alike names r₀ name) where
  keeps := fun hs hplan hstep => hs.step hplan hstep
  hidden := fun hs h hplan hhidden hstep => alike_hidden hs h hplan hhidden hstep
  shown := fun hs _ h hplan hshown hstep => alike_shown hs h hplan hshown hstep

-- ============================================================================
-- After startup
-- ============================================================================

theorem housed_startup {host : Host} {plcs : List PlcConfig} {a : Assembly}
    (h : startup host plcs = .ok a) :
    Housed (plcNameOf host.unicode plcs) a.writeHandler.registry ⟨a.writeHandler.registry, a.drivers⟩ := by
  obtain ⟨hdef, hassembled, -⟩ := startup_eq_ok h
  refine ⟨rfl, ?_⟩
  intro i d hd
  obtain ⟨plc, hplc, hmem, hserves⟩ := hassembled.serves hd
  refine ⟨hserves.plan, plc.name, ?_, ?_⟩
  · rw [plcNameOf, hplc]
    rfl
  · intro m hm
    obtain ⟨t, ht, hfrom⟩ := hserves.exists_tag hm
    obtain ⟨td, htd, hname, -⟩ := hdef.definition plc hmem t ht
    exact ⟨td, by rw [hfrom.id]; exact htd, hname⟩

/-- After every startup, and for every run of the drivers, of the arrival of
    write requests and of the staleness checks: the events that concern the PLCs
    of one name are a run by themselves, after which the drivers of these PLCs
    are in the same state, but for their view of other tags, and every one of
    their tags is the same. -/
theorem plcs_isolated {host : Host} {plcs : List PlcConfig} {a : Assembly}
    (hstart : startup host plcs = .ok a) {es : List Event} {s : Polling}
    (hrun : runEvents step Planned es ⟨a.writeHandler.registry, a.drivers⟩ = some s) (name : String) :
    ∃ t, runEvents step Planned (es.filter fun e => e.Concerns (plcNameOf host.unicode plcs) name)
        ⟨a.writeHandler.registry, a.drivers⟩ = some t ∧
      (∀ plc ∈ plcs, plc.name = name → ∀ c ∈ plc.tags, t.registry.tag? c.id = s.registry.tag? c.id) ∧
      ∀ (i : Nat) (d : Driver), plcNameOf host.unicode plcs i = some name → s.drivers[i]? = some d →
        ∃ d', t.drivers[i]? = some d' ∧
          Driver.AgreeOn (OwnedBy a.writeHandler.registry name) d d' := by
  have hhoused := housed_startup hstart
  obtain ⟨t, hrun', halike⟩ := (unwinding _ _ name).purge hhoused hhoused (.refl _) hrun
  refine ⟨t, hrun', ?_, fun i d hi hd => halike.driver hi hd⟩
  intro plc hplc hname c hc
  obtain ⟨td, htd, hplcName, -⟩ := (startup_eq_ok hstart).1.definition plc hplc c hc
  exact halike.registry.tags c.id ⟨td, htd, hplcName.trans hname⟩

/-- Both PLCs of the plant are polled; the Omron one cannot be reached. -/
def plantPolls : List Event :=
  [.turn 0 (.readGroup ⟨0x82, 100, 1, [⟨motorSpeedConfig.id, 0x82, 100, 0, 1, true, .ABCD, .uint16⟩]⟩),
   .arrive 1 ⟨setpointConfig.id, .uint16 70, none⟩, .turn 1 .take, .check "OmronPLC" .unixEpoch,
   .turn 1 .write]

def plantPolled : Polling :=
  (runEvents step Planned plantPolls ⟨plant.writeHandler.registry, plant.drivers⟩).getD
    ⟨plant.writeHandler.registry, []⟩

theorem plcs_isolated_plant :
    (plantPolls.filter fun e => e.Concerns (plcNameOf .basic plantConfig) "ModbusPLC").length = 3 ∧
    ∃ t, runEvents step Planned
        (plantPolls.filter fun e => e.Concerns (plcNameOf .basic plantConfig) "ModbusPLC")
        ⟨plant.writeHandler.registry, plant.drivers⟩ = some t ∧
      (∀ plc ∈ plantConfig, plc.name = "ModbusPLC" → ∀ c ∈ plc.tags,
        t.registry.tag? c.id = plantPolled.registry.tag? c.id) ∧
      ∀ (i : Nat) (d : Driver), plcNameOf .basic plantConfig i = some "ModbusPLC" →
        plantPolled.drivers[i]? = some d →
        ∃ d', t.drivers[i]? = some d' ∧
          Driver.AgreeOn (OwnedBy plant.writeHandler.registry "ModbusPLC") d d' := by
  have hlen : (plantPolls.filter fun e =>
      e.Concerns (plcNameOf .basic plantConfig) "ModbusPLC").length = 3 := by
    decide +kernel
  have hok : (runEvents step Planned plantPolls ⟨plant.writeHandler.registry, plant.drivers⟩).isSome = true := by
    decide +kernel
  have hrun : runEvents step Planned plantPolls ⟨plant.writeHandler.registry, plant.drivers⟩ =
      some plantPolled := (Option.getD_of_ne_none (Option.isSome_iff_ne_none.mp hok) _).symm
  exact ⟨hlen, plcs_isolated startup_plant hrun "ModbusPLC"⟩

end Polling

end PlcBridge.Bridge
