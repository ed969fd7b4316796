/-
  PlcBridge.Modbus.OrderIndependence

  The read cycle does not depend on the order of the mapping list or of the
  hash map it is grouped in.

  Validated ranges start at different addresses, so sorting gives one list for
  each function whatever order the mappings came in, and with it the same
  groups and chunks.  The order of the functions does not matter because the
  requests of one function do not touch the tags of another.
-/
import PlcBridge.Modbus.Overlap
import PlcBridge.Modbus.Steps

namespace PlcBridge.Modbus

open PlcBridge.Lib

-- ============================================================================
-- The plan
-- ============================================================================

section Plan

variable {order order' : FuncOrder} {mappings mappings' : List ModbusMapping}

/-- Among the mappings of one function, the address determines the mapping. -/
theorem address_injective (hvalid : validate order mappings = .ok ())
    (hspace : ∀ m ∈ mappings, m.address.toNat + m.quantity.toNat ≤ 65535) {m m' : ModbusMapping}
    (hm : m ∈ mappings) (hm' : m' ∈ mappings) (hfunc : m'.function = m.function)
    (haddr : m.address = m'.address) : m = m' := by
  by_contra hne
  have hend : ∀ a ∈ mappings, a.address.toNat ≤ a.rangeEnd.toNat := by
    intro a ha
    have hpos := ((of_validate hvalid).1 a ha).quantity_pos
    have hrange := @toNat_rangeEnd a hpos
    have := hspace a ha
    omega
  have hrange := hend m hm
  have hrange' := hend m' hm'
  rcases before_of_validate hvalid hm hm' hfunc hne with h | h
  · have hlt := UInt16.lt_iff_toNat_lt.mp h
    rw [← haddr] at hlt
    omega
  · have hlt := UInt16.lt_iff_toNat_lt.mp h
    rw [haddr] at hlt
    omega

/-- The requests of one function do not depend on the order of the list. -/
theorem funcRequests_eq_of_perm (hperm : mappings.Perm mappings')
    (hvalid : validate order mappings = .ok ())
    (hspace : ∀ m ∈ mappings, m.address.toNat + m.quantity.toNat ≤ 65535) (func : ModbusFunction) :
    funcRequests mappings func = funcRequests mappings' func := by
  have hfilter : (byFunc mappings func).Perm (byFunc mappings' func) := hperm.filter _
  have hsorted : sortByAddress (byFunc mappings func) = sortByAddress (byFunc mappings' func) := by
    refine List.Perm.eq_of_pairwise ?_ (pairwise_sortByAddress _) (pairwise_sortByAddress _)
      (((perm_sortByAddress _).trans hfilter).trans (perm_sortByAddress _).symm)
    intro a b ha hb hab hba
    obtain ⟨ha, hfa⟩ := mem_byFunc.mp (mem_sortByAddress.mp ha)
    obtain ⟨hb, hfb⟩ := mem_byFunc.mp (hfilter.mem_iff.mpr (mem_sortByAddress.mp hb))
    exact address_injective hvalid hspace ha hb (hfb.trans hfa.symm)
      (UInt16.toNat_inj.mp (le_antisymm hab hba))
  rw [funcRequests, funcRequests, funcGroups, funcGroups, hsorted]

/-- Two iteration orders visit the same functions. -/
theorem FuncOrder.perm (order order' : FuncOrder) : order.list.Perm order'.list := by
  rw [List.perm_ext_iff_of_nodup order.nodup order'.nodup]
  intro f
  simp [order.complete f, order'.complete f]

theorem perm_readPlan (hperm : mappings.Perm mappings') (hvalid : validate order mappings = .ok ())
    (hspace : ∀ m ∈ mappings, m.address.toNat + m.quantity.toNat ≤ 65535) (order' : FuncOrder) :
    (readPlan order mappings).Perm (readPlan order' mappings') := by
  have hfuncs : funcRequests mappings = funcRequests mappings' := by
    funext func
    exact funcRequests_eq_of_perm hperm hvalid hspace func
  rw [readPlan, readPlan, hfuncs]
  exact (order.perm order').flatMap_right _

/-- The plan around the requests of one function; the others do not mention
    its tags. -/
theorem readPlan_around (order : FuncOrder) (hnodup : (mappings.map ModbusMapping.tagId).Nodup)
    {m : ModbusMapping} (hm : m ∈ mappings) :
    ∃ l₁ l₂, readPlan order mappings = l₁ ++ funcRequests mappings m.function ++ l₂ ∧
      (∀ r ∈ l₁, m.tagId ∉ r.ids) ∧ ∀ r ∈ l₂, m.tagId ∉ r.ids := by
  obtain ⟨o₁, o₂, horder⟩ := List.append_of_mem (order.complete m.function)
  have hnd := order.nodup
  rw [horder, List.nodup_append, List.nodup_cons] at hnd
  refine ⟨o₁.flatMap (funcRequests mappings), o₂.flatMap (funcRequests mappings), ?_, ?_, ?_⟩
  · rw [readPlan, horder, List.flatMap_append, List.flatMap_cons, List.append_assoc]
  · intro r hr
    obtain ⟨func, hfunc, hr⟩ := List.mem_flatMap.mp hr
    refine not_mem_ids_of_func_ne hnodup hm ?_ hr
    rintro rfl
    exact hnd.2.2 _ hfunc _ (List.mem_cons_self ..) rfl
  · intro r hr
    obtain ⟨func, hfunc, hr⟩ := List.mem_flatMap.mp hr
    refine not_mem_ids_of_func_ne hnodup hm ?_ hr
    rintro rfl
    exact hnd.2.1.1 hfunc

/-- An id without a mapping is mentioned by no request. -/
theorem not_mem_ids_of_unmapped {id : String} (hid : ∀ m ∈ mappings, m.tagId ≠ id) {r : ReadRequest}
    (hr : r ∈ readPlan order mappings) : id ∉ r.ids := by
  intro hmem
  obtain ⟨g, hg, hr⟩ := mem_readPlan hr
  obtain ⟨m, hm, hmid⟩ := List.mem_map.mp hmem
  rw [(mem_groupRequests hr).2] at hm
  exact hid m (mem_funcGroups_members hg hm).1 hmid

end Plan

-- ============================================================================
-- Two runs that look the same to one tag
-- ============================================================================

/-- Both states have the same definitions and show the same of one tag. -/
structure SameFor (id : String) (d d' : State) : Prop where
  definitions : d.registry.definitions = d'.registry.definitions
  view : d.view id = d'.view id

namespace SameFor

variable {env env' : Env} {id : String} {d d' d'' : State}

theorem refl (id : String) (d : State) : SameFor id d d := ⟨rfl, rfl⟩

theorem symm (h : SameFor id d d') : SameFor id d' d := ⟨h.definitions.symm, h.view.symm⟩

theorem trans (h : SameFor id d d') (h' : SameFor id d' d'') : SameFor id d d'' :=
  ⟨h.definitions.trans h'.definitions, h.view.trans h'.view⟩

theorem dataType? (h : SameFor id d d') (id' : String) : d.dataType? id' = d'.dataType? id' := by
  rw [DriverState.dataType?, DriverState.dataType?, TagRegistry.dataType?, TagRegistry.dataType?,
    h.definitions]

/-- Whatever keeps the definitions and the view of the tag. -/
theorem of_extends (hext : DriverState.Extends d d') (hview : d'.view id = d.view id) :
    SameFor id d d' := by
  obtain ⟨ops, hops⟩ := hext.registry
  exact ⟨by rw [hops, TagRegistry.definitions_run], hview.symm⟩

theorem setTagQuality (h : SameFor id d d') (clock clock' : Nat → DateTime) (id' : String)
    (q : TagQuality) :
    SameFor id (d.setTagQuality clock id' q) (d'.setTagQuality clock' id' q) := by
  refine ⟨h.definitions, ?_⟩
  rw [DriverState.view_setTagQuality, DriverState.view_setTagQuality]
  by_cases hid : id = id'
  · rw [if_pos hid, if_pos hid, ← hid, h.view]
  · rw [if_neg hid, if_neg hid, h.view]

theorem updateTagValue (h : SameFor id d d') (clock clock' : Nat → DateTime) (id' : String)
    (v : TagValue) (q : TagQuality) :
    SameFor id (d.updateTagValue clock id' v q) (d'.updateTagValue clock' id' v q) := by
  refine ⟨?_, ?_⟩
  · rw [(DriverState.sameIo_updateTagValue d id' v q).definitions,
      (DriverState.sameIo_updateTagValue d' id' v q).definitions, h.definitions]
  · rw [DriverState.view_updateTagValue, DriverState.view_updateTagValue, h.dataType? id']
    by_cases hid : id = id' ∧ d'.dataType? id' = some v.dataType
    · rw [if_pos hid, if_pos hid, ← hid.1, h.view]
    · rw [if_neg hid, if_neg hid, h.view]

theorem markAll (h : SameFor id d d') (clock clock' : Nat → DateTime) (ids : List String)
    (q : TagQuality) : SameFor id (d.markAll clock ids q) (d'.markAll clock' ids q) := by
  induction ids generalizing d d' with
  | nil => exact h
  | cons id' ids ih => exact ih (h.setTagQuality clock clock' id' q)

theorem putBack (h : SameFor id d d') (c c' : Option Nat) : SameFor id (d.putBack c) (d'.putBack c') :=
  ⟨h.definitions, h.view⟩

/-- The tag is there in both or in neither. -/
theorem getTag_isOk (h : SameFor id d d') :
    (∃ t, d.registry.getTag id = .ok t) ↔ ∃ t, d'.registry.getTag id = .ok t := by
  have hsome : ∀ s : State, (∃ t, s.registry.getTag id = .ok t) ↔ (s.view id).isSome := by
    intro s
    rw [DriverState.view, Option.isSome_map, Option.isSome_iff_exists]
    simp only [TagRegistry.getTag_eq_ok]
  rw [hsome, hsome, h.view]

/-- Extracting a mapping from the same payload. -/
theorem extractMapping (h : SameFor id d d') (hchrono : env.chrono = env'.chrono) (r : ReadRequest)
    (raw : List UInt8) (m : ModbusMapping) :
    SameFor id (extractMapping env r raw d m) (extractMapping env' r raw d' m) := by
  by_cases hid : id = m.tagId
  · have hdef : d.registry.getDefinition m.tagId = d'.registry.getDefinition m.tagId := by
      rw [TagRegistry.getDefinition, TagRegistry.getDefinition, h.definitions]
    have htag := h.getTag_isOk
    rw [hid] at htag
    rw [Modbus.extractMapping, Modbus.extractMapping, hchrono, hdef]
    simp only
    split
    · exact h
    · split
      · exact h.setTagQuality _ _ _ _
      · split
        · exact h.setTagQuality _ _ _ _
        · cases ht : d.registry.getTag m.tagId with
          | error e =>
              cases ht' : d'.registry.getTag m.tagId with
              | error e' => exact h.setTagQuality _ _ _ _
              | ok t' =>
                  obtain ⟨t, hok⟩ := htag.mpr ⟨t', ht'⟩
                  rw [ht] at hok
                  exact absurd hok (by simp)
          | ok t =>
              obtain ⟨t', ht'⟩ := htag.mp ⟨t, ht⟩
              rw [ht']
              simp only
              split
              · exact h.updateTagValue _ _ _ _ _
              · exact h.setTagQuality _ _ _ _
  · -- Another tag: whatever happens to it, this one is left alone.
    have hleft := of_extends (extends_extractMapping env r raw d m) (view_extractMapping_ne hid)
    have hright := of_extends (extends_extractMapping env' r raw d' m) (view_extractMapping_ne hid)
    exact (hleft.symm.trans h).trans hright

theorem foldl_extract (h : SameFor id d d') (hchrono : env.chrono = env'.chrono) (r : ReadRequest)
    (raw : List UInt8) (ms : List ModbusMapping) :
    SameFor id (ms.foldl (Modbus.extractMapping env r raw) d)
      (ms.foldl (Modbus.extractMapping env' r raw) d') := by
  induction ms generalizing d d' with
  | nil => exact h
  | cons m ms ih => exact ih (h.extractMapping hchrono r raw m)

end SameFor

-- ============================================================================
-- A device that answers by request
-- ============================================================================

/-- The answers depend on function, start and quantity only. -/
def Env.Answers (env : Env) (answer : ModbusFunction → UInt16 → UInt16 → CallResult ReadData) : Prop :=
  ∀ history ctx func start qty, env.read history ctx func start qty = answer func start qty

/-- Data, or an exception that does not end the cycle. -/
def CallResult.GoesOn (result : CallResult ReadData) : Prop :=
  (∃ data, result = .ok data) ∨ ∃ code, result = .exception code ∧ ¬ isFatal code.debug

section Runs

variable {env env' : Env} {answer : ModbusFunction → UInt16 → UInt16 → CallResult ReadData}
  {ctx ctx' : Nat} {id : String} {d d' : State}

theorem readStep_goesOn (hdev : env.Answers answer) (hgoes : ∀ func start qty, (answer func start qty).GoesOn)
    (ctx : Nat) (r : ReadRequest) (d : State) :
    ∃ d₁, readStep env ctx r d = (.ok (), d₁) := by
  obtain ⟨data, -, h⟩ | ⟨err, herr, ⟨-, h⟩ | ⟨hfatal, h⟩ | ⟨-, -, h⟩⟩ := readStep_cases env ctx r d
  · exact ⟨_, h⟩
  · exact ⟨_, h⟩
  · exfalso
    rw [hdev] at herr
    obtain ⟨data, hdata⟩ | ⟨code, hcode, hnot⟩ := hgoes r.func r.start r.qty
    · rw [hdata] at herr
      exact absurd herr (by simp [CallResult.payload])
    · rw [hcode] at herr
      obtain rfl := Except.error.inj herr
      exact hnot hfatal
  · exact ⟨_, h⟩

/-- The same request, answered alike, does the same to the tag. -/
theorem SameFor.readStep (h : SameFor id d d') (hchrono : env.chrono = env'.chrono)
    (hdev : env.Answers answer) (hdev' : env'.Answers answer) (r : ReadRequest) :
    SameFor id (readStep env ctx r d).2 (readStep env' ctx' r d').2 := by
  have hread : env.read d.trace ctx r.func r.start r.qty = answer r.func r.start r.qty := hdev ..
  have hread' : env'.read d'.trace ctx' r.func r.start r.qty = answer r.func r.start r.qty := hdev' ..
  rw [Modbus.readStep, Modbus.readStep]
  simp only [hread, hread']
  have hrec : ∀ x x', SameFor id (d.record x) (d'.record x') := fun x x' => ⟨h.definitions, h.view⟩
  split
  · exact (hrec _ _).foldl_extract hchrono r _ _
  · split
    · exact (hrec _ _).markAll _ _ _ _
    · split
      · exact ((hrec _ _).markAll _ _ _ _).putBack none none
      · exact hrec _ _

theorem SameFor.runReads (h : SameFor id d d') (hchrono : env.chrono = env'.chrono)
    (hdev : env.Answers answer) (hdev' : env'.Answers answer)
    (hgoes : ∀ func start qty, (answer func start qty).GoesOn) (rs : List ReadRequest) :
    SameFor id (runList (Modbus.readStep env ctx) rs d).2
      (runList (Modbus.readStep env' ctx') rs d').2 := by
  induction rs generalizing d d' with
  | nil => exact h
  | cons r rs ih =>
      obtain ⟨d₁, hstep⟩ := readStep_goesOn hdev hgoes ctx r d
      obtain ⟨d₁', hstep'⟩ := readStep_goesOn hdev' hgoes ctx' r d'
      have hsame := @SameFor.readStep env env' answer ctx ctx' id d d' h hchrono hdev hdev' r
      rw [hstep, hstep'] at hsame
      rw [runList_cons_ok hstep, runList_cons_ok hstep']
      exact ih hsame

/-- Requests that do not mention the tag do nothing to it. -/
theorem sameFor_runReads_of_not_mem {rs : List ReadRequest} (hnot : ∀ r ∈ rs, id ∉ r.ids) :
    SameFor id d (runList (Modbus.readStep env ctx) rs d).2 :=
  SameFor.of_extends (extends_runReads env ctx rs d) ((readLoop env ctx).view_run_ne hnot)

/-- All requests are made, in order. -/
theorem runReads_goesOn (hdev : env.Answers answer)
    (hgoes : ∀ func start qty, (answer func start qty).GoesOn) (rs : List ReadRequest) (d : State) :
    ∃ d₁ xs, runList (Modbus.readStep env ctx) rs d = (.ok (), d₁) ∧ d₁.trace = d.trace ++ xs ∧
      xs = rs.map fun r => .read ctx r.func r.start r.qty (answer r.func r.start r.qty) := by
  induction rs generalizing d with
  | nil => exact ⟨d, [], rfl, (List.append_nil _).symm, rfl⟩
  | cons r rs ih =>
      obtain ⟨d₁, hstep⟩ := readStep_goesOn hdev hgoes ctx r d
      have htrace := trace_readStep env ctx r d
      rw [hstep, readExchange, hdev] at htrace
      obtain ⟨d₂, xs, hrun, htail, rfl⟩ := ih d₁
      refine ⟨d₂, _, ?_, ?_, rfl⟩
      · rw [runList_cons_ok hstep, hrun]
      · rw [htail, htrace, List.map_cons, List.append_assoc]
        rfl

/-- The reads of a plan in two orders. -/
theorem SameFor.readPlans {order order' : FuncOrder} {mappings mappings' : List ModbusMapping}
    (hperm : mappings.Perm mappings') (hvalid : validate order mappings = .ok ())
    (hids : (mappings.map ModbusMapping.tagId).Nodup)
    (hspace : ∀ m ∈ mappings, m.address.toNat + m.quantity.toNat ≤ 65535)
    (hchrono : env.chrono = env'.chrono) (hdev : env.Answers answer) (hdev' : env'.Answers answer)
    (hgoes : ∀ func start qty, (answer func start qty).GoesOn) (h : SameFor id d d') :
    SameFor id (runList (Modbus.readStep env ctx) (readPlan order mappings) d).2
      (runList (Modbus.readStep env' ctx') (readPlan order' mappings') d').2 := by
  by_cases hid : ∃ m ∈ mappings, m.tagId = id
  · obtain ⟨m, hm, rfl⟩ := hid
    have hids' : (mappings'.map ModbusMapping.tagId).Nodup := (hperm.map _).nodup_iff.mp hids
    obtain ⟨l₁, l₂, hplan, hl₁, hl₂⟩ := readPlan_around order hids hm
    obtain ⟨l₁', l₂', hplan', hl₁', hl₂'⟩ := readPlan_around order' hids' (hperm.mem_iff.mp hm)
    rw [← funcRequests_eq_of_perm hperm hvalid hspace] at hplan'
    -- Before, at and behind the requests of the tag's function.
    obtain ⟨e₁, -, hrun₁, -⟩ := @runReads_goesOn env answer ctx hdev hgoes l₁ d
    obtain ⟨e₁', -, hrun₁', -⟩ := @runReads_goesOn env' answer ctx' hdev' hgoes l₁' d'
    have hbefore := @sameFor_runReads_of_not_mem env ctx m.tagId d l₁ hl₁
    have hbefore' := @sameFor_runReads_of_not_mem env' ctx' m.tagId d' l₁' hl₁'
    rw [hrun₁] at hbefore
    rw [hrun₁'] at hbefore'
    have hat := @SameFor.runReads env env' answer ctx ctx' m.tagId e₁ e₁'
      ((hbefore.symm.trans h).trans hbefore') hchrono hdev hdev' hgoes (funcRequests mappings m.function)
    obtain ⟨e₂, -, hrun₂, -⟩ := @runReads_goesOn env answer ctx hdev hgoes
      (funcRequests mappings m.function) e₁
    obtain ⟨e₂', -, hrun₂', -⟩ := @runReads_goesOn env' answer ctx' hdev' hgoes
      (funcRequests mappings m.function) e₁'
    rw [hrun₂, hrun₂'] at hat
    have hbehind := @sameFor_runReads_of_not_mem env ctx m.tagId e₂ l₂ hl₂
    have hbehind' := @sameFor_runReads_of_not_mem env' ctx' m.tagId e₂' l₂' hl₂'
    rw [hplan, hplan', List.append_assoc, List.append_assoc, runList_append_ok hrun₁,
      runList_append_ok hrun₁', runList_append_ok hrun₂, runList_append_ok hrun₂']
    exact (hbehind.symm.trans hat).trans hbehind'
  · have hnot : ∀ m ∈ mappings, m.tagId ≠ id := fun m hm heq => hid ⟨m, hm, heq⟩
    have hnot' : ∀ m ∈ mappings', m.tagId ≠ id := fun m hm => hnot m (hperm.mem_iff.mpr hm)
    have hleft := @sameFor_runReads_of_not_mem env ctx id d (readPlan order mappings)
      fun r hr => not_mem_ids_of_unmapped hnot hr
    have hright := @sameFor_runReads_of_not_mem env' ctx' id d' (readPlan order' mappings')
      fun r hr => not_mem_ids_of_unmapped hnot' hr
    exact (hleft.symm.trans h).trans hright

end Runs

-- ============================================================================
-- The cycle
-- ============================================================================

/-- The read requests among some exchanges. -/
def readRequests (xs : List Exchange) : List (ModbusFunction × UInt16 × UInt16) :=
  xs.filterMap fun
    | .read _ func start qty _ => some (func, start, qty)
    | .write .. => none

/-- A cycle without queued writes: its reads go through. -/
theorem runReadCycleImpl_goesOn {env : Env}
    {answer : ModbusFunction → UInt16 → UInt16 → CallResult ReadData} (hdev : env.Answers answer)
    (hgoes : ∀ func start qty, (answer func start qty).GoesOn) (mappings : List ModbusMapping) {d : State}
    (hqueue : d.queue = []) :
    (∀ id, (runReadCycleImpl env mappings d).2.view id =
      (runList (readStep env d.takeOrConnect.1) (readPlan env.order mappings) d.takeOrConnect.2).2.view id) ∧
    readRequests (d.exchanges (runReadCycleImpl env mappings d).2) =
      (readPlan env.order mappings).map fun r => (r.func, r.start, r.qty) := by
  obtain ⟨d₁, xs, hrun, htrace, rfl⟩ := @runReads_goesOn env answer d.takeOrConnect.1 hdev hgoes
    (readPlan env.order mappings) d.takeOrConnect.2
  have hdrain : drainWrites env mappings 64 d = (.ok (), d) := by
    rw [drainWrites, hqueue]
  have hcycle : runReadCycleImpl env mappings d = (.ok (), d₁.putBack (some d.takeOrConnect.1)) := by
    rw [runReadCycleImpl, hdrain]
    simp only
    rw [readPhase]
    simp only [hrun]
  rw [hcycle, hrun]
  refine ⟨fun id => rfl, ?_⟩
  rw [DriverState.trace_takeOrConnect] at htrace
  have hexch : d.exchanges (d₁.putBack (some d.takeOrConnect.1)) = _ := DriverState.exchanges_eq htrace
  rw [hexch, readRequests, List.filterMap_map]
  show List.filterMap (some ∘ fun r : ReadRequest => (r.func, r.start, r.qty)) _ = _
  rw [List.filterMap_eq_map]

/-- Two mapping lists with the same mappings, whatever the order of either list
    and of the hash map, on a device that answers by request: a cycle without
    queued writes makes the same read requests and leaves the same value and
    quality in every tag. -/
theorem read_cycle_order_independent {env env' : Env} {mappings mappings' : List ModbusMapping}
    {answer : ModbusFunction → UInt16 → UInt16 → CallResult ReadData} {d : State}
    (hperm : mappings.Perm mappings') (hvalid : validate env.order mappings = .ok ())
    (hids : (mappings.map ModbusMapping.tagId).Nodup)
    (hspace : ∀ m ∈ mappings, m.address.toNat + m.quantity.toNat ≤ 65535)
    (hchrono : env.chrono = env'.chrono) (hdev : env.Answers answer) (hdev' : env'.Answers answer)
    (hgoes : ∀ func start qty, (answer func start qty).GoesOn) (hqueue : d.queue = []) :
    (readRequests (d.exchanges (runReadCycleImpl env mappings d).2)).Perm
      (readRequests (d.exchanges (runReadCycleImpl env' mappings' d).2)) ∧
    ∀ id, (runReadCycleImpl env mappings d).2.view id =
      (runReadCycleImpl env' mappings' d).2.view id := by
  obtain ⟨hview, hreqs⟩ := runReadCycleImpl_goesOn hdev hgoes mappings hqueue
  obtain ⟨hview', hreqs'⟩ := runReadCycleImpl_goesOn hdev' hgoes mappings' hqueue
  refine ⟨?_, ?_⟩
  · rw [hreqs, hreqs']
    exact (perm_readPlan hperm hvalid hspace env'.order).map _
  · intro id
    rw [hview, hview']
    exact (SameFor.readPlans hperm hvalid hids hspace hchrono hdev hdev' hgoes (SameFor.refl id _)).view

/-- Three mappings of two functions, and a device that refuses one range. -/
def plantMappings : List ModbusMapping :=
  [{ tagId := "flow", dataType := .uint16, address := 0, function := .holdingRegisters },
   { tagId := "alarm", dataType := .bool, address := 0, function := .coils },
   { tagId := "level", dataType := .uint16, address := 7, function := .holdingRegisters }]

def plantDevice (order : FuncOrder) : Env where
  chrono := .rejecting
  clock := fun _ => .unixEpoch
  order := order
  readRegisters := fun _ _ _ start _ =>
    if start = 7 then .exception .illegalDataAddress else .ok [42]
  readBits := fun _ _ _ _ _ => .ok [true]
  writeMultipleRegisters := fun _ _ _ _ => .ok ()

def plantAnswer (func : ModbusFunction) (start qty : UInt16) : CallResult ReadData :=
  (plantDevice .declared).read [] 0 func start qty

def reversedOrder : FuncOrder where
  list := [.inputRegisters, .holdingRegisters, .discreteInputs, .coils]
  nodup := by decide
  complete := by intro f; cases f <;> decide

theorem plantDevice_answers (order : FuncOrder) : (plantDevice order).Answers plantAnswer := by
  intro history ctx func start qty
  cases func <;> rfl

theorem plantAnswer_goesOn (func : ModbusFunction) (start qty : UInt16) :
    (plantAnswer func start qty).GoesOn := by
  have hillegal : ¬ isFatal ExceptionCode.illegalDataAddress.debug := by decide
  by_cases h : start = 7
  · cases func with
    | coils => exact .inl ⟨_, rfl⟩
    | discreteInputs => exact .inl ⟨_, rfl⟩
    | holdingRegisters => exact .inr ⟨.illegalDataAddress, by rw [h]; rfl, hillegal⟩
    | inputRegisters => exact .inr ⟨.illegalDataAddress, by rw [h]; rfl, hillegal⟩
  · left
    cases func <;> simp [plantAnswer, plantDevice, Env.read, CallResult.map, h]

def plantState : State :=
  DriverState.new (TagRegistry.ofDefinitions [.new "flow" "flow" "0" .uint16 "plc",
    .new "alarm" "alarm" "0" .bool "plc", .new "level" "level" "7" .uint16 "plc"]) () []

theorem read_cycle_order_independent_plant :
    (readRequests (plantState.exchanges
        (runReadCycleImpl (plantDevice .declared) plantMappings plantState).2)).Perm
      (readRequests (plantState.exchanges
        (runReadCycleImpl (plantDevice reversedOrder) plantMappings.reverse plantState).2)) ∧
    ∀ id, (runReadCycleImpl (plantDevice .declared) plantMappings plantState).2.view id =
      (runReadCycleImpl (plantDevice reversedOrder) plantMappings.reverse plantState).2.view id :=
  @read_cycle_order_independent (plantDevice .declared) (plantDevice reversedOrder) plantMappings
    plantMappings.reverse plantAnswer plantState (List.reverse_perm plantMappings).symm (by decide)
    (by decide) (by decide) rfl (plantDevice_answers _) (plantDevice_answers _) plantAnswer_goesOn rfl

end PlcBridge.Modbus
