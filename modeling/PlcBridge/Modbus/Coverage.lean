/-
  PlcBridge.Modbus.Coverage

  Which addresses a Modbus cycle reads.  A cycle that is not ended early makes
  exactly the requests of its plan, and the plan tiles the mapped addresses of
  each function.
-/
import PlcBridge.Modbus.BitReads
import PlcBridge.Modbus.OrderIndependence

namespace PlcBridge.Modbus

open PlcBridge.Lib
open PlcBridge.DriverState (Extends AllNew)

-- ============================================================================
-- The requests of a cycle
-- ============================================================================

theorem readRequests_append (xs ys : List Exchange) :
    readRequests (xs ++ ys) = readRequests xs ++ readRequests ys := List.filterMap_append

/-- A run that is not ended early makes all its requests, in order. -/
theorem readRequests_runReads {env : Env} {ctx : Nat} {rs : List ReadRequest} {d d' : State}
    (h : runList (readStep env ctx) rs d = (.ok (), d')) :
    ∃ xs, d'.trace = d.trace ++ xs ∧ readRequests xs = rs.map fun r => (r.func, r.start, r.qty) := by
  induction rs generalizing d with
  | nil =>
      obtain rfl := congrArg Prod.snd h
      exact ⟨[], (List.append_nil _).symm, rfl⟩
  | cons r rs ih =>
      have htrace := trace_readStep env ctx r d
      rcases except_cases (readStep env ctx r d) with ⟨d₁, hok⟩ | ⟨e, d₁, herr⟩
      · rw [hok] at htrace
        rw [runList_cons_ok hok] at h
        obtain ⟨xs, htail, hreqs⟩ := ih h
        refine ⟨readExchange env ctx r d :: xs, ?_, ?_⟩
        · rw [htail, htrace, List.append_assoc]
          rfl
        · rw [List.map_cons, ← hreqs]
          rfl
      · rw [runList_cons_error herr] at h
        exact absurd (congrArg Prod.fst h) (by simp)

theorem readRequests_drainWrites (env : Env) (mappings : List ModbusMapping) (n : Nat) (d : State) :
    ∃ xs, (drainWrites env mappings n d).2.trace = d.trace ++ xs ∧ readRequests xs = [] := by
  have hext := extends_drainWrites env mappings n d
  have hwrites := @allNew_drainWrites env (fun x => readRequests [x] = [])
    (fun _ _ _ _ _ => rfl) n d mappings
  refine ⟨_, DriverState.trace_eq_append_exchanges hext, ?_⟩
  rw [DriverState.allNew_iff hext] at hwrites
  generalize d.exchanges (drainWrites env mappings n d).2 = xs at hwrites
  induction xs with
  | nil => rfl
  | cons x xs ih =>
      rw [← List.singleton_append, readRequests_append, hwrites x (List.mem_cons_self ..),
        ih fun y hy => hwrites y (List.mem_cons_of_mem x hy)]
      rfl

/-- A cycle that returns `Ok(())` reads its plan. -/
theorem readRequests_of_ok {env : Env} {mappings : List ModbusMapping} {d d' : State}
    (h : runReadCycleImpl env mappings d = (.ok (), d')) :
    readRequests (d.exchanges d') =
      (readPlan env.order mappings).map fun r => (r.func, r.start, r.qty) := by
  rw [runReadCycleImpl] at h
  obtain ⟨ws, hws, hnone⟩ := readRequests_drainWrites env mappings 64 d
  rcases except_cases (drainWrites env mappings 64 d) with ⟨d₁, hdrain⟩ | ⟨e, d₁, hdrain⟩
  · rw [hdrain] at h hws
    simp only [readPhase] at h
    rcases except_cases (runList (readStep env d₁.takeOrConnect.1) (readPlan env.order mappings)
      d₁.takeOrConnect.2) with ⟨d₂, hrun⟩ | ⟨e, d₂, hrun⟩
    · rw [hrun] at h
      obtain rfl := congrArg Prod.snd h
      obtain ⟨xs, hxs, hreqs⟩ := readRequests_runReads hrun
      rw [DriverState.trace_takeOrConnect, hws, List.append_assoc] at hxs
      have hexch : d.exchanges (d₂.putBack (some d₁.takeOrConnect.1)) = ws ++ xs :=
        DriverState.exchanges_eq hxs
      rw [hexch, readRequests_append, hnone, hreqs]
      rfl
    · rw [hrun] at h
      exact absurd (congrArg Prod.fst h) (by simp)
  · rw [hdrain] at h
    exact absurd (congrArg Prod.fst h) (by simp)

/-- A cycle that gets to its reads and is answered is not ended early. -/
theorem cycle_ok_of_answered {env : Env} {mappings : List ModbusMapping} {d : State}
    {data : ModbusFunction → UInt16 → UInt16 → ReadData} (hw : WritesGoThrough env mappings d)
    (hans : AllNew (Answered data) d (runReadCycleImpl env mappings d).2) :
    ∃ d', runReadCycleImpl env mappings d = (.ok (), d') := by
  obtain ⟨d₁, hdrain⟩ := hw
  have hext := extends_drainWrites env mappings 64 d
  rw [hdrain] at hext
  rw [runReadCycleImpl, hdrain] at hans ⊢
  have hreads := (AllNew.split hext (extends_readPhase env mappings d₁) hans).2
  simp only [readPhase] at hreads ⊢
  rcases except_cases (runList (readStep env d₁.takeOrConnect.1) (readPlan env.order mappings)
    d₁.takeOrConnect.2) with ⟨d₂, hrun⟩ | ⟨e, d₂, hrun⟩
  · rw [hrun]
    exact ⟨_, rfl⟩
  · rw [hrun] at hreads
    have hnew : AllNew (Answered data) d₁.takeOrConnect.2 (runList (readStep env d₁.takeOrConnect.1)
        (readPlan env.order mappings) d₁.takeOrConnect.2).2 := by
      rw [hrun]
      intro xs hxs
      exact hreads xs (by rw [hxs, DriverState.trace_takeOrConnect])
    obtain ⟨d₃, hok⟩ := runReads_answered hnew
    rw [hrun] at hok
    exact absurd (congrArg Prod.fst hok) (by simp)

-- ============================================================================
-- The addresses they read
-- ============================================================================

/-- Start and quantity of the read requests of one function. -/
def requestSpans (func : ModbusFunction) (reqs : List (ModbusFunction × UInt16 × UInt16)) :
    List (Nat × Nat) :=
  (reqs.filter fun q => q.1 = func).map fun q => (q.2.1.toNat, q.2.2.toNat)

theorem func_of_mem_funcRequests {mappings : List ModbusMapping} {func : ModbusFunction}
    {r : ReadRequest} (hr : r ∈ funcRequests mappings func) : r.func = func := by
  obtain ⟨g, -, hr⟩ := List.mem_flatMap.mp hr
  exact (mem_groupRequests hr).1

/-- The requests of one function among those of the plan. -/
theorem requestSpans_readPlan (order : FuncOrder) (mappings : List ModbusMapping)
    (func : ModbusFunction) :
    requestSpans func ((readPlan order mappings).map fun r => (r.func, r.start, r.qty)) =
      (funcRequests mappings func).map ReadRequest.span := by
  have hfilter : (readPlan order mappings).filter (fun r => r.func = func) =
      funcRequests mappings func :=
    filter_flatMap_of_key order.nodup (order.complete func)
      fun _ _ => func_of_mem_funcRequests
  rw [requestSpans, List.filter_map, List.map_map, ← hfilter]
  rfl

/-- The requests of one function tile its mapped addresses. -/
theorem funcRequests_spans {mappings : List ModbusMapping} (hspace : ∀ m ∈ mappings, m.InSpace)
    (func : ModbusFunction) :
    (funcRequests mappings func).map ReadRequest.span =
      tiles ModbusMapping.lo ModbusMapping.len (maxAllowed func).toNat
        (sortByAddress (byFunc mappings func)) := by
  obtain ⟨hgroups, hblocks⟩ := funcGroups_toBlock hspace func
  rw [tiles, ← hblocks, funcRequests, List.map_flatMap, List.flatMap_map]
  apply List.flatMap_congr
  intro g hg
  exact groupRequests_spans (hgroups g hg)

theorem maxAllowed_register {func : ModbusFunction} (h : func.isRegister) :
    (maxAllowed func).toNat = 125 := by
  rcases h with rfl | rfl <;> rfl

/-- The reads of a cycle that is not ended early: each is within the protocol's
    limit, those of one function ascend without overlap, and together they
    cover exactly the mapped addresses. -/
theorem reads_cover_mapped {env : Env} {vorder : FuncOrder} {mappings : List ModbusMapping}
    {d d' : State} (hvalid : validate vorder mappings = .ok ())
    (hspace : ∀ m ∈ mappings, m.address.toNat + m.quantity.toNat ≤ 65535)
    (hcycle : runReadCycleImpl env mappings d = (.ok (), d')) (func : ModbusFunction) :
    (∀ c ∈ requestSpans func (readRequests (d.exchanges d')),
      1 ≤ c.2 ∧ (func.isRegister → c.2 ≤ 125) ∧ (func.isBit → c.2 ≤ 2000)) ∧
    (requestSpans func (readRequests (d.exchanges d'))).Pairwise
      (fun c c' => c.1 < c'.1 ∧ c.1 + c.2 ≤ c'.1) ∧
    ∀ x, InSpans (requestSpans func (readRequests (d.exchanges d'))) x ↔
      ∃ m ∈ mappings, m.function = func ∧ m.address.toNat ≤ x ∧
        x < m.address.toNat + m.quantity.toNat := by
  have hin : ∀ m ∈ mappings, m.InSpace := fun m hm =>
    ⟨((of_validate hvalid).1 m hm).quantity_pos, hspace m hm⟩
  have hcap := maxAllowed_pos func
  have hsorted := sorted_byFunc mappings func
  rw [readRequests_of_ok hcycle, requestSpans_readPlan, funcRequests_spans hin]
  refine ⟨?_, ?_, ?_⟩
  · intro c hc
    obtain ⟨hpos, hle⟩ := tile_bounds hcap hc
    refine ⟨hpos, ?_, ?_⟩
    · intro hfunc
      rwa [maxAllowed_register hfunc] at hle
    · intro hfunc
      rwa [maxAllowed_bit hfunc] at hle
  · apply (tiles_ascending hcap hsorted).imp_of_mem
    intro c c' hc _ hle
    have hpos := (tile_bounds hcap hc).1
    exact ⟨by omega, hle⟩
  · intro x
    rw [inSpans_tiles hcap hsorted]
    simp only [Covers, mem_sortByAddress, mem_byFunc, and_assoc]
    rfl

/-- Three mappings of two functions on a device that refuses one range. -/
theorem reads_cover_mapped_plant :
    (requestSpans .holdingRegisters (readRequests (plantState.exchanges
      (runReadCycleImpl (plantDevice .declared) plantMappings plantState).2))).Pairwise
      fun c c' => c.1 < c'.1 ∧ c.1 + c.2 ≤ c'.1 :=
  (@reads_cover_mapped (plantDevice .declared) .declared plantMappings plantState
    (runReadCycleImpl (plantDevice .declared) plantMappings plantState).2 (by decide) (by decide)
    (Prod.ext (by decide) rfl) .holdingRegisters).2.1

end PlcBridge.Modbus
