/-
  PlcBridge.Modbus.Staleness

  Whether a Modbus cycle can leave an old value marked Good.  A tag is safe
  when its whole range was delivered in the cycle; every other tag has to be
  degraded by the error handling.

  The handling has three gaps: an error that is neither `Illegal..` nor fatal
  marks nothing, a fatal error marks its own group only, and a tag that the end
  of a request cuts is Good again after its last piece.  A cycle whose
  exchanges keep clear of these leaves no stale value.
-/
import PlcBridge.Modbus.GroupedReads

namespace PlcBridge.Modbus

open PlcBridge.Lib
open PlcBridge.DriverState (Extends AllNew NotGood)

-- ============================================================================
-- What a cycle delivered
-- ============================================================================

/-- The exchange is a successful read that contains address `a`. -/
def Exchange.Delivers (func : ModbusFunction) (a : Nat) : Exchange → Prop
  | .read _ func' start qty (.ok data) =>
      func' = func ∧ start.toNat ≤ a ∧ a < start.toNat + min qty.toNat data.count
  | _ => False

/-- The exchange is an acknowledged write to the tag. -/
def Exchange.Acknowledges (id : String) : Exchange → Prop
  | .write _ req _ _ (.ok ()) => req.tagId = id
  | _ => False

/-- Every address of the mapping's range was read successfully. -/
def ModbusMapping.Covered (m : ModbusMapping) (xs : List Exchange) : Prop :=
  ∀ a, m.lo ≤ a → a < m.lo + m.len → ∃ x ∈ xs, x.Delivers m.function a

/-- Between `d` and `d'`, no tag that was neither read completely nor written
    is left Good. -/
def NoStaleGood (mappings : List ModbusMapping) (d d' : State) : Prop :=
  ∀ m ∈ mappings, ¬ m.Covered (d.exchanges d') →
    (∀ x ∈ d.exchanges d', ¬ x.Acknowledges m.tagId) → d'.NotGood m.tagId

-- ============================================================================
-- Exchanges the error handling copes with
-- ============================================================================

/-- The mapping is read after the group of the request at `start`: its
    function comes later, or an unmapped address lies in between. -/
def Behind (order : FuncOrder) (mappings : List ModbusMapping) (func : ModbusFunction) (start : Nat)
    (m : ModbusMapping) : Prop :=
  order.list.idxOf func < order.list.idxOf m.function ∨
  (m.function = func ∧ ∃ a, start ≤ a ∧ a < m.lo ∧ ¬ Mapped mappings func a)

/-- Every mapping that starts before the end of the request ends in it or
    before. -/
def CutsNone (mappings : List ModbusMapping) (func : ModbusFunction) (last : Nat) : Prop :=
  ∀ m ∈ mappings, m.function = func → m.lo < last → m.lo + m.len ≤ last

/-- An exchange outside the three gaps of the error handling. -/
def Exchange.Handled (order : FuncOrder) (mappings : List ModbusMapping) : Exchange → Prop
  | .write _ _ _ _ result => result.aborts = false
  | .read _ func start qty result =>
      (∀ data, result = .ok data →
        qty.toNat ≤ data.count ∨ CutsNone mappings func (start.toNat + qty.toNat)) ∧
      (∀ err, result.payload = .error err →
        (isIllegal err ∧ CutsNone mappings func (start.toNat + qty.toNat)) ∨
        (isFatal err ∧ ∀ m ∈ mappings, ¬ Behind order mappings func start.toNat m))

-- ============================================================================
-- One read
-- ============================================================================

variable {env : Env} {ctx : Nat} {r : ReadRequest} {d : State} {m : ModbusMapping}

theorem length_rawBytes_le (data : ReadData) : data.rawBytes.length ≤ 2 * data.count := by
  cases data with
  | registers regs => simp [ReadData.rawBytes, ReadData.count, registersToBytes]
  | bits bs =>
      simp only [ReadData.rawBytes, ReadData.count, registersToBytes, length_beBytes, packBits,
        List.length_map, List.length_range]
      omega

/-- A fatal read degrades every member of its group. -/
theorem notGood_of_readStep_error {e : DriverError} {d' : State} (hmem : m ∈ r.members)
    (h : readStep env ctx r d = (.error e, d')) : d'.NotGood m.tagId := by
  obtain ⟨data, -, heq⟩ | ⟨err, -, ⟨-, heq⟩ | ⟨-, heq⟩ | ⟨-, -, heq⟩⟩ := readStep_cases env ctx r d
  · rw [heq] at h
    exact absurd (congrArg Prod.fst h) (by simp)
  · rw [heq] at h
    exact absurd (congrArg Prod.fst h) (by simp)
  · rw [heq] at h
    obtain rfl := congrArg Prod.snd h
    exact (DriverState.notGood_markAll _ (List.mem_map_of_mem hmem) (by simp)).congr
      (DriverState.view_putBack _ none _)
  · rw [heq] at h
    exact absurd (congrArg Prod.fst h) (by simp)

/-- The payload reaches the extraction of a member. -/
theorem notGood_foldl_extract {raw : List UInt8} (hr : 0 < r.qty.toNat) (hm : 0 < m.len)
    (hmem : m ∈ r.members) (hids : r.ids.Nodup) (h : Meets r.span m.lo m.len)
    (hshort : raw.length < (sliceBounds r m).1 + (sliceBounds r m).2) :
    (r.members.foldl (extractMapping env r raw) d).NotGood m.tagId := by
  obtain ⟨d₁, -, -, hview⟩ := @view_foldl_extract env r raw d m r.members hids hmem
  refine NotGood.congr ?_ hview
  rw [extractMapping_of_short hr hm h hshort]
  exact DriverState.notGood_setTagQuality d₁ m.tagId (by simp)

/-- A request that does not meet a degraded tag's range keeps it degraded. -/
theorem notGood_readStep_of_not_meets (hr : 0 < r.qty.toNat) (hm : 0 < m.len)
    (hmem : m ∈ r.members) (hids : r.ids.Nodup) (hmeets : ¬ Meets r.span m.lo m.len)
    (h : d.NotGood m.tagId) : (readStep env ctx r d).2.NotGood m.tagId := by
  obtain ⟨data, -, heq⟩ | ⟨err, -, ⟨-, heq⟩ | ⟨-, heq⟩ | ⟨-, -, heq⟩⟩ := readStep_cases env ctx r d
  · rw [heq]
    obtain ⟨d₁, -, hsame, hview⟩ := @view_foldl_extract env r data.rawBytes
      (d.record (readExchange env ctx r d)) m r.members hids hmem
    refine h.congr ?_
    rw [hview, extractMapping_of_not_meets hr hm hmeets, hsame]
    rfl
  · rw [heq]
    exact DriverState.notGood_markAll _ (List.mem_map_of_mem hmem) (by simp)
  · have hlost := notGood_of_readStep_error hmem heq
    rw [heq]
    exact hlost
  · rw [heq]
    exact h.congr rfl

variable {order : FuncOrder} {mappings : List ModbusMapping} {a : Nat}

/-- A handled request that contains the end of the range but did not deliver
    an address of it degrades the tag. -/
theorem notGood_readStep_of_last (hr : 0 < r.qty.toNat) (hm : 0 < m.len) (hmem : m ∈ r.members)
    (hids : r.ids.Nodup) (hfunc : r.func = m.function) (hstart : r.start.toNat ≤ a)
    (hend : m.lo + m.len ≤ r.start.toNat + r.qty.toNat) (ha : m.lo ≤ a ∧ a < m.lo + m.len)
    (hx : (readExchange env ctx r d).Handled order mappings)
    (hundel : ¬ (readExchange env ctx r d).Delivers m.function a) :
    (readStep env ctx r d).2.NotGood m.tagId := by
  obtain ⟨data, hdata, heq⟩ | ⟨err, herr, ⟨-, heq⟩ | ⟨-, heq⟩ | ⟨hill, hfat, -⟩⟩ :=
    readStep_cases env ctx r d
  · rw [heq]
    have hmeets : Meets r.span m.lo m.len := ⟨by simp only [ReadRequest.span]; omega,
      by simp only [ReadRequest.span]; omega⟩
    refine notGood_foldl_extract hr hm hmem hids hmeets ?_
    -- The data ends at or before `a`, so the range's last byte is missing.
    have hcount : data.count ≤ a - r.start.toNat := by
      by_contra hcount
      apply hundel
      rw [readExchange, hdata]
      exact ⟨hfunc, hstart, by omega⟩
    have hlen := length_rawBytes_le data
    simp only [sliceBounds, overlap, ReadRequest.span]
    omega
  · rw [heq]
    exact DriverState.notGood_markAll _ (List.mem_map_of_mem hmem) (by simp)
  · have hlost := notGood_of_readStep_error hmem heq
    rw [heq]
    exact hlost
  · rcases hx.2 err herr with ⟨h, -⟩ | ⟨h, -⟩
    · exact absurd h hill
    · exact absurd h hfat

/-- A handled request that contains an undelivered address of a tag it cuts
    ends the cycle. -/
theorem readStep_error_of_cut (hmap : m ∈ mappings) (hfunc : r.func = m.function)
    (ha : m.lo ≤ a) (hstart : r.start.toNat ≤ a) (hend : a < r.start.toNat + r.qty.toNat)
    (hcut : r.start.toNat + r.qty.toNat < m.lo + m.len)
    (hx : (readExchange env ctx r d).Handled order mappings)
    (hundel : ¬ (readExchange env ctx r d).Delivers m.function a) :
    ∃ e d', readStep env ctx r d = (.error e, d') := by
  have hcuts : ¬ CutsNone mappings r.func (r.start.toNat + r.qty.toNat) := by
    intro h
    have := h m hmap hfunc.symm (by omega)
    omega
  obtain ⟨data, hdata, -⟩ | ⟨err, herr, ⟨hill, -⟩ | ⟨-, heq⟩ | ⟨hill, hfat, -⟩⟩ :=
    readStep_cases env ctx r d
  · rcases hx.1 data hdata with hfull | h
    · refine absurd ?_ hundel
      rw [readExchange, hdata]
      exact ⟨hfunc, hstart, by omega⟩
    · exact absurd h hcuts
  · rcases hx.2 err herr with ⟨-, h⟩ | ⟨h, -⟩
    · exact absurd h hcuts
    · simp [isFatal, hill] at h
  · exact ⟨_, _, heq⟩
  · rcases hx.2 err herr with ⟨h, -⟩ | ⟨h, -⟩
    · exact absurd h hill
    · exact absurd h hfat

-- ============================================================================
-- The requests of the tag's group
-- ============================================================================

/-- Handled, and does not contain address `a` of the mapping. -/
def Exchange.Misses (order : FuncOrder) (mappings : List ModbusMapping) (func : ModbusFunction)
    (a : Nat) (x : Exchange) : Prop :=
  x.Handled order mappings ∧ ¬ x.Delivers func a

/-- A run over requests of the tag's group that fails has degraded the tag. -/
theorem notGood_of_runReads_error {rs : List ReadRequest} {e : DriverError} {d' : State}
    (hmem : ∀ r ∈ rs, m ∈ r.members) (h : runList (readStep env ctx) rs d = (.error e, d')) :
    d'.NotGood m.tagId := by
  obtain ⟨l₁, r, l₂, d₀, rfl, -, hstep⟩ := exists_failed_step h
  exact notGood_of_readStep_error (hmem r (by simp)) hstep

/-- If an address of the tag's range is not delivered, the handled requests of
    its group leave the tag degraded. -/
theorem notGood_groupRequests (hspace : ∀ m ∈ mappings, m.InSpace)
    (hnodup : (mappings.map ModbusMapping.tagId).Nodup) {g : Group}
    (hg : g ∈ funcGroups mappings m.function) (hmg : m ∈ g.members)
    (ha : m.lo ≤ a ∧ a < m.lo + m.len)
    (hall : AllNew (Exchange.Misses order mappings m.function a) d
      (runList (readStep env ctx) (groupRequests m.function g) d).2) :
    (runList (readStep env ctx) (groupRequests m.function g) d).2.NotGood m.tagId := by
  have hm := (mem_funcGroups_members hg hmg).1
  have hpos := (hspace m hm).pos
  obtain ⟨hgspace, hsound, -⟩ := funcGroups_spec hspace hg
  have hin := hsound.inside m hmg
  have hmem : ∀ r ∈ groupRequests m.function g, r.func = m.function ∧ m ∈ r.members ∧
      r.ids.Nodup ∧ 0 < r.qty.toNat := by
    intro r hr
    obtain ⟨hfunc, hmembers⟩ := mem_groupRequests hr
    refine ⟨hfunc, by rw [hmembers]; exact hmg, ?_, groupRequests_pos hgspace hr⟩
    rw [ReadRequest.ids, hmembers]
    exact nodup_group_ids hnodup hg
  obtain ⟨rs₁, r, rs₂, hreqs, hstart, hend, hlater⟩ := @exists_request m.function g hgspace a
    (le_trans hin.1 ha.1) (lt_of_lt_of_le ha.2 hin.2)
  rw [hreqs] at hall hmem ⊢
  obtain ⟨e, d', herr, hrun⟩ | ⟨d₀, hok, hrest⟩ := runList_at (readStep env ctx) rs₁ rs₂ r d
  · rw [hrun]
    exact notGood_of_runReads_error (fun r' hr' => (hmem r' (by simp [hr'])).2.1) herr
  · obtain ⟨hx, hundel⟩ := (readLoop env ctx).allNew_head ((readLoop env ctx).allNew_append hok hall).2
    obtain ⟨hfunc, hrm, hids, hr⟩ := hmem r (by simp)
    by_cases hcut : r.start.toNat + r.qty.toNat < m.lo + m.len
    · obtain ⟨e, d', herr⟩ := readStep_error_of_cut hm hfunc ha.1 hstart hend hcut hx hundel
      rw [runList_append_ok hok, runList_cons_error herr]
      exact notGood_of_readStep_error hrm herr
    · -- The tag ends in this request, and no later one meets it.
      have hstep := notGood_readStep_of_last hr hpos hrm hids hfunc hstart (by omega) ha hx hundel
      obtain ⟨e, d', herr, hrun⟩ | ⟨d₁, hok₁, hrun⟩ := hrest
      · rw [hrun]
        exact notGood_of_readStep_error hrm herr
      · rw [hok₁] at hstep
        rw [hrun]
        refine runList_invariant (I := fun d' : State => d'.NotGood m.tagId) ?_ hstep
        intro r' hr' d' hd'
        obtain ⟨-, hrm', hids', hr''⟩ := hmem r' (by simp [hr'])
        refine notGood_readStep_of_not_meets hr'' hpos hrm' hids' (fun hmeets => ?_) hd'
        have hbehind := hlater r' hr'
        have hbefore : r'.start.toNat < m.lo + m.len := hmeets.2
        omega

-- ============================================================================
-- The requests before the tag's group
-- ============================================================================

/-- A handled run over requests that the mapping is behind goes through. -/
theorem runReads_ok_of_behind {rs : List ReadRequest} {func : ModbusFunction}
    (hm : m ∈ mappings) (hrs : ∀ r ∈ rs, Behind order mappings r.func r.start.toNat m)
    (hall : AllNew (Exchange.Misses order mappings func a) d (runList (readStep env ctx) rs d).2) :
    ∃ d', runList (readStep env ctx) rs d = (.ok (), d') := by
  rcases except_cases (runList (readStep env ctx) rs d) with ⟨d', h⟩ | ⟨e, d', h⟩
  · exact ⟨d', h⟩
  · obtain ⟨l₁, r, l₂, d₀, rfl, hok, hstep⟩ := exists_failed_step h
    obtain ⟨hx, -⟩ := (readLoop env ctx).allNew_head ((readLoop env ctx).allNew_append hok hall).2
    have hbehind := hrs r (by simp)
    obtain ⟨data, -, heq⟩ | ⟨err, herr, ⟨-, heq⟩ | ⟨hfat, -⟩ | ⟨-, -, heq⟩⟩ :=
      readStep_cases env ctx r d₀
    · rw [heq] at hstep
      exact absurd (congrArg Prod.fst hstep) (by simp)
    · rw [heq] at hstep
      exact absurd (congrArg Prod.fst hstep) (by simp)
    · rcases hx.2 err herr with ⟨hill, -⟩ | ⟨-, hlast⟩
      · simp [isFatal, hill] at hfat
      · exact absurd hbehind (hlast m hm)
    · rw [heq] at hstep
      exact absurd (congrArg Prod.fst hstep) (by simp)

/-- Everything planned before the tag's group has the tag behind it. -/
theorem behind_of_mem_before (hspace : ∀ m ∈ mappings, m.InSpace) {g : Group} {g₁ g₂ : List Group}
    {o₁ o₂ : List ModbusFunction} (hmg : m ∈ g.members)
    (horder : order.list = o₁ ++ m.function :: o₂)
    (hgroups : funcGroups mappings m.function = g₁ ++ g :: g₂) {r : ReadRequest}
    (hr : r ∈ o₁.flatMap (funcRequests mappings) ++ g₁.flatMap (groupRequests m.function)) :
    Behind order mappings r.func r.start.toNat m := by
  rcases List.mem_append.mp hr with hr | hr
  · left
    obtain ⟨func, hfunc, hr⟩ := List.mem_flatMap.mp hr
    obtain ⟨g', -, hr⟩ := List.mem_flatMap.mp hr
    obtain rfl := (mem_groupRequests hr).1
    have hnot : m.function ∉ o₁ := by
      intro h
      have hnd := order.nodup
      rw [horder, List.nodup_append] at hnd
      exact hnd.2.2 _ h _ (List.mem_cons_self ..) rfl
    rw [horder, List.idxOf_append_of_mem hfunc, List.idxOf_append_of_notMem hnot]
    have := List.idxOf_lt_length_of_mem hfunc
    omega
  · right
    obtain ⟨g', hg', hr⟩ := List.mem_flatMap.mp hr
    have hmem : g ∈ funcGroups mappings m.function ∧ g' ∈ funcGroups mappings m.function := by
      rw [hgroups]
      simp [hg']
    have hgap := funcGroups_gap hspace m.function
    rw [hgroups, List.pairwise_append] at hgap
    have hlt := hgap.2.2 g' hg' g (List.mem_cons_self ..)
    obtain ⟨hgspace', -, -⟩ := funcGroups_spec hspace hmem.2
    obtain ⟨-, hsound, hrun⟩ := funcGroups_spec hspace hmem.1
    have hspan := groupRequests_end hgspace' hr
    have hpos := groupRequests_pos hgspace' hr
    have hin := (hsound.inside m hmg).1
    rw [(mem_groupRequests hr).1]
    refine ⟨rfl, g.start.toNat - 1, by omega, ?_, (hrun m hmg).first _ (by omega)⟩
    show _ < m.lo
    have : g.start.toNat ≤ m.lo := hin
    omega

-- ============================================================================
-- The cycle
-- ============================================================================

/-- In a cycle whose exchanges are all handled, no tag that was neither read
    completely nor written is left Good. -/
theorem no_stale_good {vorder : FuncOrder} {mappings : List ModbusMapping}
    (hval : validate vorder mappings = .ok ())
    (hnodup : (mappings.map ModbusMapping.tagId).Nodup)
    (hle : ∀ m ∈ mappings, m.address.toNat + m.quantity.toNat ≤ 65535) {env : Env} {d : State}
    (hhandled : ∀ x ∈ d.exchanges (runReadCycleImpl env mappings d).2,
      x.Handled env.order mappings) :
    NoStaleGood mappings d (runReadCycleImpl env mappings d).2 := by
  intro m hm hcov _
  have hok := (of_validate hval).1
  have hspace : ∀ m ∈ mappings, m.InSpace := fun m hm => ⟨(hok m hm).quantity_pos, hle m hm⟩
  -- An address of the range that no exchange delivered.
  simp only [ModbusMapping.Covered, not_forall, not_exists, not_and] at hcov
  obtain ⟨a, ha1, ha2, hundel⟩ := hcov
  have hall : AllNew (Exchange.Misses env.order mappings m.function a) d
      (runReadCycleImpl env mappings d).2 := by
    rw [DriverState.allNew_iff (extends_runReadCycleImpl env mappings d)]
    intro x hx
    exact ⟨hhandled x hx, hundel x hx⟩
  have hw : WritesGoThrough env mappings d := writesGoThrough_of_allNew (fun h => h.1) hall
  obtain ⟨ctx, d₁, hext, -, hrun, htrace, hview⟩ := exists_run_of_cycle hw
  have hreads : AllNew (Exchange.Misses env.order mappings m.function a) d₁
      (runList (readStep env ctx) (readPlan env.order mappings) d₁).2 := by
    refine (AllNew.split hext hrun ?_).2
    intro xs hxs
    exact hall xs (htrace.trans hxs)
  refine NotGood.congr ?_ (hview m.tagId)
  obtain ⟨g, hg, hmg⟩ := exists_group hm
  obtain ⟨o₁, o₂, g₁, g₂, horder, hgroups, -, hafter⟩ := exists_plan_split env.order hnodup hg hmg
  rw [readPlan_split horder hgroups, List.append_assoc] at hreads ⊢
  obtain ⟨d₂, hbefore⟩ := runReads_ok_of_behind hm
    (fun r hr => behind_of_mem_before hspace hmg horder hgroups hr) ((readLoop env ctx).allNew_left hreads)
  rw [runList_append_ok hbefore]
  have hgroup := notGood_groupRequests hspace hnodup hg hmg ⟨ha1, ha2⟩
    ((readLoop env ctx).allNew_left ((readLoop env ctx).allNew_append hbefore hreads).2)
  exact hgroup.congr ((readLoop env ctx).view_run_append_ne hafter)

/-- One holding register. -/
def levelMappings : List ModbusMapping :=
  [{ tagId := "level", dataType := .uint16, address := 0, quantity := 1,
     function := .holdingRegisters }]

def levelState : State :=
  .new (.ofDefinitions [.new "level" "level" "0" .uint16 "plc"]) () []

/-- A device that answers its first read and gives every later one the same
    result. -/
def Env.answersOnce (later : CallResult (List UInt16)) : Env where
  chrono := .rejecting
  clock := fun _ => .unixEpoch
  order := .declared
  readRegisters := fun history _ _ _ _ => if history = [] then .ok [7] else later
  readBits := fun _ _ _ _ _ => .ok []
  writeMultipleRegisters := fun _ _ _ _ => .ok ()

/-- The driver after the answered first cycle. -/
def levelRead (later : CallResult (List UInt16)) : State :=
  (runReadCycleImpl (.answersOnce later) levelMappings levelState).2

/-- A timeout of the only group leaves its tag CommLost. -/
theorem no_stale_good_timeout :
    NoStaleGood levelMappings (levelRead .timeout)
      (runReadCycleImpl (.answersOnce .timeout) levelMappings (levelRead .timeout)).2 := by
  apply @no_stale_good .declared levelMappings (by decide) (by decide) (by decide)
  have hxs : (levelRead .timeout).exchanges
      (runReadCycleImpl (.answersOnce .timeout) levelMappings (levelRead .timeout)).2 =
        [.read 0 .holdingRegisters 0 1 .timeout] := by decide +kernel
  rw [hxs]
  intro x hx
  obtain rfl := List.mem_singleton.mp hx
  refine ⟨fun data hdata => absurd hdata (by simp), ?_⟩
  intro err herr
  obtain rfl : "Timeout" = err := by simpa [CallResult.payload] using herr
  refine .inr ⟨by decide +kernel, ?_⟩
  intro m hm
  obtain rfl := List.mem_singleton.mp hm
  rintro (hlt | ⟨-, a, -, hlt, -⟩)
  · exact absurd hlt (lt_irrefl _)
  · exact absurd hlt (Nat.not_lt_zero a)

/-- After a `ServerDeviceFailure` the register's old value stays Good. -/
theorem stale_good_after_device_failure :
    validate .declared levelMappings = .ok () ∧
    (runReadCycleImpl (.answersOnce (.exception .serverDeviceFailure)) levelMappings
      (levelRead (.exception .serverDeviceFailure))).2.view "level" = some (.uint16 7, .good) ∧
    ¬ NoStaleGood levelMappings (levelRead (.exception .serverDeviceFailure))
      (runReadCycleImpl (.answersOnce (.exception .serverDeviceFailure)) levelMappings
        (levelRead (.exception .serverDeviceFailure))).2 := by
  have hview : (runReadCycleImpl (.answersOnce (.exception .serverDeviceFailure)) levelMappings
      (levelRead (.exception .serverDeviceFailure))).2.view "level" = some (.uint16 7, .good) := by
    decide +kernel
  have hxs : (levelRead (.exception .serverDeviceFailure)).exchanges
      (runReadCycleImpl (.answersOnce (.exception .serverDeviceFailure)) levelMappings
        (levelRead (.exception .serverDeviceFailure))).2 =
        [.read 0 .holdingRegisters 0 1 (.exception .serverDeviceFailure)] := by decide +kernel
  refine ⟨by decide, hview, ?_⟩
  intro hstale
  refine absurd rfl (hstale _ (List.mem_singleton_self _) ?_ ?_ (.uint16 7, .good) hview)
  · intro hcov
    obtain ⟨x, hx, hdel⟩ := hcov 0 (by decide) (by decide)
    rw [hxs] at hx
    obtain rfl := List.mem_singleton.mp hx
    exact hdel
  · intro x hx
    rw [hxs] at hx
    obtain rfl := List.mem_singleton.mp hx
    exact id

end PlcBridge.Modbus
