/-
  PlcBridge.Fins.Staleness

  Whether a FINS cycle can leave an old value marked Good.  Every failure
  degrades the group it strikes, but the loop over the groups is then left: the
  groups behind it keep what they had, and the cycle still returns `Ok`.  A tag
  that the end of a request cuts is Good again after its last piece, whatever
  became of the earlier ones.  A cycle whose exchanges keep clear of these two
  gaps leaves no stale value.
-/
import PlcBridge.Fins.Steps

namespace PlcBridge.Fins

open PlcBridge.Lib
open PlcBridge.DriverState (Extends AllNew NotGood)

-- ============================================================================
-- What a cycle delivered
-- ============================================================================

/-- The exchange is a complete read from which the mapping's part was
    decoded. -/
def Exchange.Decodes (chrono : Chrono) (m : TagMapping) : Exchange → Prop
  | .read _ sid g result => ∃ data v, result.response sid = .accepted data ∧
      g.wordCount.toNat * 2 ≤ data.length ∧ piece chrono g data m = .done v
  | .write .. => False

/-- The exchange is a read request that contains word `a` of the area. -/
def Exchange.Contains (area : UInt8) (a : Nat) : Exchange → Prop
  | .read _ _ g _ => g.area = area ∧ g.startAddress.toNat ≤ a ∧
      a < g.startAddress.toNat + g.wordCount.toNat
  | .write .. => False

/-- The exchange is an acknowledged write to the tag. -/
def Exchange.Acknowledges (id : String) : Exchange → Prop
  | .write _ sid req _ _ result => req.tagId = id ∧ ∃ data, result.response sid = .accepted data
  | .read .. => False

/-- Every word of the mapping was read and decoded. -/
def TagMapping.Covered (chrono : Chrono) (m : TagMapping) (xs : List Exchange) : Prop :=
  ∀ a, m.lo ≤ a → a < m.lo + m.len → ∃ x ∈ xs, x.Contains m.area a ∧ x.Decodes chrono m

/-- Between `d` and `d'`, no tag that was neither read completely nor written
    is left Good. -/
def NoStaleGood (chrono : Chrono) (mappings : List TagMapping) (d d' : State) : Prop :=
  ∀ m ∈ mappings, ¬ m.Covered chrono (d.exchanges d') →
    (∀ x ∈ d.exchanges d', ¬ x.Acknowledges m.tagId) → d'.NotGood m.tagId

-- ============================================================================
-- Exchanges the error handling copes with
-- ============================================================================

/-- The request meets the mapping and ends before it does. -/
def ReadGroup.CutsOff (g : ReadGroup) (m : TagMapping) : Prop :=
  g.area = m.area ∧ m.lo < g.startAddress.toNat + g.wordCount.toNat ∧
    g.startAddress.toNat + g.wordCount.toNat < m.lo + m.len

/-- An exchange outside the gaps of the error handling: a response that ends
    the loop leaves no mapping behind, and from any other response the mapping
    that the request cuts off is decoded. -/
def Exchange.Handled (chrono : Chrono) (mappings : List TagMapping) : Exchange → Prop
  | .write .. => True
  | .read ctx sid g result =>
      if (result.response sid).breaks then
        ∀ m ∈ mappings, ¬ Behind mappings g.area g.startAddress.toNat m
      else
        ∀ m ∈ mappings, g.CutsOff m → (Exchange.read ctx sid g result).Decodes chrono m

-- ============================================================================
-- One read
-- ============================================================================

variable {env : Env} {g : ReadGroup} {d : State} {m : TagMapping}

/-- What a read that goes on does to a mapping of its group. -/
structure Treats (env : Env) (g : ReadGroup) (d d' : State) (m : TagMapping) : Prop where
  /-- Met but not decoded: degraded. -/
  met : Meets g.span m.lo m.len → ¬ (readExchange env g d).Decodes env.chrono m → d'.NotGood m.tagId
  /-- Not met: not improved. -/
  unmet : ¬ Meets g.span m.lo m.len → d.NotGood m.tagId → d'.NotGood m.tagId

theorem treats_extract (hg : g.InSpace) (hids : g.ids.Nodup) (hmem : m ∈ g.mappings) (hm : m.InSpace)
    {data : List UInt8} (hresp : (readExchange env g d).response = .accepted data)
    (hlong : g.wordCount.toNat * 2 ≤ data.length) {d' : State}
    (hok : runList (extractMapping env g data) g.mappings
      ((afterRead env g d).putBack (some (nextCtx d))) = (.ok (), d')) : Treats env g d d' m := by
  obtain ⟨d₁, d₂, -, hbefore, hstep, hafter⟩ := view_runExtract hids hmem hok
  have hmiss := misses_iff hg hm
  refine ⟨?_, ?_⟩
  · intro hmeets hnot
    refine NotGood.congr ?_ hafter
    refine extractMapping_of_not_done (fun h => hmiss.mp h hmeets)
      (le_trans (overlapBytes_le hg hm hmeets) hlong) ?_ hstep
    intro v hv
    exact hnot ⟨data, v, hresp, hlong, hv⟩
  · intro hmeets hgood
    rw [extractMapping_of_misses (hmiss.mpr hmeets)] at hstep
    obtain rfl := congrArg Prod.snd hstep
    refine hgood.congr (hafter.trans (hbefore.trans ?_))
    exact (DriverState.view_putBack _ _ _).trans (view_afterRead env g d m.tagId)

/-- Only a response that breaks ends the loop by a break. -/
theorem breaks_of_readStep_broke {d' : State} (h : readStep env g d = (.error .broke, d')) :
    (readExchange env g d).response.breaks = true := by
  rw [readStep_eq] at h
  obtain ⟨hb, -⟩ | ⟨-, heq⟩ | ⟨data, -, ⟨-, heq⟩ | ⟨-, heq⟩⟩ :=
    finishRead_cases env g (nextCtx d) (readExchange env g d).response (afterRead env g d)
  · exact hb
  · rw [heq] at h
    exact absurd (congrArg Prod.fst h) (by simp)
  · rw [heq] at h
    exact absurd (congrArg Prod.fst h) (by simp)
  · rw [heq] at h
    exact absurd (runExtract_error h) (by simp)

/-- A read breaks off the loop and degrades its group, or panics, or treats
    every mapping of its group. -/
theorem readStep_cases (env : Env) (d : State) (hg : g.InSpace) (hids : g.ids.Nodup) :
    ∃ d',
      (readStep env g d = (.error .broke, d') ∧ (readExchange env g d).response.breaks = true ∧
        ∀ m ∈ g.mappings, d'.NotGood m.tagId) ∨
      (readStep env g d = (.error .panicked, d') ∧ (readExchange env g d).response.breaks = false) ∨
      (readStep env g d = (.ok (), d') ∧ (readExchange env g d).response.breaks = false ∧
        ∀ m ∈ g.mappings, m.InSpace → Treats env g d d' m) := by
  have hput : ∀ id, ((afterRead env g d).putBack (some (nextCtx d))).view id = d.view id := fun id =>
    (DriverState.view_putBack _ _ _).trans (view_afterRead env g d id)
  rw [readStep_eq]
  obtain ⟨hb, d', heq, -, -, q, hq, hview⟩ | ⟨hresp, heq⟩ | ⟨data, hresp, ⟨-, heq⟩ | ⟨hlong, heq⟩⟩ :=
    finishRead_cases env g (nextCtx d) (readExchange env g d).response (afterRead env g d)
  · refine ⟨d', .inl ⟨heq, hb, ?_⟩⟩
    intro m hmem
    exact (DriverState.notGood_markAll _ (List.mem_map_of_mem hmem) hq).congr (hview m.tagId)
  · refine ⟨_, .inr (.inr ⟨heq, by rw [hresp]; rfl, ?_⟩)⟩
    intro m hmem _
    have hid : m.tagId ∈ g.ids := List.mem_map_of_mem hmem
    exact ⟨fun _ _ => DriverState.notGood_markAll _ hid (by simp),
      fun _ _ => DriverState.notGood_markAll _ hid (by simp)⟩
  · refine ⟨_, .inr (.inr ⟨heq, by rw [hresp]; rfl, ?_⟩)⟩
    intro m hmem hm
    refine ⟨?_, ?_⟩
    · intro hmeets _
      refine DriverState.notGood_markAll _ (mem_metIds.mpr ⟨m, hmem, ?_, rfl⟩) (by simp)
      exact fun h => (misses_iff hg hm).mp h hmeets
    · intro hmeets hgood
      have hnot : m.tagId ∉ g.metIds := by
        intro h
        obtain ⟨m', hmem', hmet, hid⟩ := mem_metIds.mp h
        obtain rfl := List.inj_on_of_nodup_map hids hmem' hmem hid
        exact hmet ((misses_iff hg hm).mpr hmeets)
      refine hgood.congr ?_
      rw [DriverState.view_markAll, if_neg hnot, hput]
  · have hb : (readExchange env g d).response.breaks = false := by rw [hresp]; rfl
    rw [heq]
    rcases except_cases (runList (extractMapping env g data) g.mappings
      ((afterRead env g d).putBack (some (nextCtx d)))) with ⟨d', hok⟩ | ⟨e, d', herr⟩
    · refine ⟨d', .inr (.inr ⟨hok, hb, ?_⟩)⟩
      intro m hmem hm
      exact treats_extract hg hids hmem hm hresp hlong hok
    · refine ⟨d', .inr (.inl ⟨?_, hb⟩)⟩
      rw [herr, runExtract_error herr]

-- ============================================================================
-- The requests of the tag's range
-- ============================================================================

/-- Handled, and no decoded read of word `a` of the mapping. -/
def Exchange.Passes (chrono : Chrono) (mappings : List TagMapping) (m : TagMapping) (a : Nat)
    (x : Exchange) : Prop :=
  x.Handled chrono mappings ∧ ¬ (x.Contains m.area a ∧ x.Decodes chrono m)

variable {config : FinsConfig} {a : Nat}

/-- A run over requests of the tag's range that breaks off has degraded the
    tag. -/
theorem notGood_of_runReads_broke {gs : List ReadGroup} {d' : State}
    (hgs : ∀ g ∈ gs, m ∈ g.mappings ∧ g.ids.Nodup ∧ g.InSpace)
    (h : runList (readStep env) gs d = (.error .broke, d')) : d'.NotGood m.tagId := by
  obtain ⟨l₁, g, l₂, d₀, rfl, -, hstep⟩ := exists_failed_step h
  obtain ⟨hmem, hids, hg⟩ := hgs g (by simp)
  obtain ⟨d₁, ⟨heq, -, hall⟩ | ⟨heq, -⟩ | ⟨heq, -⟩⟩ := readStep_cases env d₀ hg hids
  · rw [heq] at hstep
    obtain rfl := congrArg Prod.snd hstep
    exact hall m hmem
  · rw [heq] at hstep
    exact absurd (congrArg Prod.fst hstep) (by simp)
  · rw [heq] at hstep
    exact absurd (congrArg Prod.fst hstep) (by simp)

/-- Requests behind the tag's range keep it degraded. -/
theorem notGood_runReads_of_not_meets {gs : List ReadGroup} (hm : m.InSpace)
    (hgs : ∀ g ∈ gs, m ∈ g.mappings ∧ g.ids.Nodup ∧ g.InSpace)
    (hlater : ∀ g ∈ gs, ¬ Meets g.span m.lo m.len) (h : d.NotGood m.tagId)
    (hrun : (runList (readStep env) gs d).1 ≠ .error .panicked) :
    (runList (readStep env) gs d).2.NotGood m.tagId := by
  induction gs generalizing d with
  | nil => exact h
  | cons g gs ih =>
      obtain ⟨hmem, hids, hg⟩ := hgs g (List.mem_cons_self ..)
      obtain ⟨d', ⟨heq, -, hall⟩ | ⟨heq, -⟩ | ⟨heq, -, htreats⟩⟩ := readStep_cases env d hg hids
      · rw [runList_cons_error heq]
        exact hall m hmem
      · rw [runList_cons_error heq] at hrun
        exact absurd rfl hrun
      · rw [runList_cons_ok heq] at hrun ⊢
        apply ih (fun g' hg' => hgs g' (List.mem_cons_of_mem g hg'))
          (fun g' hg' => hlater g' (List.mem_cons_of_mem g hg')) ?_ hrun
        exact (htreats m hmem hm).unmet (hlater g (List.mem_cons_self ..)) h

/-- If a word of the tag is not decoded, the handled requests of its range
    leave the tag degraded. -/
theorem notGood_ownGroups {own : List ReadGroup} (hown : OwnGroups config m own)
    (hmap : m ∈ config.mappings) (hm : m.InSpace) (ha : m.lo ≤ a ∧ a < m.lo + m.len)
    (hall : AllNew (Exchange.Passes env.chrono config.mappings m a) d
      (runList (readStep env) own d).2)
    (hrun : (runList (readStep env) own d).1 ≠ .error .panicked) :
    (runList (readStep env) own d).2.NotGood m.tagId := by
  have heach : ∀ g ∈ own, m ∈ g.mappings ∧ g.ids.Nodup ∧ g.InSpace := fun g hg => (hown.each g hg).2
  obtain ⟨gs₁, g, gs₂, rfl, hstart, hend, hafter⟩ := hown.covers a ha.1 ha.2
  obtain ⟨e, d', herr, heq⟩ | ⟨d₀, hok, hrest⟩ := runList_at (readStep env) gs₁ gs₂ g d
  · rw [heq] at hrun ⊢
    cases e with
    | broke => exact notGood_of_runReads_broke (fun g' hg' => heach g' (by simp [hg'])) herr
    | panicked => exact absurd rfl hrun
  · obtain ⟨hx, hundec⟩ := (readLoop env).allNew_head ((readLoop env).allNew_append hok hall).2
    obtain ⟨hmem, hids, hg⟩ := heach g (by simp)
    have harea : g.area = m.area := (hown.each g (by simp)).1
    rw [runList_append_ok hok] at hrun ⊢
    obtain ⟨d₁, ⟨heq, -, hdeg⟩ | ⟨heq, -⟩ | ⟨heq, hb, htreats⟩⟩ := readStep_cases env d₀ hg hids
    · rw [runList_cons_error heq]
      exact hdeg m hmem
    · rw [runList_cons_error heq] at hrun
      exact absurd rfl hrun
    · have hnot : ¬ (readExchange env g d₀).Decodes env.chrono m := by
        intro h
        exact hundec ⟨⟨harea, hstart, hend⟩, h⟩
      -- The tag ends in this request, or the response would have been decoded.
      have hlast : m.lo + m.len ≤ g.startAddress.toNat + g.wordCount.toNat := by
        by_contra hcut
        apply hnot
        have hhandled : if (readExchange env g d₀).response.breaks = true then _ else _ := hx
        rw [hb, if_neg Bool.false_ne_true] at hhandled
        exact hhandled m hmap ⟨harea, by omega, by omega⟩
      have hmeets : Meets g.span m.lo m.len := ⟨by simp only [ReadGroup.span]; omega,
        by simp only [ReadGroup.span]; omega⟩
      rw [runList_cons_ok heq] at hrun ⊢
      apply notGood_runReads_of_not_meets hm (fun g' hg' => heach g' (by simp [hg'])) ?_
        ((htreats m hmem hm).met hmeets hnot) hrun
      intro g' hg' hmeets'
      have hbehind := hafter g' hg'
      have hbefore : g'.startAddress.toNat < m.lo + m.len := hmeets'.2
      omega

-- ============================================================================
-- The cycle
-- ============================================================================

/-- A handled run over requests that the mapping is behind goes through, or
    panics. -/
theorem runReads_ok_of_behind {gs : List ReadGroup} (hmap : m ∈ config.mappings)
    (hgs : ∀ g ∈ gs, Behind config.mappings g.area g.startAddress.toNat m)
    (hall : AllNew (Exchange.Passes env.chrono config.mappings m a) d
      (runList (readStep env) gs d).2)
    (hrun : (runList (readStep env) gs d).1 ≠ .error .panicked) :
    ∃ d', runList (readStep env) gs d = (.ok (), d') := by
  rcases except_cases (runList (readStep env) gs d) with ⟨d', h⟩ | ⟨e, d', h⟩
  · exact ⟨d', h⟩
  · cases e with
    | panicked =>
        rw [h] at hrun
        exact absurd rfl hrun
    | broke =>
        obtain ⟨l₁, g, l₂, d₀, rfl, hok, hstep⟩ := exists_failed_step h
        obtain ⟨hx, -⟩ := (readLoop env).allNew_head ((readLoop env).allNew_append hok hall).2
        have hhandled : if (readExchange env g d₀).response.breaks = true then _ else _ := hx
        rw [breaks_of_readStep_broke hstep, if_pos rfl] at hhandled
        exact absurd (hgs g (by simp)) (hhandled m hmap)

/-- In a cycle that returns and whose exchanges are all handled, no tag that
    was neither read completely nor written is left Good. -/
theorem returned_cycle_no_stale_good {order : AreaOrder} {config : FinsConfig}
    (hval : validate order config.mappings = .ok ())
    (hnodup : (config.mappings.map TagMapping.tagId).Nodup)
    (hlt : ∀ m ∈ config.mappings, m.address.toNat + m.wordCount.toNat < 2 ^ 32) {drv : FinsDriver}
    (hnew : FinsDriver.new config = some drv) {env : Env} {d : State}
    (hret : (runReadCycleImpl env drv d).1 = .returned)
    (hhandled : ∀ x ∈ d.exchanges (runReadCycleImpl env drv d).2,
      x.Handled env.chrono config.mappings) :
    NoStaleGood env.chrono config.mappings d (runReadCycleImpl env drv d).2 := by
  intro m hm hcov _
  have hok := (of_validate hval).1
  have hspace : ∀ m ∈ config.mappings, m.InSpace := fun m hm => ⟨(hok m hm).count_pos, hlt m hm⟩
  -- A word that no exchange decoded.
  simp only [TagMapping.Covered, not_forall, not_exists, not_and] at hcov
  obtain ⟨a, ha1, ha2, hundec⟩ := hcov
  have hall : AllNew (Exchange.Passes env.chrono config.mappings m a) d
      (runReadCycleImpl env drv d).2 := by
    rw [DriverState.allNew_iff (extends_runReadCycleImpl env drv d)]
    intro x hx
    exact ⟨hhandled x hx, fun h => hundec x hx h.1 h.2⟩
  obtain ⟨hstate, hpanic⟩ := runReadCycleImpl_eq env drv d
  have hrun : (runList (readStep env) drv.readGroups (beforeReads env drv d)).1 ≠ .error .panicked := by
    intro h
    rw [hpanic.mpr h] at hret
    exact absurd hret (by simp)
  rw [hstate] at hall ⊢
  have hreads := (hall.split (extends_beforeReads env drv d) (extends_runReads env _ _)).2
  obtain ⟨before, own, after, hgroups, hown, hbehind, hother⟩ :=
    exists_groups_split hspace hnodup hnew hm
  rw [hgroups, List.append_assoc] at hreads hrun ⊢
  obtain ⟨d₁, hbefore⟩ := runReads_ok_of_behind hm hbehind ((readLoop env).allNew_left hreads)
    (runList_ne_error_left hrun)
  rw [runList_append_ok hbefore] at hrun ⊢
  have hgroup := notGood_ownGroups hown hm (hspace m hm) ⟨ha1, ha2⟩
    ((readLoop env).allNew_left ((readLoop env).allNew_append hbefore hreads).2) (runList_ne_error_left hrun)
  exact hgroup.congr ((readLoop env).view_run_append_ne fun g hg => hother g (by simp [hg]))

/-- A word of the D area, and one of the W area behind it. -/
def levelMapping : TagMapping := { tagId := "level", area := 0x82, address := 0, dataType := .uint16 }

def flowMapping : TagMapping := { tagId := "flow", area := 0xB1, address := 0, dataType := .uint16 }

/-- The driver of a configuration, as `FinsDriver.new` leaves it. -/
def newDriver (mappings : List TagMapping) : FinsDriver :=
  (FinsDriver.new ⟨mappings, 960⟩).getD ⟨mappings, []⟩

def plantState : State :=
  .new (.ofDefinitions [.new "level" "level" "0" .uint16 "plc", .new "flow" "flow" "0" .uint16 "plc"]) 0 []

/-- A PLC that answers the first `n` reads of one word with 7; every later
    transfer fails. -/
def Env.answersFirst (n : Nat) : Env where
  chrono := .rejecting
  clock := fun _ => .unixEpoch
  transfer := fun history _ frame =>
    match receive frame with
    | some req =>
        if history.length < n then .answered (okResponse req.sid (0x01, 0x01) [0, 7])
        else .sendFailed "Broken pipe"
    | none => .sendFailed "Broken pipe"

/-- A cycle in which every tag is read. -/
def firstCycle (mappings : List TagMapping) : State :=
  (runReadCycleImpl (.answersFirst mappings.length) (newDriver mappings) plantState).2

/-- The next one, in which the connection is lost. -/
def lostCycle (mappings : List TagMapping) : Outcome × State :=
  runReadCycleImpl (.answersFirst mappings.length) (newDriver mappings) (firstCycle mappings)

/-- A lost connection at the only group leaves its tag CommLost. -/
theorem returned_cycle_no_stale_good_level :
    NoStaleGood .rejecting [levelMapping] (firstCycle [levelMapping]) (lostCycle [levelMapping]).2 := by
  apply @returned_cycle_no_stale_good .ascending ⟨[levelMapping], 960⟩ (by decide +kernel) (by decide)
    (by decide) (newDriver [levelMapping]) (by rfl) (.answersFirst 1) _ (by decide +kernel)
  have hxs : (firstCycle [levelMapping]).exchanges (lostCycle [levelMapping]).2 =
      [.read 0 1 ⟨0x82, 0, 1, [levelMapping]⟩ (.sendFailed "Broken pipe")] := by decide +kernel
  show ∀ x ∈ (firstCycle [levelMapping]).exchanges (lostCycle [levelMapping]).2, _
  rw [hxs]
  intro x hx
  obtain rfl := List.mem_singleton.mp hx
  intro m hm
  obtain rfl := List.mem_singleton.mp hm
  rintro (hlt | ⟨-, a, -, hlt, -⟩)
  · exact absurd hlt (by decide)
  · exact absurd hlt (Nat.not_lt_zero a)

/-- When the connection is lost at the first group, the tag of the second one
    keeps its old value as Good, and the cycle returns. -/
theorem stale_good_behind_lost_group :
    validate .ascending [levelMapping, flowMapping] = .ok () ∧
    FinsDriver.new ⟨[levelMapping, flowMapping], 960⟩ = some (newDriver [levelMapping, flowMapping]) ∧
    (lostCycle [levelMapping, flowMapping]).1 = .returned ∧
    (lostCycle [levelMapping, flowMapping]).2.view "flow" = some (.uint16 7, .good) ∧
    ¬ NoStaleGood .rejecting [levelMapping, flowMapping] (firstCycle [levelMapping, flowMapping])
      (lostCycle [levelMapping, flowMapping]).2 := by
  have hview : (lostCycle [levelMapping, flowMapping]).2.view "flow" = some (.uint16 7, .good) := by
    decide +kernel
  have hxs : (firstCycle [levelMapping, flowMapping]).exchanges
      (lostCycle [levelMapping, flowMapping]).2 =
        [.read 0 2 ⟨0x82, 0, 1, [levelMapping]⟩ (.sendFailed "Broken pipe")] := by decide +kernel
  refine ⟨by decide +kernel, by rfl, by decide +kernel, hview, ?_⟩
  intro hstale
  refine absurd rfl (hstale flowMapping (by simp) ?_ ?_ (.uint16 7, .good) hview)
  · intro hcov
    obtain ⟨x, hx, hcontains, -⟩ := hcov 0 (by decide) (by decide)
    rw [hxs] at hx
    obtain rfl := List.mem_singleton.mp hx
    exact absurd hcontains.1 (by decide)
  · intro x hx
    rw [hxs] at hx
    obtain rfl := List.mem_singleton.mp hx
    exact id

end PlcBridge.Fins
