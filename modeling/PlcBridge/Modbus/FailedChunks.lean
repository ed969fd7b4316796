/-
  PlcBridge.Modbus.FailedChunks

  A register group that is read in several requests, some of which the device
  refuses with an illegal data address.  A refused request marks every tag of
  the group, a successful one settles the tags it meets, and the requests come
  in ascending order; so a tag ends as the last request of its group that was
  refused or meets it leaves it.
-/
import PlcBridge.Modbus.Coverage

namespace PlcBridge.Modbus

open PlcBridge.Lib
open PlcBridge.DriverState (Extends AllNew)

/-- What a device makes of a read: registers, or an illegal data address. -/
abbrev Refusing := ModbusFunction → UInt16 → UInt16 → Option (List UInt16)

def refusingCall : Option (List UInt16) → CallResult (List UInt16)
  | some regs => .ok regs
  | none => .exception .illegalDataAddress

/-- The read was answered by the device. -/
def AnsweredBy (device : Refusing) : Exchange → Prop
  | .read _ func start qty result => result = (refusingCall (device func start qty)).map .registers
  | .write .. => True

variable {device : Refusing} {env : Env} {ctx : Nat} {d : State} {m : ModbusMapping} {r : ReadRequest}

/-- The answer to a request. -/
def ReadRequest.answer (r : ReadRequest) (device : Refusing) : Option (List UInt16) :=
  device r.func r.start r.qty

/-- The request reads registers of the mapping. -/
def ReadRequest.Touches (r : ReadRequest) (m : ModbusMapping) : Prop :=
  r.func = m.function ∧ Meets r.span m.lo m.len

/-- The request reads all registers of the mapping. -/
def ReadRequest.Holds (r : ReadRequest) (m : ModbusMapping) : Prop :=
  r.func = m.function ∧ r.start.toNat ≤ m.lo ∧ m.lo + m.len ≤ r.start.toNat + r.qty.toNat

/-- The request reads the last register of the mapping. -/
def ReadRequest.Ends (r : ReadRequest) (m : ModbusMapping) : Prop :=
  r.start.toNat < m.lo + m.len ∧ m.lo + m.len ≤ r.start.toNat + r.qty.toNat

/-- A tag inside a successful request is Good with the value decoded from it;
    a tag that a refused request touches is ConfigError. -/
structure Unpoisoned (chrono : Chrono) (device : Refusing) (order : FuncOrder)
    (mappings : List ModbusMapping) (d : State) : Prop where
  inside : ∀ m ∈ mappings, ∀ r ∈ readPlan order mappings, r.Holds m → ∀ regs,
    r.answer device = some regs →
    ∃ v, m.decodeRegisters chrono ((regs.drop (m.lo - r.start.toNat)).take m.len) = .ok v ∧
      d.view m.tagId = some (v, .good)
  touched : ∀ m ∈ mappings, ∀ r ∈ readPlan order mappings, r.Touches m → r.answer device = none →
    ∃ v, d.view m.tagId = some (v, .configError)

/-- Enough registers for the mapping's data type to be decoded at all. -/
def ModbusMapping.Decodes (m : ModbusMapping) (n : Nat) : Prop := m.dataType = .dateTime → 4 ≤ n

/-- Let the last request that touches the mapping succeed.  If it holds the
    mapping, the mapping decodes and no later request of the group is refused;
    if an earlier one that touches the mapping was refused and what is left of
    it decodes, then a later one is refused as well. -/
def ModbusMapping.Spared (device : Refusing) (mappings : List ModbusMapping) (m : ModbusMapping) : Prop :=
  ∀ g ∈ funcGroups mappings m.function, m ∈ g.members →
    ∀ (rs₁ : List ReadRequest) (r : ReadRequest) (rs₂ : List ReadRequest),
    groupRequests m.function g = rs₁ ++ r :: rs₂ → r.Ends m → (r.answer device).isSome →
    (r.start.toNat ≤ m.lo → m.Decodes m.len ∧ ∀ r' ∈ rs₂, (r'.answer device).isSome) ∧
    ((∃ r₀ ∈ rs₁, Meets r₀.span m.lo m.len ∧ r₀.answer device = none) →
      m.Decodes (m.lo + m.len - r.start.toNat) → ∃ r' ∈ rs₂, r'.answer device = none)

-- ============================================================================
-- One request
-- ============================================================================

/-- An answered read lets the cycle go on; a refused one marks its members. -/
theorem readStep_refused (hx : AnsweredBy device (readExchange env ctx r d))
    (hans : r.answer device = none) : readStep env ctx r d =
      (.ok (), (d.record (readExchange env ctx r d)).markAll env.clock r.ids .configError) := by
  have hres : env.read d.trace ctx r.func r.start r.qty = .exception .illegalDataAddress := by
    have hx' : env.read d.trace ctx r.func r.start r.qty =
        (refusingCall (r.answer device)).map .registers := hx
    rw [hx', hans]
    rfl
  obtain ⟨data, hdata, -⟩ | ⟨err, herr, hcases⟩ := readStep_cases env ctx r d
  · rw [hres] at hdata
    exact absurd hdata (by simp)
  · rw [hres] at herr
    obtain rfl := Except.error.inj herr
    have hill : isIllegal ExceptionCode.illegalDataAddress.debug = true := by decide +kernel
    obtain ⟨-, h⟩ | ⟨hfatal, -⟩ | ⟨hnot, -⟩ := hcases
    · exact h
    · exact absurd hfatal (by decide +kernel)
    · exact absurd hill hnot

/-- A successful read is an answered one. -/
theorem answered_of_some {regs : List UInt16} (hx : AnsweredBy device (readExchange env ctx r d))
    (hans : r.answer device = some regs) :
    Answered (fun _ _ _ => .registers regs) (readExchange env ctx r d) := by
  have hx' : env.read d.trace ctx r.func r.start r.qty =
        (refusingCall (r.answer device)).map .registers := hx
  rw [hans] at hx'
  exact hx'

theorem readStep_answeredBy_ok (hx : AnsweredBy device (readExchange env ctx r d)) :
    (readStep env ctx r d).1 = .ok () := by
  cases hans : r.answer device with
  | none => rw [readStep_refused hx hans]
  | some regs => rw [readStep_answered (answered_of_some hx hans)]

/-- What a request leaves in a tag of its group that it settles. -/
def ReadRequest.outcome (r : ReadRequest) (chrono : Chrono) (device : Refusing) (m : ModbusMapping) :
    Option TagValue :=
  match r.answer device with
  | none => none
  | some regs => r.result chrono (beBytes regs) m

theorem shows_outcome (hr : 0 < r.qty.toNat) (hm : 0 < m.len) (hmem : m ∈ r.members)
    (hids : r.ids.Nodup) (hreg : d.Registered m.tagId m.dataType)
    (hsettles : r.answer device = none ∨ Meets r.span m.lo m.len)
    (hx : AnsweredBy device (readExchange env ctx r d)) :
    Shows (readStep env ctx r d).2 m.tagId (r.outcome env.chrono device m) := by
  unfold ReadRequest.outcome
  cases hans : r.answer device with
  | none =>
      obtain ⟨old, hold⟩ := Option.isSome_iff_exists.mp hreg.2
      have hrec : (d.record (readExchange env ctx r d)).view m.tagId = some old := hold
      have hid : m.tagId ∈ r.ids := List.mem_map_of_mem hmem
      rw [readStep_refused hx hans]
      refine ⟨old.1, ?_⟩
      rw [DriverState.view_markAll, if_pos hid, hrec]
      rfl
  | some regs =>
      have hmeets : Meets r.span m.lo m.len := by
        rcases hsettles with h | h
        · rw [hans] at h
          exact absurd h (by simp)
        · exact h
      have hpayload : r.payload (fun _ _ _ => .registers regs) = beBytes regs := rfl
      show Shows _ _ (r.result env.chrono (beBytes regs) m)
      rw [← hpayload]
      exact shows_readStep hr hm hmem hids hmeets hreg (answered_of_some hx hans)

-- ============================================================================
-- The requests of a group
-- ============================================================================

variable {mappings : List ModbusMapping} {g : Group} {rs₁ rs₂ : List ReadRequest}

/-- Requests behind the one that reads a mapping's last register do not touch
    the mapping, and those before it end where it starts or earlier. -/
theorem around_end (hg : g.InSpace) (hreqs : groupRequests m.function g = rs₁ ++ r :: rs₂)
    (hends : r.Ends m) :
    (∀ r' ∈ rs₁, r'.start.toNat + r'.qty.toNat ≤ r.start.toNat) ∧
    ∀ r' ∈ rs₂, m.lo + m.len ≤ r'.start.toNat := by
  have hasc : (groupRequests m.function g).Pairwise fun a b =>
      a.start.toNat + a.qty.toNat ≤ b.start.toNat := by
    have hchunks := chunks_ascending (maxAllowed m.function).toNat g.toBlock.start g.toBlock.len
    rw [← groupRequests_spans hg, List.pairwise_map] at hchunks
    exact hchunks
  rw [hreqs, List.pairwise_append, List.pairwise_cons] at hasc
  refine ⟨fun r' hr' => hasc.2.2 r' hr' r (List.mem_cons_self ..), fun r' hr' => ?_⟩
  have hnext := hasc.2.1.1 r' hr'
  have hend := hends.2
  omega

/-- A request that touches a mapping is one of the mapping's group. -/
theorem mem_group_of_touches {order : FuncOrder} (hspace : ∀ m ∈ mappings, m.InSpace)
    (hg : g ∈ funcGroups mappings m.function) (hmg : m ∈ g.members)
    (hr : r ∈ readPlan order mappings) (htouch : r.Touches m) : r ∈ groupRequests m.function g := by
  obtain ⟨hfunc, hmeets⟩ := htouch
  obtain ⟨g', hg', hr'⟩ := mem_readPlan hr
  rw [hfunc] at hg' hr'
  obtain ⟨hgspace, hsound, -⟩ := funcGroups_spec hspace hg
  have hgspace' := (funcGroups_spec hspace hg').1
  have hstart := (groupRequests_start hgspace' hr').1
  have hend := groupRequests_end hgspace' hr'
  have hin := hsound.inside m hmg
  -- Different groups are apart, but these two share an address.
  have hsame : g' = g := by
    by_contra hne
    have hsep := funcGroups_apart hspace hg' hg hne
    simp only [Meets, ReadRequest.span, Group.toBlock] at hmeets hin
    omega
  rw [hsame] at hr'
  exact hr'

/-- What the requests leave of a mapping in the one that reads its end. -/
theorem result_of_ends {chrono : Chrono} {regs : List UInt16} (hlen : regs.length = r.qty.toNat)
    (hm : 0 < m.len) (hends : r.Ends m) :
    (r.result chrono (beBytes regs) m).isSome ↔
      m.Decodes (m.lo + m.len - max r.start.toNat m.lo) := by
  obtain ⟨h1, h2⟩ := hends
  have hmeets : Meets r.span m.lo m.len := ⟨by simp only [ReadRequest.span]; omega, h1⟩
  have hpart : ((regs.drop ((overlap r.span m.lo m.len).1 - r.start.toNat)).take
      (overlap r.span m.lo m.len).2).length = m.lo + m.len - max r.start.toNat m.lo := by
    rw [List.length_take, List.length_drop, hlen]
    simp only [overlap, ReadRequest.span]
    omega
  rw [result_of_registers hlen hmeets, isSome_decodeRegisters, hpart]
  rfl

-- ============================================================================
-- One tag after the cycle
-- ============================================================================

/-- The last request of a tag's group that is refused or meets the tag decides
    what the cycle leaves in it. -/
theorem shows_outcome_after_cycle (hspace : ∀ m ∈ mappings, m.InSpace)
    (hnodup : (mappings.map ModbusMapping.tagId).Nodup) (hg : g ∈ funcGroups mappings m.function)
    (hmg : m ∈ g.members) (hreqs : groupRequests m.function g = rs₁ ++ r :: rs₂)
    (hsettles : r.answer device = none ∨ Meets r.span m.lo m.len)
    (hlater : ∀ r' ∈ rs₂, (r'.answer device).isSome ∧ ¬ Meets r'.span m.lo m.len)
    (hreg : d.Registered m.tagId m.dataType) (hw : WritesGoThrough env mappings d)
    (hans : AllNew (AnsweredBy device) d (runReadCycleImpl env mappings d).2) :
    Shows (runReadCycleImpl env mappings d).2 m.tagId (r.outcome env.chrono device m) := by
  have hmpos := (hspace m (mem_funcGroups_members hg hmg).1).pos
  refine decided_after_cycle (Q := fun d' => Shows d' m.tagId (r.outcome env.chrono device m))
    hnodup hg hmg hreqs (fun d₁ d₂ hview hshows => hshows.congr hview)
    (fun _ _ _ hx => readStep_answeredBy_ok hx) ?_ ?_ hw hans
  · intro ctx d₁ hext hx
    obtain ⟨hr, hmem, hids⟩ := of_mem_groupRequests hspace hnodup hg hmg
      (show r ∈ groupRequests m.function g by rw [hreqs]; simp)
    exact shows_outcome hr hmpos hmem hids (hext.registered hreg) hsettles hx
  · intro r' hr' ctx d₁ hx
    obtain ⟨hr, hmem, hids⟩ := of_mem_groupRequests hspace hnodup hg hmg
      (show r' ∈ groupRequests m.function g by rw [hreqs]; simp [hr'])
    obtain ⟨hsome, hnot⟩ := hlater r' hr'
    obtain ⟨regs, hregs⟩ := Option.isSome_iff_exists.mp hsome
    exact view_readStep_of_not_meets hr hmpos hmem hids hnot (answered_of_some hx hregs)

/-- The request that reads the end of a tag decides it, unless a later one of
    the group is refused. -/
theorem shows_after_refusals (hspace : ∀ m ∈ mappings, m.InSpace)
    (hnodup : (mappings.map ModbusMapping.tagId).Nodup) (hg : g ∈ funcGroups mappings m.function)
    (hmg : m ∈ g.members) (hreqs : groupRequests m.function g = rs₁ ++ r :: rs₂) (hends : r.Ends m)
    (hreg : d.Registered m.tagId m.dataType) (hw : WritesGoThrough env mappings d)
    (hans : AllNew (AnsweredBy device) d (runReadCycleImpl env mappings d).2) :
    Shows (runReadCycleImpl env mappings d).2 m.tagId
      (if ∀ r' ∈ rs₂, (r'.answer device).isSome then r.outcome env.chrono device m else none) := by
  have hbehind := (around_end (funcGroups_spec hspace hg).1 hreqs hends).2
  have hnot : ∀ r' ∈ rs₂, ¬ Meets r'.span m.lo m.len := by
    intro r' hr' hmeets
    have hbefore : r'.start.toNat < m.lo + m.len := hmeets.2
    exact absurd (hbehind r' hr') (by omega)
  by_cases hall : ∀ r' ∈ rs₂, (r'.answer device).isSome
  · rw [if_pos hall]
    have hpos := (hspace m (mem_funcGroups_members hg hmg).1).pos
    have hmeets : Meets r.span m.lo m.len :=
      ⟨Nat.lt_of_lt_of_le (Nat.lt_add_of_pos_right hpos) hends.2, hends.1⟩
    exact shows_outcome_after_cycle hspace hnodup hg hmg hreqs (.inr hmeets)
      (fun r' hr' => ⟨hall r' hr', hnot r' hr'⟩) hreg hw hans
  · rw [if_neg hall]
    -- The last refused request is behind everything that meets the tag.
    obtain ⟨l₁, r', l₂, rfl, hrefused, hl₂⟩ :=
      exists_last_split (p := fun r' : ReadRequest => ¬ (r'.answer device).isSome) (by simpa using hall)
    have hnone : r'.answer device = none := by simpa using hrefused
    have hreqs' : groupRequests m.function g = (rs₁ ++ r :: l₁) ++ r' :: l₂ := by
      rw [hreqs]
      simp
    have hshows := shows_outcome_after_cycle hspace hnodup hg hmg hreqs' (.inl hnone)
      (fun b hb => ⟨not_not.mp (hl₂ b hb), hnot b (by simp [hb])⟩) hreg hw hans
    rwa [ReadRequest.outcome, hnone] at hshows

/-- The value a request leaves in a tag whose end it reads. -/
theorem outcome_of_ends {chrono : Chrono} {regs : List UInt16} (hans : r.answer device = some regs)
    (hlen : regs.length = r.qty.toNat) (hm : 0 < m.len) (hends : r.Ends m) :
    (r.outcome chrono device m).isSome ↔ m.Decodes (m.lo + m.len - max r.start.toNat m.lo) := by
  rw [ReadRequest.outcome, hans]
  exact result_of_ends hlen hm hends

/-- A request that holds a tag leaves the decode of all its registers. -/
theorem outcome_of_holds {chrono : Chrono} {regs : List UInt16} (hans : r.answer device = some regs)
    (hlen : regs.length = r.qty.toNat) (hm : 0 < m.len) (hholds : r.Holds m) :
    r.outcome chrono device m =
      (m.decodeRegisters chrono ((regs.drop (m.lo - r.start.toNat)).take m.len)).toOption := by
  obtain ⟨-, h1, h2⟩ := hholds
  have hmeets : Meets r.span m.lo m.len := by
    simp only [Meets, ReadRequest.span]
    omega
  have hoverlap : overlap r.span m.lo m.len = (m.lo, m.len) := by
    simp only [overlap, ReadRequest.span, Prod.mk.injEq]
    omega
  rw [ReadRequest.outcome, hans]
  show r.result chrono (beBytes regs) m = _
  rw [result_of_registers hlen hmeets, hoverlap]

-- ============================================================================
-- Poisoned tags
-- ============================================================================

/-- A request that touches a mapping and is not behind the one that reads its
    end is that one or stands before it. -/
theorem touching_request (hspace : ∀ m ∈ mappings, m.InSpace) {order : FuncOrder}
    (hg : g ∈ funcGroups mappings m.function) (hmg : m ∈ g.members)
    (hreqs : groupRequests m.function g = rs₁ ++ r :: rs₂) (hends : r.Ends m) {r' : ReadRequest}
    (hr' : r' ∈ readPlan order mappings) (htouch : r'.Touches m) : r' ∈ rs₁ ∨ r' = r := by
  have hbehind := (around_end (funcGroups_spec hspace hg).1 hreqs hends).2
  have hmem := mem_group_of_touches hspace hg hmg hr' htouch
  rw [hreqs, List.mem_append, List.mem_cons] at hmem
  rcases hmem with h | h | h
  · exact .inl h
  · exact .inr h
  · have hbefore : r'.start.toNat < m.lo + m.len := htouch.2.2
    exact absurd (hbehind r' h) (by omega)

theorem ReadRequest.Holds.touches (h : r.Holds m) (hm : 0 < m.len) : r.Touches m := by
  obtain ⟨hfunc, h1, h2⟩ := h
  refine ⟨hfunc, ?_⟩
  simp only [Meets, ReadRequest.span]
  omega

section Cycle

variable (hspace : ∀ m ∈ mappings, m.InSpace) (hnodup : (mappings.map ModbusMapping.tagId).Nodup)
  (hreg : ∀ m ∈ mappings, d.Registered m.tagId m.dataType)
  (hlen : ∀ func start qty regs, device func start qty = some regs → regs.length = qty.toNat)
  (hw : WritesGoThrough env mappings d)
  (hans : AllNew (AnsweredBy device) d (runReadCycleImpl env mappings d).2)

include hspace hnodup hreg hlen hw hans

theorem spared_of_unpoisoned
    (hun : Unpoisoned env.chrono device env.order mappings (runReadCycleImpl env mappings d).2)
    (hm : m ∈ mappings) : m.Spared device mappings := by
  intro g hg hmg rs₁ r rs₂ hreqs hends hsome
  have hpos := (hspace m hm).pos
  obtain ⟨regs, hregs⟩ := Option.isSome_iff_exists.mp hsome
  have hshows := shows_after_refusals hspace hnodup hg hmg hreqs hends (hreg m hm) hw hans
  have hdec := @outcome_of_ends device m r env.chrono regs hregs (hlen _ _ _ _ hregs) hpos hends
  have hmem : ∀ r' ∈ rs₁ ++ [r], r'.func = m.function ∧ r' ∈ readPlan env.order mappings := by
    intro r' hr'
    have hin : r' ∈ groupRequests m.function g := by
      rw [hreqs, List.append_cons]
      exact List.mem_append_left _ hr'
    exact ⟨(mem_groupRequests hin).1, mem_readPlan_of_group hg hin⟩
  refine ⟨?_, ?_⟩
  · intro hstart
    obtain ⟨hrfunc, hplan⟩ := hmem r (by simp)
    obtain ⟨v, -, hview⟩ := hun.inside m hm r hplan ⟨hrfunc, hstart, hends.2⟩ regs hregs
    have heq := hshows.unique (b := some v) hview
    split at heq
    case isTrue hall =>
      rw [Nat.max_eq_right hstart, Nat.add_sub_cancel_left, heq] at hdec
      exact ⟨hdec.mp rfl, hall⟩
    case isFalse => exact absurd heq (by simp)
  · rintro ⟨r₀, hr₀, hmeets, hrefused⟩ hdecodes
    obtain ⟨hrfunc, hplan⟩ := hmem r₀ (by simp [hr₀])
    have heq := hshows.unique (b := none) (hun.touched m hm r₀ hplan ⟨hrfunc, hmeets⟩ hrefused)
    -- An earlier request touches the tag, so this one reads a tail of it.
    have hcut : m.lo ≤ r.start.toNat := by
      have hbefore := (around_end (funcGroups_spec hspace hg).1 hreqs hends).1 r₀ hr₀
      have hover : m.lo < r₀.start.toNat + r₀.qty.toNat := hmeets.1
      omega
    split at heq
    case isTrue hall =>
      rw [Nat.max_eq_left hcut, heq] at hdec
      exact absurd (hdec.mpr hdecodes) (by simp)
    case isFalse hnot => simpa using hnot

theorem good_of_spared (hm : m ∈ mappings) (hspared : m.Spared device mappings)
    (hr : r ∈ readPlan env.order mappings) (hholds : r.Holds m) {regs : List UInt16}
    (hregs : r.answer device = some regs) :
    ∃ v, m.decodeRegisters env.chrono ((regs.drop (m.lo - r.start.toNat)).take m.len) = .ok v ∧
      (runReadCycleImpl env mappings d).2.view m.tagId = some (v, .good) := by
  have hpos := (hspace m hm).pos
  obtain ⟨g, hg, hmg⟩ := exists_group hm
  obtain ⟨rs₁, r', rs₂, hreqs, h1, h2, hbefore, -⟩ := exists_last_request hspace hg hmg
  have hends : r'.Ends m := ⟨h1, h2⟩
  -- Only the request that reads the tag's end can hold all of it.
  have hsame : r = r' := by
    refine (touching_request hspace hg hmg hreqs hends hr (hholds.touches hpos)).resolve_left ?_
    intro hin
    have hend := hbefore r hin
    have hend' := hholds.2.2
    omega
  subst hsame
  obtain ⟨hdecodes, hall⟩ :=
    (hspared g hg hmg rs₁ r rs₂ hreqs hends (by rw [hregs]; rfl)).1 hholds.2.1
  have hshows := shows_after_refusals hspace hnodup hg hmg hreqs hends (hreg m hm) hw hans
  have hsome := (@outcome_of_ends device m r env.chrono regs hregs (hlen _ _ _ _ hregs) hpos hends).mpr
    (by rwa [Nat.max_eq_right hholds.2.1, Nat.add_sub_cancel_left])
  rw [if_pos hall] at hshows
  rw [outcome_of_holds hregs (hlen _ _ _ _ hregs) hpos hholds] at hshows hsome
  cases hv : m.decodeRegisters env.chrono ((regs.drop (m.lo - r.start.toNat)).take m.len) with
  | ok v =>
      rw [hv] at hshows
      exact ⟨v, rfl, hshows⟩
  | error e =>
      rw [hv] at hsome
      exact absurd hsome (by simp [Except.toOption])

theorem configError_of_spared (hm : m ∈ mappings) (hspared : m.Spared device mappings)
    (hr : r ∈ readPlan env.order mappings) (htouch : r.Touches m) (hrefused : r.answer device = none) :
    ∃ v, (runReadCycleImpl env mappings d).2.view m.tagId = some (v, .configError) := by
  obtain ⟨g, hg, hmg⟩ := exists_group hm
  obtain ⟨rs₁, r', rs₂, hreqs, h1, h2, hbefore, -⟩ := exists_last_request hspace hg hmg
  have hends : r'.Ends m := ⟨h1, h2⟩
  have hshows := shows_after_refusals hspace hnodup hg hmg hreqs hends (hreg m hm) hw hans
  have hnone : (if ∀ r'' ∈ rs₂, (r''.answer device).isSome then r'.outcome env.chrono device m
      else none) = none := by
    split
    case isFalse => rfl
    case isTrue hall =>
      rcases touching_request hspace hg hmg hreqs hends hr htouch with hin | rfl
      · by_contra hne
        cases hregs : r'.answer device with
        | none => exact hne (by rw [ReadRequest.outcome, hregs])
        | some regs =>
            have hdec := (outcome_of_ends hregs (hlen _ _ _ _ hregs) (hspace m hm).pos hends).mp
              (Option.isSome_iff_ne_none.mpr hne)
            have hcut : m.lo ≤ r'.start.toNat := by
              have hend := hbefore r hin
              have hover : m.lo < r.start.toNat + r.qty.toNat := htouch.2.1
              omega
            rw [Nat.max_eq_left hcut] at hdec
            obtain ⟨r'', hr'', hlate⟩ := (hspared g hg hmg rs₁ r' rs₂ hreqs hends
              (by rw [hregs]; rfl)).2 ⟨r, hin, htouch.2, hrefused⟩ hdec
            exact absurd (hall r'' hr'') (by simp [hlate])
      · rw [ReadRequest.outcome, hrefused]
  rw [hnone] at hshows
  exact hshows

end Cycle

/-- Over every accepted list of mappings and every assignment of registers and
    illegal data address to the reads of a cycle, a refused request poisons
    nothing but the tags it touches exactly when every mapping is spared. -/
theorem refusal_unpoisoned_iff {vorder : FuncOrder} (hval : validate vorder mappings = .ok ())
    (hle : ∀ m ∈ mappings, m.address.toNat + m.quantity.toNat ≤ 65535)
    (hnodup : (mappings.map ModbusMapping.tagId).Nodup)
    (hreg : ∀ m ∈ mappings, d.Registered m.tagId m.dataType)
    (hlen : ∀ func start qty regs, device func start qty = some regs → regs.length = qty.toNat)
    (hw : WritesGoThrough env mappings d)
    (hans : AllNew (AnsweredBy device) d (runReadCycleImpl env mappings d).2) :
    Unpoisoned env.chrono device env.order mappings (runReadCycleImpl env mappings d).2 ↔
      ∀ m ∈ mappings, m.Spared device mappings := by
  have hspace : ∀ m ∈ mappings, m.InSpace := fun m hm =>
    ⟨((of_validate hval).1 m hm).quantity_pos, hle m hm⟩
  constructor
  · intro hun m hm
    exact spared_of_unpoisoned hspace hnodup hreg hlen hw hans hun hm
  · intro hspared
    refine ⟨?_, ?_⟩
    · intro m hm r hr hholds regs hregs
      exact good_of_spared hspace hnodup hreg hlen hw hans hm (hspared m hm) hr hholds hregs
    · intro m hm r hr htouch hrefused
      exact configError_of_spared hspace hnodup hreg hlen hw hans hm (hspared m hm) hr htouch hrefused

/-- A device that reads registers as assigned, refuses every bit and
    acknowledges every write. -/
def Env.refusing (device : Refusing) : Env where
  chrono := .rejecting
  clock := fun _ => .unixEpoch
  order := .declared
  readRegisters := fun _ _ func start qty => refusingCall (device func start qty)
  readBits := fun _ _ _ _ _ => .exception .illegalDataAddress
  writeMultipleRegisters := fun _ _ _ _ => .ok ()

theorem answeredBy_refusing (hbits : ∀ func start qty, func.isBit → device func start qty = none)
    (mappings : List ModbusMapping) (d : State) :
    AllNew (AnsweredBy device) d (runReadCycleImpl (Env.refusing device) mappings d).2 := by
  refine allNew_cycle (drainWrites_of_acknowledged (fun _ _ _ _ => rfl) 64 d)
    (fun _ _ _ _ _ => trivial) ?_
  intro ctx r d₁
  show (Env.refusing device).read d₁.trace ctx r.func r.start r.qty =
    (refusingCall (device r.func r.start r.qty)).map .registers
  cases r.func with
  | coils =>
      rw [hbits _ _ _ (.inl rfl)]
      rfl
  | discreteInputs =>
      rw [hbits _ _ _ (.inr rfl)]
      rfl
  | holdingRegisters => rfl
  | inputRegisters => rfl

/-- A level in register 0 and a byte string in the 125 registers behind it. -/
def edgeMappings : List ModbusMapping :=
  [{ tagId := "level", dataType := .uint16, address := 0, quantity := 1,
     function := .holdingRegisters },
   { tagId := "blob", dataType := .byteString, address := 1, quantity := 125,
     function := .holdingRegisters }]

def edgeState : State :=
  .new (.ofDefinitions [.new "level" "level" "0" .uint16 "plc", .new "blob" "blob" "1" .byteString "plc"])
    () []

/-- A device with 125 holding registers, all 7. -/
def shortDevice : Refusing := fun func start qty =>
  if func = .holdingRegisters ∧ start.toNat + qty.toNat ≤ 125 then some (List.replicate qty.toNat 7)
  else none

theorem registered_edgeState : ∀ m ∈ edgeMappings, edgeState.Registered m.tagId m.dataType := by
  intro m hm
  simp only [edgeMappings, List.mem_cons, List.not_mem_nil, or_false] at hm
  rcases hm with rfl | rfl
  · exact ⟨by decide +kernel, by decide +kernel⟩
  · exact ⟨by decide +kernel, by decide +kernel⟩

theorem length_shortDevice (func : ModbusFunction) (start qty : UInt16) (regs : List UInt16)
    (h : shortDevice func start qty = some regs) : regs.length = qty.toNat := by
  unfold shortDevice at h
  split at h
  · obtain rfl := Option.some.inj h
    exact List.length_replicate
  · exact absurd h (by simp)

theorem shortDevice_bits (func : ModbusFunction) (start qty : UInt16) (h : func.isBit) :
    shortDevice func start qty = none := by
  rcases h with rfl | rfl <;> rfl

theorem refusal_unpoisoned_iff_edge :
    Unpoisoned .rejecting shortDevice .declared edgeMappings
      (runReadCycleImpl (Env.refusing shortDevice) edgeMappings edgeState).2 ↔
      ∀ m ∈ edgeMappings, m.Spared shortDevice edgeMappings :=
  @refusal_unpoisoned_iff shortDevice (Env.refusing shortDevice) edgeState edgeMappings .declared
    (by decide) (by decide) (by decide) registered_edgeState length_shortDevice
    (drainWrites_of_acknowledged (fun _ _ _ _ => rfl) 64 edgeState)
    (answeredBy_refusing shortDevice_bits edgeMappings edgeState)

/-- The first request, registers 0 to 124, is answered and holds the level; the
    second, register 125, is refused and leaves the level ConfigError. -/
theorem refusal_poisons :
    validate .declared edgeMappings = .ok () ∧
    (∀ m ∈ edgeMappings, m.function.isRegister) ∧
    (∀ m ∈ edgeMappings, m.address.toNat + m.quantity.toNat ≤ 65535) ∧
    (edgeMappings.map ModbusMapping.tagId).Nodup ∧
    (∀ m ∈ edgeMappings, edgeState.Registered m.tagId m.dataType) ∧
    AllNew (AnsweredBy shortDevice) edgeState
      (runReadCycleImpl (Env.refusing shortDevice) edgeMappings edgeState).2 ∧
    ((readPlan .declared edgeMappings).map fun r => (r.start, r.qty)) = [(0, 125), (125, 1)] ∧
    (runReadCycleImpl (Env.refusing shortDevice) edgeMappings edgeState).2.view "level" =
      some (.uint16 7, .configError) ∧
    ¬ Unpoisoned .rejecting shortDevice .declared edgeMappings
      (runReadCycleImpl (Env.refusing shortDevice) edgeMappings edgeState).2 := by
  have hview : (runReadCycleImpl (Env.refusing shortDevice) edgeMappings edgeState).2.view "level" =
      some (.uint16 7, .configError) := by decide +kernel
  refine ⟨by decide, ?_, by decide, by decide, registered_edgeState,
    answeredBy_refusing shortDevice_bits _ _, by decide +kernel, hview, ?_⟩
  · unfold ModbusFunction.isRegister
    decide
  intro hun
  have hplan : ∃ r ∈ readPlan .declared edgeMappings, r.func = .holdingRegisters ∧
      r.start = 0 ∧ r.qty = 125 := by decide +kernel
  obtain ⟨r, hr, hfunc, hstart, hqty⟩ := hplan
  have hanswer : r.answer shortDevice = some (List.replicate 125 7) := by
    rw [ReadRequest.answer, hfunc, hstart, hqty]
    decide +kernel
  obtain ⟨v, -, hgood⟩ := hun.inside _ (List.mem_cons_self ..) r hr
    ⟨hfunc, by rw [hstart]; decide, by rw [hstart, hqty]; decide⟩ _ hanswer
  rw [hview] at hgood
  exact absurd hgood (by simp)

end PlcBridge.Modbus
