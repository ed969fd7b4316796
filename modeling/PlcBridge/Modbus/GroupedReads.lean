/-
  PlcBridge.Modbus.GroupedReads

  What a Modbus cycle leaves in each tag when every read is answered.  A tag
  ends with the decode of the last request that meets its range; whether that
  is the decode of the whole range, and so what reading the tag alone would
  give, depends on where the request boundaries fall.
-/
import PlcBridge.Modbus.Steps

namespace PlcBridge.Modbus

open PlcBridge.Lib
open PlcBridge.DriverState (Extends AllNew)

-- ============================================================================
-- Answered reads
-- ============================================================================

/-- The tag is Good with the given value, or ConfigError if there is none. -/
def Shows (d : State) (id : String) (result : Option TagValue) : Prop :=
  match result with
  | some v => d.view id = some (v, .good)
  | none => ∃ v, d.view id = some (v, .configError)

theorem Shows.unique {d : State} {id : String} {a b : Option TagValue} (ha : Shows d id a)
    (hb : Shows d id b) : a = b := by
  cases a with
  | none =>
      obtain ⟨v, hv⟩ := ha
      cases b with
      | none => rfl
      | some w => simp [Shows, hv] at hb
  | some v =>
      cases b with
      | none =>
          obtain ⟨w, hw⟩ := hb
          simp [Shows, hw] at ha
      | some w =>
          have hvw : some (v, TagQuality.good) = some (w, .good) := ha.symm.trans hb
          simpa using hvw

theorem Shows.congr {d d' : State} {id : String} {a : Option TagValue} (h : Shows d id a)
    (hview : d'.view id = d.view id) : Shows d' id a := by
  cases a with
  | none =>
      obtain ⟨v, hv⟩ := h
      exact ⟨v, hview.trans hv⟩
  | some v => exact hview.trans h

/-- The read was answered with the given data. -/
def Answered (data : ModbusFunction → UInt16 → UInt16 → ReadData) : Exchange → Prop
  | .read _ func start qty result => result = .ok (data func start qty)
  | .write .. => True

variable {env : Env} {ctx : Nat} {data : ModbusFunction → UInt16 → UInt16 → ReadData}

/-- The payload of an answered request. -/
def ReadRequest.payload (r : ReadRequest) (data : ModbusFunction → UInt16 → UInt16 → ReadData) :
    List UInt8 := (data r.func r.start r.qty).rawBytes

theorem readStep_answered {r : ReadRequest} {d : State} (hx : Answered data (readExchange env ctx r d)) :
    readStep env ctx r d = (.ok (), r.members.foldl (extractMapping env r (r.payload data))
      (d.record (readExchange env ctx r d))) := by
  have hres : env.read d.trace ctx r.func r.start r.qty = .ok (data r.func r.start r.qty) := hx
  obtain ⟨data', hdata', heq⟩ | ⟨err, herr, -⟩ := readStep_cases env ctx r d
  · rw [hres] at hdata'
    rw [heq, ← CallResult.ok.inj hdata']
    rfl
  · rw [hres] at herr
    exact absurd herr (by simp [CallResult.payload])

/-- Answered reads never stop the run. -/
theorem runReads_answered {rs : List ReadRequest} {d : State}
    (h : AllNew (Answered data) d (runList (readStep env ctx) rs d).2) :
    ∃ d', runList (readStep env ctx) rs d = (.ok (), d') :=
  (readLoop env ctx).run_ok (fun _ _ _ hx => congrArg Prod.fst (readStep_answered hx)) h

-- ============================================================================
-- One tag in an answered run
-- ============================================================================

variable {m : ModbusMapping}

/-- What extraction makes of a mapping that meets the request. -/
def ReadRequest.result (r : ReadRequest) (chrono : Chrono) (raw : List UInt8) (m : ModbusMapping) :
    Option TagValue :=
  if raw.length < (sliceBounds r m).1 + (sliceBounds r m).2 then none
  else (sliceValue chrono r raw m).toOption

theorem shows_extractMapping {r : ReadRequest} {raw : List UInt8} {d : State}
    (hr : 0 < r.qty.toNat) (hm : 0 < m.len) (h : Meets r.span m.lo m.len)
    (hreg : d.Registered m.tagId m.dataType) :
    Shows (extractMapping env r raw d m) m.tagId (r.result env.chrono raw m) := by
  obtain ⟨old, hold⟩ := Option.isSome_iff_exists.mp hreg.2
  unfold ReadRequest.result
  by_cases hshort : raw.length < (sliceBounds r m).1 + (sliceBounds r m).2
  · rw [if_pos hshort, extractMapping_of_short hr hm h hshort]
    exact ⟨old.1, by rw [DriverState.view_setTagQuality_self, hold]; rfl⟩
  · rw [if_neg hshort]
    have hview : (extractMapping env r raw d m).view m.tagId = _ :=
      view_extractMapping_of_meets hr hm h (by omega) hreg
    rw [hold] at hview
    cases hv : (sliceValue env.chrono r raw m).toOption with
    | some v =>
        rw [hv] at hview
        exact hview
    | none =>
        rw [hv] at hview
        exact ⟨old.1, hview⟩

/-- A member of an answered request that meets the mapping settles its tag. -/
theorem shows_readStep {r : ReadRequest} {d : State} (hr : 0 < r.qty.toNat) (hm : 0 < m.len)
    (hmem : m ∈ r.members) (hnodup : r.ids.Nodup) (h : Meets r.span m.lo m.len)
    (hreg : d.Registered m.tagId m.dataType) (hx : Answered data (readExchange env ctx r d)) :
    Shows (readStep env ctx r d).2 m.tagId (r.result env.chrono (r.payload data) m) := by
  rw [readStep_answered hx]
  obtain ⟨d₁, hext, -, hview⟩ := @view_foldl_extract env r (r.payload data)
    (d.record (readExchange env ctx r d)) m r.members hnodup hmem
  have hreg₁ := hext.registered
    ((DriverState.extends_record d (readExchange env ctx r d)).registered hreg)
  exact (shows_extractMapping hr hm h hreg₁).congr hview

/-- An answered request that does not meet the mapping leaves its tag alone. -/
theorem view_readStep_of_not_meets {r : ReadRequest} {d : State} (hr : 0 < r.qty.toNat)
    (hm : 0 < m.len) (hmem : m ∈ r.members) (hnodup : r.ids.Nodup)
    (h : ¬ Meets r.span m.lo m.len) (hx : Answered data (readExchange env ctx r d)) :
    (readStep env ctx r d).2.view m.tagId = d.view m.tagId := by
  rw [readStep_answered hx]
  obtain ⟨d₁, -, hsame, hview⟩ := @view_foldl_extract env r (r.payload data)
    (d.record (readExchange env ctx r d)) m r.members hnodup hmem
  rw [hview, extractMapping_of_not_meets hr hm h, hsame]
  rfl

-- ============================================================================
-- One tag after an answered cycle
-- ============================================================================

/-- The write phase does not end the cycle. -/
def WritesGoThrough (env : Env) (mappings : List ModbusMapping) (d : State) : Prop :=
  ∃ d', drainWrites env mappings 64 d = (.ok (), d')

/-- Without an aborting write among its exchanges, a cycle gets to its
    reads. -/
theorem writesGoThrough_of_allNew {mappings : List ModbusMapping} {P : Exchange → Prop}
    (hP : ∀ {ctx req address words result},
      P (.write ctx req address words result) → result.aborts = false) {d : State}
    (h : AllNew P d (runReadCycleImpl env mappings d).2) : WritesGoThrough env mappings d := by
  refine drainWrites_of_not_aborts hP ?_
  have hext := extends_drainWrites env mappings 64 d
  rw [runReadCycleImpl] at h
  rcases except_cases (drainWrites env mappings 64 d) with ⟨d', hd'⟩ | ⟨e, d', hd'⟩
  · rw [hd'] at h hext ⊢
    exact (h.split hext (extends_readPhase env mappings d')).1
  · rw [hd'] at h ⊢
    exact h

/-- Tags after the cycle are tags after its reads. -/
theorem exists_run_of_cycle {mappings : List ModbusMapping} {d : State}
    (hw : WritesGoThrough env mappings d) :
    ∃ ctx d₁, Extends d d₁ ∧
      (∀ P : Exchange → Prop,
        (∀ ctx req address words result, P (.write ctx req address words result)) → AllNew P d d₁) ∧
      Extends d₁ (runList (readStep env ctx) (readPlan env.order mappings) d₁).2 ∧
      (runReadCycleImpl env mappings d).2.trace =
        (runList (readStep env ctx) (readPlan env.order mappings) d₁).2.trace ∧
      ∀ id, (runReadCycleImpl env mappings d).2.view id =
        (runList (readStep env ctx) (readPlan env.order mappings) d₁).2.view id := by
  obtain ⟨d', hd'⟩ := hw
  have hext := extends_drainWrites env mappings 64 d
  rw [hd'] at hext
  refine ⟨d'.takeOrConnect.1, d'.takeOrConnect.2, hext.trans (DriverState.extends_takeOrConnect d'),
    ?_, extends_runReads env _ _ _, ?_⟩
  · intro P hP
    have hwrites := @allNew_drainWrites env P hP 64 d mappings
    rw [hd'] at hwrites
    intro xs hxs
    exact hwrites xs ((DriverState.trace_takeOrConnect d').symm.trans hxs)
  rw [runReadCycleImpl, hd']
  simp only [readPhase]
  rcases except_cases (runList (readStep env d'.takeOrConnect.1) (readPlan env.order mappings)
    d'.takeOrConnect.2) with ⟨d₂, h⟩ | ⟨e, d₂, h⟩
  · rw [h]
    exact ⟨rfl, fun _ => rfl⟩
  · rw [h]
    exact ⟨rfl, fun _ => rfl⟩

/-- What holds of every write and of every read holds of a cycle's exchanges. -/
theorem allNew_cycle {mappings : List ModbusMapping} {d : State} {P : Exchange → Prop}
    (hw : WritesGoThrough env mappings d)
    (hwrite : ∀ ctx req address words result, P (.write ctx req address words result))
    (hread : ∀ ctx r d₁, P (readExchange env ctx r d₁)) :
    AllNew P d (runReadCycleImpl env mappings d).2 := by
  obtain ⟨ctx, d₁, hext, hwrites, hrun, htrace, -⟩ := exists_run_of_cycle hw
  have hreads : AllNew P d₁ (runList (readStep env ctx) (readPlan env.order mappings) d₁).2 :=
    (readLoop env ctx).allNew_run (fun r _ d₂ => hread ctx r d₂) d₁
  intro xs hxs
  exact AllNew.join hext hrun (hwrites P hwrite) hreads xs (htrace.symm.trans hxs)

/-- The requests of a group list its members, once each. -/
theorem of_mem_groupRequests {mappings : List ModbusMapping} (hspace : ∀ m ∈ mappings, m.InSpace)
    (hnodup : (mappings.map ModbusMapping.tagId).Nodup) {g : Group}
    (hg : g ∈ funcGroups mappings m.function) (hmg : m ∈ g.members) {r : ReadRequest}
    (hr : r ∈ groupRequests m.function g) : 0 < r.qty.toNat ∧ m ∈ r.members ∧ r.ids.Nodup := by
  have hmem := (mem_groupRequests hr).2
  refine ⟨groupRequests_pos (funcGroups_spec hspace hg).1 hr, by rw [hmem]; exact hmg, ?_⟩
  rw [ReadRequest.ids, hmem]
  exact nodup_group_ids hnodup hg

/-- The last request of a tag's group that settles the tag decides what the
    cycle leaves in it, whatever came before. -/
theorem decided_after_cycle {mappings : List ModbusMapping}
    (hnodup : (mappings.map ModbusMapping.tagId).Nodup) {g : Group}
    (hg : g ∈ funcGroups mappings m.function) (hmg : m ∈ g.members) {rs₁ rs₂ : List ReadRequest}
    {r : ReadRequest} (hreqs : groupRequests m.function g = rs₁ ++ r :: rs₂) {P : Exchange → Prop}
    {Q : State → Prop} {d : State}
    (hcongr : ∀ d₁ d₂ : State, d₂.view m.tagId = d₁.view m.tagId → Q d₁ → Q d₂)
    (hgo : ∀ ctx r' d', P (readExchange env ctx r' d') → (readStep env ctx r' d').1 = .ok ())
    (hsettle : ∀ ctx d₁, Extends d d₁ → P (readExchange env ctx r d₁) → Q (readStep env ctx r d₁).2)
    (hkeep : ∀ r' ∈ rs₂, ∀ ctx d₁, P (readExchange env ctx r' d₁) →
      (readStep env ctx r' d₁).2.view m.tagId = d₁.view m.tagId)
    (hw : WritesGoThrough env mappings d) (hP : AllNew P d (runReadCycleImpl env mappings d).2) :
    Q (runReadCycleImpl env mappings d).2 := by
  obtain ⟨ctx, d₀, hext, -, hrun, htrace, hview⟩ := exists_run_of_cycle hw
  obtain ⟨o₁, o₂, g₁, g₂, horder, hgroups, -, hafter⟩ := exists_plan_split env.order hnodup hg hmg
  have hP₀ : AllNew P d₀ (runList (readStep env ctx) (readPlan env.order mappings) d₀).2 := by
    refine (AllNew.split hext hrun ?_).2
    intro xs hxs
    exact hP xs (htrace.trans hxs)
  obtain ⟨d', hok⟩ := (readLoop env ctx).run_ok (fun r' _ d' => hgo ctx r' d') hP₀
  refine hcongr d' _ ?_ ?_
  · rw [hview, show runList (readStep env ctx) _ d₀ = (.ok (), d') from hok]
  have hplan : readPlan env.order mappings =
      (o₁.flatMap (funcRequests mappings) ++ g₁.flatMap (groupRequests m.function) ++ rs₁) ++
        r :: (rs₂ ++ (g₂.flatMap (groupRequests m.function) ++ o₂.flatMap (funcRequests mappings))) := by
    rw [readPlan_split horder hgroups, hreqs]
    simp
  rw [hplan] at hP₀ hok
  refine (readLoop env ctx).run_decided hcongr ?_ ?_ hP₀ hok
  · intro d₁ d₂ hext₁ hx hstep
    have hQ := hsettle ctx d₁ (hext.trans hext₁) hx
    rwa [show readStep env ctx r d₁ = (.ok (), d₂) from hstep] at hQ
  · -- Nothing behind the deciding request touches the tag.
    intro r' hr' d₁ d₂ hx hstep
    rcases List.mem_append.mp hr' with hr' | hr'
    · have hkept := hkeep r' hr' ctx d₁ hx
      rwa [show readStep env ctx r' d₁ = (.ok (), d₂) from hstep] at hkept
    · exact (readLoop env ctx).view_step_kept (hafter r' hr') hstep

/-- After an answered cycle a tag shows what the last request that meets its
    range gave. -/
theorem shows_after_cycle {mappings : List ModbusMapping} (hspace : ∀ m ∈ mappings, m.InSpace)
    (hnodup : (mappings.map ModbusMapping.tagId).Nodup) {g : Group}
    (hg : g ∈ funcGroups mappings m.function) (hmg : m ∈ g.members) {rs₁ rs₂ : List ReadRequest}
    {r : ReadRequest} (hreqs : groupRequests m.function g = rs₁ ++ r :: rs₂)
    (hmeets : Meets r.span m.lo m.len) (hlater : ∀ r' ∈ rs₂, m.lo + m.len ≤ r'.start.toNat)
    {d : State} (hreg : d.Registered m.tagId m.dataType) (hw : WritesGoThrough env mappings d)
    (hans : AllNew (Answered data) d (runReadCycleImpl env mappings d).2) :
    Shows (runReadCycleImpl env mappings d).2 m.tagId (r.result env.chrono (r.payload data) m) := by
  have hmpos := (hspace m (mem_funcGroups_members hg hmg).1).pos
  refine decided_after_cycle
    (Q := fun d' => Shows d' m.tagId (r.result env.chrono (r.payload data) m)) hnodup hg hmg hreqs
    (fun d₁ d₂ hview hshows => hshows.congr hview)
    (fun _ _ _ hx => congrArg Prod.fst (readStep_answered hx)) ?_ ?_ hw hans
  · intro ctx d₁ hext hx
    obtain ⟨hr, hmem, hids⟩ := of_mem_groupRequests hspace hnodup hg hmg
      (show r ∈ groupRequests m.function g by rw [hreqs]; simp)
    exact shows_readStep hr hmpos hmem hids hmeets (hext.registered hreg) hx
  · intro r' hr' ctx d₁ hx
    obtain ⟨hr, hmem, hids⟩ := of_mem_groupRequests hspace hnodup hg hmg
      (show r' ∈ groupRequests m.function g by rw [hreqs]; simp [hr'])
    refine view_readStep_of_not_meets hr hmpos hmem hids (fun hmeets' => ?_) hx
    have hbehind := hlater r' hr'
    have hbefore : r'.start.toNat < m.lo + m.len := hmeets'.2
    omega

-- ============================================================================
-- Register tables
-- ============================================================================

/-- The contents of a device's register and bit tables. -/
structure Tables where
  registers : ModbusFunction → Nat → UInt16
  bits : ModbusFunction → Nat → Bool

/-- Exactly the requested registers or bits. -/
def Tables.answer (t : Tables) (func : ModbusFunction) (start qty : UInt16) : ReadData :=
  match func with
  | .holdingRegisters | .inputRegisters =>
      .registers (window (t.registers func) start.toNat qty.toNat)
  | .coils | .discreteInputs => .bits (window (t.bits func) start.toNat qty.toNat)

/-- The functions that read registers. -/
def ModbusFunction.isRegister (func : ModbusFunction) : Prop :=
  func = .holdingRegisters ∨ func = .inputRegisters

theorem payload_registers {r : ReadRequest} (hfunc : r.func.isRegister) (t : Tables) :
    r.payload t.answer = beBytes (window (t.registers r.func) r.start.toNat r.qty.toNat) := by
  unfold ReadRequest.payload Tables.answer
  rcases hfunc with h | h <;> rw [h] <;> rfl

/-- The part of the registers a request's result is decoded from. -/
theorem result_of_registers {r : ReadRequest} {regs : List UInt16} {chrono : Chrono}
    (hlen : regs.length = r.qty.toNat) (hmeets : Meets r.span m.lo m.len) :
    r.result chrono (beBytes regs) m =
      (m.decodeRegisters chrono ((regs.drop ((overlap r.span m.lo m.len).1 - r.start.toNat)).take
        (overlap r.span m.lo m.len).2)).toOption := by
  have hbounds : (overlap r.span m.lo m.len).1 - r.start.toNat + (overlap r.span m.lo m.len).2
      ≤ r.qty.toNat := by
    simp only [Meets, overlap, ReadRequest.span] at hmeets ⊢
    omega
  have hslice : ((beBytes regs).drop (sliceBounds r m).1).take (sliceBounds r m).2
      = beBytes ((regs.drop ((overlap r.span m.lo m.len).1 - r.start.toNat)).take
          (overlap r.span m.lo m.len).2) := by
    rw [sliceBounds]
    simp only
    rw [drop_beBytes, take_beBytes]
  rw [ReadRequest.result, if_neg, sliceValue, hslice]
  · rfl
  · rw [length_beBytes, hlen, sliceBounds]
    omega

/-- The part of a table a request's result is decoded from. -/
theorem result_registers {r : ReadRequest} {t : Tables} {chrono : Chrono}
    (hfunc : r.func.isRegister) (hmeets : Meets r.span m.lo m.len) :
    r.result chrono (r.payload t.answer) m =
      (m.decodeRegisters chrono (window (t.registers r.func) (overlap r.span m.lo m.len).1
        (overlap r.span m.lo m.len).2)).toOption := by
  have hbounds : (overlap r.span m.lo m.len).1 - r.start.toNat + (overlap r.span m.lo m.len).2
      ≤ r.qty.toNat ∧ r.start.toNat ≤ (overlap r.span m.lo m.len).1 := by
    simp only [Meets, overlap, ReadRequest.span] at hmeets ⊢
    omega
  rw [payload_registers hfunc, result_of_registers (length_window ..) hmeets,
    take_drop_window _ _ _ _ _ hbounds.1, Nat.add_sub_cancel' hbounds.2]

/-- The request that holds the end of a range decodes what is left of it
    behind the request's start. -/
theorem result_registers_last {r : ReadRequest} {t : Tables} {chrono : Chrono}
    (hfunc : r.func = m.function) (hreg : m.function.isRegister)
    (h1 : r.start.toNat < m.lo + m.len) (h2 : m.lo + m.len ≤ r.start.toNat + r.qty.toNat)
    (hm : 0 < m.len) :
    r.result chrono (r.payload t.answer) m =
      (m.decodeRegisters chrono ((window (t.registers m.function) m.lo m.len).drop
        (r.start.toNat - m.lo))).toOption := by
  have hmeets : Meets r.span m.lo m.len := ⟨by simp only [ReadRequest.span]; omega, h1⟩
  have hpiece : overlap r.span m.lo m.len =
      (m.lo + (r.start.toNat - m.lo), m.len - (r.start.toNat - m.lo)) := by
    simp only [overlap, ReadRequest.span, Prod.mk.injEq]
    omega
  rw [result_registers (by rw [hfunc]; exact hreg) hmeets, hpiece, drop_window, hfunc]

/-- Every tag shows what decoding all registers of its own range gives. -/
def AgreesAlone (chrono : Chrono) (mappings : List ModbusMapping) (t : Tables) (d : State) : Prop :=
  ∀ m ∈ mappings, Shows d m.tagId
    (m.decodeRegisters chrono (window (t.registers m.function) m.lo m.len)).toOption

/-- A device that answers every read from its tables and acknowledges every
    write. -/
def Env.ofTables (t : Tables) : Env where
  chrono := .rejecting
  clock := fun _ => .unixEpoch
  order := .declared
  readRegisters := fun _ _ func start qty => .ok (window (t.registers func) start.toNat qty.toNat)
  readBits := fun _ _ func start qty => .ok (window (t.bits func) start.toNat qty.toNat)
  writeMultipleRegisters := fun _ _ _ _ => .ok ()

theorem writesGoThrough_ofTables (t : Tables) (mappings : List ModbusMapping) (d : State) :
    WritesGoThrough (Env.ofTables t) mappings d :=
  drainWrites_of_acknowledged (fun _ _ _ _ => rfl) 64 d

theorem answered_ofTables (t : Tables) (mappings : List ModbusMapping) (d : State) :
    AllNew (Answered t.answer) d (runReadCycleImpl (Env.ofTables t) mappings d).2 := by
  refine allNew_cycle (writesGoThrough_ofTables t mappings d) (fun _ _ _ _ _ => trivial) ?_
  intro ctx r d₁
  show Env.read _ _ _ r.func r.start r.qty = _
  cases r.func <;> rfl

-- ============================================================================
-- Grouped reads against reading each tag alone
-- ============================================================================

/-- Tables that hold `ws` from register `lo` on and zeros elsewhere. -/
def Tables.holding (lo : Nat) (ws : List UInt16) : Tables where
  registers := fun _ a => if lo ≤ a then ws.getD (a - lo) 0 else 0
  bits := fun _ _ => false

theorem window_holding (lo : Nat) (ws : List UInt16) (func : ModbusFunction) :
    window ((Tables.holding lo ws).registers func) lo ws.length = ws := by
  apply List.ext_getElem
  · rw [length_window]
  · intro i h1 h2
    rw [getElem_window, Tables.holding]
    simp only
    rw [if_pos (by omega), Nat.add_sub_cancel_left, List.getD_eq_getElem?_getD,
      List.getElem?_eq_getElem h2, Option.getD_some]

/-- For an accepted list of register mappings, every answered cycle leaves in
    every tag what reading it alone would, exactly when no request boundary
    cuts a tag for which it matters. -/
theorem grouped_reads_agree_iff {vorder : FuncOrder} {mappings : List ModbusMapping}
    (hval : validate vorder mappings = .ok ())
    (hfunc : ∀ m ∈ mappings, m.function = .holdingRegisters ∨ m.function = .inputRegisters)
    (hnodup : (mappings.map ModbusMapping.tagId).Nodup)
    (hle : ∀ m ∈ mappings, m.address.toNat + m.quantity.toNat ≤ 65535)
    {d : State} (hreg : ∀ m ∈ mappings, d.Registered m.tagId m.dataType) :
    (∀ (env : Env) (t : Tables), WritesGoThrough env mappings d →
      AllNew (Answered t.answer) d (runReadCycleImpl env mappings d).2 →
      AgreesAlone env.chrono mappings t (runReadCycleImpl env mappings d).2) ↔
    ∀ m ∈ mappings, m.ReadWhole mappings ∨ m.CutHarmless := by
  have hok := (of_validate hval).1
  have hspace : ∀ m ∈ mappings, m.InSpace := fun m hm => ⟨(hok m hm).quantity_pos, hle m hm⟩
  constructor
  · intro hall m hm
    by_contra hcut
    obtain ⟨hwhole, hharm⟩ := not_or.mp hcut
    obtain ⟨g, hg, hmg⟩ := exists_group hm
    obtain ⟨rs₁, r, rs₂, hreqs, h1, h2, -, hlater, hiff⟩ := exists_last_request hspace hg hmg
    have hstart : m.lo < r.start.toNat := by
      by_contra hstart
      exact hwhole (hiff.mp (by omega))
    have hmeets : Meets r.span m.lo m.len := ⟨by simp only [ReadRequest.span]; omega, h1⟩
    have hrfunc : r.func = m.function := (mem_groupRequests (by rw [hreqs]; simp)).1
    -- Some contents give the last piece another value than the whole range.
    have hne : ¬ ∀ ws : List UInt16, ws.length = m.quantity.toNat →
        (m.decodeRegisters Chrono.rejecting (ws.drop (r.start.toNat - m.lo))).toOption =
          (m.decodeRegisters Chrono.rejecting ws).toOption := by
      rw [decodeRegisters_drop_iff (hok m hm).bit_lt (by omega)
        (by simp only [ModbusMapping.len] at h1; omega)]
      exact hharm
    apply hne
    intro ws hws
    have hans := answered_ofTables (Tables.holding m.lo ws) mappings d
    have hw := writesGoThrough_ofTables (Tables.holding m.lo ws) mappings d
    have hshows := shows_after_cycle hspace hnodup hg hmg hreqs hmeets hlater (hreg m hm) hw hans
    have halone := hall _ (Tables.holding m.lo ws) hw hans m hm
    have hlen : m.len = ws.length := hws.symm
    rw [result_registers_last hrfunc (hfunc m hm) h1 h2 (hspace m hm).pos, hlen,
      window_holding] at hshows
    rw [hlen, window_holding] at halone
    exact hshows.unique halone
  · intro hcond env t hw hans m hm
    obtain ⟨g, hg, hmg⟩ := exists_group hm
    obtain ⟨rs₁, r, rs₂, hreqs, h1, h2, -, hlater, hiff⟩ := exists_last_request hspace hg hmg
    have hpos := (hspace m hm).pos
    have hmeets : Meets r.span m.lo m.len := ⟨by simp only [ReadRequest.span]; omega, h1⟩
    have hrfunc : r.func = m.function := (mem_groupRequests (by rw [hreqs]; simp)).1
    have hshows := shows_after_cycle hspace hnodup hg hmg hreqs hmeets hlater (hreg m hm) hw hans
    rw [result_registers_last hrfunc (hfunc m hm) h1 h2 hpos] at hshows
    by_cases hstart : r.start.toNat ≤ m.lo
    · rw [Nat.sub_eq_zero_of_le hstart, List.drop_zero] at hshows
      exact hshows
    · have hharm : m.CutHarmless := (hcond m hm).resolve_left fun h => hstart (hiff.mpr h)
      have hlen : (window (t.registers m.function) m.lo m.len).length = m.quantity.toNat :=
        length_window ..
      have hkq : r.start.toNat - m.lo < m.quantity.toNat := by
        show _ < m.len
        omega
      rw [decodeRegisters_drop hharm hlen (by omega) hkq] at hshows
      exact hshows

/-- A byte string of 124 registers with a 32-bit counter right behind it: the
    request boundary at 125 cuts the counter. -/
def cutMappings : List ModbusMapping :=
  [{ tagId := "blob", dataType := .byteString, address := 0, quantity := 124,
     function := .holdingRegisters },
   { tagId := "total", dataType := .uint32, address := 124, quantity := 2,
     function := .holdingRegisters }]

/-- A driver for these mappings, with both tags registered. -/
def cutState : State :=
  .new (.ofDefinitions [.new "blob" "blob" "0" .byteString "plc", .new "total" "total" "124" .uint32 "plc"])
    () []

theorem registered_cutState : ∀ m ∈ cutMappings, cutState.Registered m.tagId m.dataType := by
  intro m hm
  simp only [cutMappings, List.mem_cons, List.not_mem_nil, or_false] at hm
  rcases hm with rfl | rfl
  · exact ⟨by decide +kernel, by decide +kernel⟩
  · exact ⟨by decide +kernel, by decide +kernel⟩

theorem grouped_reads_agree_iff_cutMappings :
    (∀ (env : Env) (t : Tables), WritesGoThrough env cutMappings cutState →
      AllNew (Answered t.answer) cutState (runReadCycleImpl env cutMappings cutState).2 →
      AgreesAlone env.chrono cutMappings t (runReadCycleImpl env cutMappings cutState).2) ↔
    ∀ m ∈ cutMappings, m.ReadWhole cutMappings ∨ m.CutHarmless :=
  @grouped_reads_agree_iff .declared cutMappings (by decide) (by decide) (by decide) (by decide)
    cutState registered_cutState

/-- With 1 in register 124 and 0 in register 125 the counter is 65536, and the
    cycle reports 0 with quality Good. -/
theorem grouped_reads_disagree :
    validate .declared cutMappings = .ok () ∧
    (∀ m ∈ cutMappings, m.function = .holdingRegisters ∨ m.function = .inputRegisters) ∧
    (cutMappings.map ModbusMapping.tagId).Nodup ∧
    (∀ m ∈ cutMappings, m.address.toNat + m.quantity.toNat ≤ 65535) ∧
    (∀ m ∈ cutMappings, cutState.Registered m.tagId m.dataType) ∧
    AllNew (Answered (Tables.holding 124 [1]).answer) cutState
      (runReadCycleImpl (Env.ofTables (Tables.holding 124 [1])) cutMappings cutState).2 ∧
    (runReadCycleImpl (Env.ofTables (Tables.holding 124 [1])) cutMappings cutState).2.view "total" =
      some (.uint32 0, .good) ∧
    ¬ AgreesAlone .rejecting cutMappings (Tables.holding 124 [1])
      (runReadCycleImpl (Env.ofTables (Tables.holding 124 [1])) cutMappings cutState).2 := by
  have hview : (runReadCycleImpl (Env.ofTables (Tables.holding 124 [1])) cutMappings
      cutState).2.view "total" = some (.uint32 0, .good) := by decide +kernel
  refine ⟨by decide, by decide, by decide, by decide, registered_cutState,
    answered_ofTables _ _ _, hview, ?_⟩
  intro hagree
  have htotal := hagree _ (List.mem_cons_of_mem _ (List.mem_cons_self ..))
  have hshows : Shows (runReadCycleImpl (Env.ofTables (Tables.holding 124 [1])) cutMappings
      cutState).2 "total" (some (.uint32 0)) := hview
  exact absurd (hshows.unique htotal) (by decide)

end PlcBridge.Modbus
