/-
  PlcBridge.Fins.GroupedReads

  What a FINS cycle leaves in each tag when every read is answered from the
  PLC's memory.  As in the Modbus driver, a tag ends with the decode of the
  last request that meets its range.  In addition the `DateTime` decoder
  panics on contents beyond chrono's range, and then the cycle does not return
  at all.
-/
import PlcBridge.Fins.Steps

namespace PlcBridge.Fins

open PlcBridge.Lib
open PlcBridge.DriverState (Extends AllNew)

-- ============================================================================
-- Answered reads
-- ============================================================================

/-- The words of the PLC's memory areas. -/
abbrev Memory := UInt8 → Nat → UInt16

/-- Exactly the words a received frame asks for. -/
def Memory.answer (mem : Memory) (frame : List UInt8) : List UInt16 :=
  match receive frame with
  | some req => window (mem req.area) req.address req.count
  | none => []

/-- The read came back with matching session id, end code zero and exactly the
    requested words. -/
def Answered (mem : Memory) (x : Exchange) : Prop :=
  match x with
  | .read _ sid _ result => result.response sid = .accepted (beBytes (mem.answer x.sent))
  | .write .. => True

/-- A tag shows an attempt to decode it: the value with quality Good, or an
    Error quality. -/
def Shows (d : State) (id : String) : Attempt TagValue → Prop
  | .done v => d.view id = some (v, .good)
  | .failed _ => ∃ v msg, d.view id = some (v, .error msg)
  | .panicked => False

theorem Shows.value_unique {d : State} {id : String} {a b : Attempt TagValue} (ha : Shows d id a)
    (hb : Shows d id b) : a.value? = b.value? := by
  cases a with
  | panicked => exact ha.elim
  | done v =>
      cases b with
      | panicked => exact hb.elim
      | done w =>
          have hvw : some (v, TagQuality.good) = some (w, .good) := ha.symm.trans hb
          simpa [Attempt.value?] using hvw
      | failed e =>
          obtain ⟨w, msg, hw⟩ := hb
          simp [Shows, hw] at ha
  | failed e =>
      obtain ⟨v, msg, hv⟩ := ha
      cases b with
      | panicked => exact hb.elim
      | done w => simp [Shows, hv] at hb
      | failed e' => rfl

/-- What a tag shows depends on the value only. -/
theorem Shows.of_value {d : State} {id : String} {a b : Attempt TagValue} (ha : Shows d id a)
    (hvalue : a.value? = b.value?) (hb : b ≠ .panicked) : Shows d id b := by
  cases a with
  | panicked => exact ha.elim
  | done v =>
      cases b with
      | panicked => exact absurd rfl hb
      | done w =>
          obtain rfl : v = w := by simpa [Attempt.value?] using hvalue
          exact ha
      | failed e => simp [Attempt.value?] at hvalue
  | failed e =>
      cases b with
      | panicked => exact absurd rfl hb
      | done w => simp [Attempt.value?] at hvalue
      | failed e' => exact ha

theorem Shows.congr {d d' : State} {id : String} {a : Attempt TagValue} (h : Shows d id a)
    (hview : d'.view id = d.view id) : Shows d' id a := by
  cases a with
  | panicked => exact h
  | done v => exact hview.trans h
  | failed e =>
      obtain ⟨v, msg, hv⟩ := h
      exact ⟨v, msg, hview.trans hv⟩

variable {env : Env} {mem : Memory} {g : ReadGroup} {d : State} {m : TagMapping}

/-- The words of a request. -/
def ReadGroup.words (g : ReadGroup) (mem : Memory) : List UInt16 :=
  window (mem g.area) g.startAddress.toNat g.wordCount.toNat

/-- A request below address 2^24 gets the words of its own range. -/
theorem response_of_answered (haddr : g.startAddress.toNat < 2 ^ 24)
    (h : Answered mem (readExchange env g d)) :
    (readExchange env g d).response = .accepted (beBytes (g.words mem)) := by
  have hwords : mem.answer (readExchange env g d).sent = g.words mem := by
    show mem.answer (readFrame _ _ _ _) = _
    rw [Memory.answer, receive_readFrame]
    simp only
    rw [Nat.mod_eq_of_lt haddr]
    rfl
  rw [← hwords]
  exact h

/-- An answered read extracts its mappings. -/
theorem readStep_answered (haddr : g.startAddress.toNat < 2 ^ 24)
    (h : Answered mem (readExchange env g d)) :
    readStep env g d = runList (extractMapping env g (beBytes (g.words mem))) g.mappings
      ((afterRead env g d).putBack (some (nextCtx d))) := by
  rw [readStep_eq, response_of_answered haddr h, finishRead, if_neg]
  rw [length_beBytes, ReadGroup.words, length_window]
  omega

/-- An answered run stops only by a panic. -/
theorem runReads_answered_error {gs : List ReadGroup} (haddr : ∀ g ∈ gs, g.startAddress.toNat < 2 ^ 24)
    (hans : AllNew (Answered mem) d (runList (readStep env) gs d).2) {e : Halt} {d' : State}
    (h : runList (readStep env) gs d = (.error e, d')) : e = .panicked := by
  obtain ⟨l₁, g, l₂, d₀, rfl, hok, hstep⟩ := exists_failed_step h
  have hx := (readLoop env).allNew_head ((readLoop env).allNew_append hok hans).2
  rw [readStep_answered (haddr g (by simp)) hx] at hstep
  exact runExtract_error hstep

-- ============================================================================
-- One tag in an answered run
-- ============================================================================

/-- The part of the memory a mapping's piece is decoded from. -/
theorem piece_words {chrono : Chrono} (hg : g.InSpace) (hm : m.InSpace)
    (hmeets : Meets g.span m.lo m.len) :
    piece chrono g (beBytes (g.words mem)) m =
      m.decodeWords chrono (window (mem g.area) (overlap g.span m.lo m.len).1
        (overlap g.span m.lo m.len).2) := by
  have hbounds : (overlap g.span m.lo m.len).1 - g.startAddress.toNat + (overlap g.span m.lo m.len).2
      ≤ g.wordCount.toNat ∧ g.startAddress.toNat ≤ (overlap g.span m.lo m.len).1 := by
    simp only [Meets, overlap, ReadGroup.span] at hmeets ⊢
    omega
  rw [piece, overlapBytes_eq hg hm hmeets, ReadGroup.words]
  simp only
  rw [drop_beBytes, take_beBytes, take_drop_window _ _ _ _ _ hbounds.1,
    Nat.add_sub_cancel' hbounds.2]
  rfl

/-- The request that holds the end of a range decodes what is left of it
    behind the request's start. -/
theorem piece_last {chrono : Chrono} (hg : g.InSpace) (hm : m.InSpace) (harea : g.area = m.area)
    (h1 : g.startAddress.toNat < m.lo + m.len)
    (h2 : m.lo + m.len ≤ g.startAddress.toNat + g.wordCount.toNat) :
    piece chrono g (beBytes (g.words mem)) m =
      m.decodeWords chrono ((window (mem m.area) m.lo m.len).drop (g.startAddress.toNat - m.lo)) := by
  have hpos := hm.pos
  have hmeets : Meets g.span m.lo m.len := ⟨by simp only [ReadGroup.span]; omega, h1⟩
  have hpiece : overlap g.span m.lo m.len =
      (m.lo + (g.startAddress.toNat - m.lo), m.len - (g.startAddress.toNat - m.lo)) := by
    simp only [overlap, ReadGroup.span, Prod.mk.injEq]
    omega
  rw [piece_words hg hm hmeets, hpiece, drop_window, harea]

/-- A request that meets the mapping settles its tag. -/
theorem shows_readStep (hg : g.InSpace) (hids : g.ids.Nodup) (hmem : m ∈ g.mappings) (hm : m.InSpace)
    (haddr : g.startAddress.toNat < 2 ^ 24) (hmeets : Meets g.span m.lo m.len)
    (hx : Answered mem (readExchange env g d)) (hreg : d.Registered m.tagId m.dataType) {d' : State}
    (hok : readStep env g d = (.ok (), d')) :
    Shows d' m.tagId (piece env.chrono g (beBytes (g.words mem)) m) := by
  rw [readStep_answered haddr hx] at hok
  obtain ⟨d₁, d₂, hext, -, hstep, hview⟩ := view_runExtract hids hmem hok
  refine Shows.congr ?_ hview
  have hreg₁ : d₁.Registered m.tagId m.dataType :=
    (((extends_afterRead env g d).trans (DriverState.extends_putBack _ _)).trans hext).registered hreg
  have hlong : (g.overlapBytes m).1 + (g.overlapBytes m).2 ≤ (beBytes (g.words mem)).length := by
    have := overlapBytes_le hg hm hmeets
    rw [length_beBytes, ReadGroup.words, length_window]
    omega
  rw [extractMapping_of_meets (fun h => (misses_iff hg hm).mp h hmeets) hlong hreg₁] at hstep
  obtain ⟨old, hold⟩ := Option.isSome_iff_exists.mp hreg₁.2
  cases hp : piece env.chrono g (beBytes (g.words mem)) m with
  | panicked =>
      rw [hp] at hstep
      exact absurd (congrArg Prod.fst hstep) (by simp)
  | done v =>
      rw [hp] at hstep
      obtain rfl := congrArg Prod.snd hstep
      show DriverState.view _ _ = _
      rw [DriverState.view_updateTagValue, if_pos ⟨rfl, by rw [hreg₁.1, dataType_of_decodeBytes hp]⟩, hold]
      rfl
  | failed e =>
      rw [hp] at hstep
      obtain rfl := congrArg Prod.snd hstep
      refine ⟨old.1, "decode_failed: " ++ e.display, ?_⟩
      have htick : d₁.tick.view m.tagId = some old := hold
      rw [DriverState.view_setTagQuality_self, htick]
      rfl

/-- A request that does not meet the mapping leaves its tag alone. -/
theorem view_readStep_of_not_meets (hg : g.InSpace) (hids : g.ids.Nodup) (hmem : m ∈ g.mappings)
    (hm : m.InSpace) (haddr : g.startAddress.toNat < 2 ^ 24) (hmeets : ¬ Meets g.span m.lo m.len)
    (hx : Answered mem (readExchange env g d)) {d' : State} (hok : readStep env g d = (.ok (), d')) :
    d'.view m.tagId = d.view m.tagId := by
  rw [readStep_answered haddr hx] at hok
  obtain ⟨d₁, d₂, -, hbefore, hstep, hview⟩ := view_runExtract hids hmem hok
  rw [extractMapping_of_misses ((misses_iff hg hm).mpr hmeets)] at hstep
  obtain rfl := congrArg Prod.snd hstep
  rw [hview, hbefore]
  exact (DriverState.view_putBack _ _ _).trans (view_afterRead env g d m.tagId)

/-- The last request that meets the mapping decides what its tag shows. -/
theorem shows_runReads {before gs₁ gs₂ after : List ReadGroup} (hm : m.InSpace)
    (hown : ∀ g' ∈ gs₁ ++ g :: gs₂,
      m ∈ g'.mappings ∧ g'.ids.Nodup ∧ g'.InSpace ∧ g'.startAddress.toNat < 2 ^ 24)
    (hmeets : Meets g.span m.lo m.len) (hlater : ∀ g' ∈ gs₂, ¬ Meets g'.span m.lo m.len)
    (hafter : ∀ g' ∈ after, m.tagId ∉ g'.ids) (hreg : d.Registered m.tagId m.dataType)
    (hans : AllNew (Answered mem) d
      (runList (readStep env) (before ++ (gs₁ ++ g :: gs₂) ++ after) d).2) {d' : State}
    (hok : runList (readStep env) (before ++ (gs₁ ++ g :: gs₂) ++ after) d = (.ok (), d')) :
    Shows d' m.tagId (piece env.chrono g (beBytes (g.words mem)) m) := by
  rw [show before ++ (gs₁ ++ g :: gs₂) ++ after = (before ++ gs₁) ++ g :: (gs₂ ++ after) by simp]
    at hans hok
  obtain ⟨hmem, hids, hg, haddr⟩ := hown g (by simp)
  refine (readLoop env).run_decided (fun d₁ d₂ hview hshows => Shows.congr hshows hview) ?_ ?_ hans hok
  · intro d₁ d₂ hext hx hstep
    exact shows_readStep hg hids hmem hm haddr hmeets hx (hext.registered hreg) hstep
  · -- Nothing behind the deciding request touches the tag.
    intro g' hg' d₁ d₂ hx hstep
    rcases List.mem_append.mp hg' with hg' | hg'
    · obtain ⟨hmem', hids', hspace', haddr'⟩ := hown g' (by simp [hg'])
      exact view_readStep_of_not_meets hspace' hids' hmem' hm haddr' (hlater g' hg') hx hstep
    · exact (readLoop env).view_step_kept (hafter g' hg') hstep

-- ============================================================================
-- The cycle
-- ============================================================================

variable {config : FinsConfig} {drv : FinsDriver}

/-- The range lies in the 24-bit address space of a request. -/
def TagMapping.InMemory (m : TagMapping) : Prop := m.address.toNat + m.wordCount.toNat < 2 ^ 24

/-- An answered cycle returns exactly when its reads go through. -/
theorem returned_iff (haddr : ∀ g ∈ drv.readGroups, g.startAddress.toNat < 2 ^ 24)
    (hans : AllNew (Answered mem) d (runReadCycleImpl env drv d).2) :
    (runReadCycleImpl env drv d).1 = .returned ↔
      ∃ d', runList (readStep env) drv.readGroups (beforeReads env drv d) = (.ok (), d') := by
  obtain ⟨hstate, hpanic⟩ := runReadCycleImpl_eq env drv d
  rw [hstate] at hans
  have hreads := (hans.split (extends_beforeReads env drv d) (extends_runReads env _ _)).2
  rcases except_cases (runList (readStep env) drv.readGroups (beforeReads env drv d))
    with ⟨d', h⟩ | ⟨e, d', h⟩
  · refine ⟨fun _ => ⟨d', h⟩, fun _ => ?_⟩
    cases hout : (runReadCycleImpl env drv d).1 with
    | returned => rfl
    | panicked =>
        have := hpanic.mp hout
        rw [h] at this
        exact absurd this (by simp)
  · have hpan : (runReadCycleImpl env drv d).1 = .panicked := by
      rw [hpanic, h, runReads_answered_error haddr hreads h]
    rw [hpan, h]
    simp

theorem OwnGroups.start_lt (hmem : ∀ m ∈ config.mappings, m.InMemory) {own : List ReadGroup}
    (hown : OwnGroups config m own) (hg : g ∈ own) : g.startAddress.toNat < 2 ^ 24 := by
  obtain ⟨m', hm', -, hlt⟩ := hown.mapped g hg
  have hbound : m'.lo + m'.len < 2 ^ 24 := hmem m' (mem_byArea.mp hm').1
  omega

theorem readGroups_start_lt (hspace : ∀ m ∈ config.mappings, m.InSpace)
    (hmem : ∀ m ∈ config.mappings, m.InMemory) (hnodup : (config.mappings.map TagMapping.tagId).Nodup)
    (hnew : FinsDriver.new config = some drv) :
    ∀ g ∈ drv.readGroups, g.startAddress.toNat < 2 ^ 24 := by
  intro g hg
  obtain ⟨⟨m, hm⟩, hall⟩ := exists_own hspace hnodup hnew hg
  obtain ⟨-, own, hgo, hown⟩ := hall m hm
  exact hown.start_lt hmem hgo

/-- After an answered cycle that returns, a tag shows the decode of what its
    last request leaves of its range. -/
theorem shows_after_cycle (hspace : ∀ m ∈ config.mappings, m.InSpace)
    (hmem : ∀ m ∈ config.mappings, m.InMemory) (hnodup : (config.mappings.map TagMapping.tagId).Nodup)
    (hnew : FinsDriver.new config = some drv) (hm : m ∈ config.mappings) :
    ∃ k, k < m.len ∧ (k = 0 ↔ m.ReadWhole config) ∧ ∀ (env : Env) (mem : Memory) (d : State),
      d.Registered m.tagId m.dataType →
      AllNew (Answered mem) d (runReadCycleImpl env drv d).2 →
      (runReadCycleImpl env drv d).1 = .returned →
      Shows (runReadCycleImpl env drv d).2 m.tagId
        (m.decodeWords env.chrono ((window (mem m.area) m.lo m.len).drop k)) := by
  have haddr := readGroups_start_lt hspace hmem hnodup hnew
  obtain ⟨before, own, after, hgroups, hown, -, hother⟩ := exists_groups_split hspace hnodup hnew hm
  obtain ⟨gs₁, g, gs₂, rfl, h1, h2, -, hlater, hiff⟩ := hown.last
  obtain ⟨harea, -, -, hg⟩ := hown.each g (by simp)
  have hpos := (hspace m hm).pos
  refine ⟨g.startAddress.toNat - m.lo, by omega, by rw [← hiff]; omega, ?_⟩
  intro env mem d hreg hans hret
  obtain ⟨d', hok⟩ := (returned_iff haddr hans).mp hret
  have hstate := (runReadCycleImpl_eq env drv d).1
  rw [hstate] at hans ⊢
  have hreads := (hans.split (extends_beforeReads env drv d) (extends_runReads env _ _)).2
  rw [hok]
  rw [hgroups] at hreads hok
  rw [← piece_last hg (hspace m hm) harea h1 h2]
  refine shows_runReads (hspace m hm) ?_ ⟨by simp only [ReadGroup.span]; omega, h1⟩ ?_ ?_
    ((extends_beforeReads env drv d).registered hreg) hreads hok
  · intro g' hg'
    obtain ⟨-, hmg, hids, hg''⟩ := hown.each g' hg'
    exact ⟨hmg, hids, hg'', hown.start_lt hmem hg'⟩
  · intro g' hg' hmeets
    have hbehind := hlater g' hg'
    have hbefore : g'.startAddress.toNat < m.lo + m.len := hmeets.2
    omega
  · intro g' hg'
    exact hother g' (by simp [hg'])

/-- Every whole range decodes without a panic. -/
def Memory.InRange (mem : Memory) (mappings : List TagMapping) : Prop :=
  ∀ m ∈ mappings, m.InRange (window (mem m.area) m.lo m.len)

/-- If every tag is read whole or cut harmlessly, an answered cycle over
    contents in range returns. -/
theorem returned_of_inRange (hspace : ∀ m ∈ config.mappings, m.InSpace)
    (hmem : ∀ m ∈ config.mappings, m.InMemory) (hnodup : (config.mappings.map TagMapping.tagId).Nodup)
    (hnew : FinsDriver.new config = some drv)
    (hcond : ∀ m ∈ config.mappings, m.ReadWhole config ∨ m.CutHarmless)
    (hans : AllNew (Answered mem) d (runReadCycleImpl env drv d).2)
    (hrange : mem.InRange config.mappings) : (runReadCycleImpl env drv d).1 = .returned := by
  have haddr := readGroups_start_lt hspace hmem hnodup hnew
  rw [returned_iff haddr hans]
  rw [(runReadCycleImpl_eq env drv d).1] at hans
  have hreads := (hans.split (extends_beforeReads env drv d) (extends_runReads env _ _)).2
  rcases except_cases (runList (readStep env) drv.readGroups (beforeReads env drv d))
    with ⟨d', h⟩ | ⟨e, d', h⟩
  · exact ⟨d', h⟩
  -- The step that stopped has a mapping whose piece panics.
  obtain ⟨l₁, g, l₂, d₀, hgroups, hok, hstep⟩ := exists_failed_step h
  have hg : g ∈ drv.readGroups := by simp [hgroups]
  rw [hgroups] at hreads
  have hx := (readLoop env).allNew_head ((readLoop env).allNew_append hok hreads).2
  rw [readStep_answered (haddr g hg) hx] at hstep
  have hpieces : ∀ m ∈ g.mappings, ¬ g.Misses m →
      piece env.chrono g (beBytes (g.words mem)) m ≠ .panicked := by
    intro m hmg hmiss
    obtain ⟨hm, own, hgo, hown⟩ := (exists_own hspace hnodup hnew hg).2 m hmg
    obtain ⟨harea, -, -, hgspace⟩ := hown.each g hgo
    have hmeets : Meets g.span m.lo m.len := by
      by_contra hnot
      exact hmiss ((misses_iff hgspace (hspace m hm)).mpr hnot)
    rcases hcond m hm with hwhole | hharm
    · obtain ⟨hstart, hend⟩ := hown.contains_of_whole hwhole hgo hmeets
      rw [piece_last hgspace (hspace m hm) harea hmeets.2 hend, Nat.sub_eq_zero_of_le hstart,
        List.drop_zero, decodeWords_ne_panicked_iff]
      exact hrange m hm
    · rw [piece_words hgspace (hspace m hm) hmeets, decodeWords_ne_panicked_iff]
      apply inRange_of_cutHarmless hharm
      rw [length_window]
      show _ ≤ m.len
      simp only [overlap]
      omega
  obtain ⟨d₁, hok₁⟩ := runExtract_ok hpieces ((afterRead env g d₀).putBack (some (nextCtx d₀)))
  rw [hok₁] at hstep
  exact absurd (congrArg Prod.fst hstep) (by simp)

-- ============================================================================
-- Grouped reads against reading each tag alone
-- ============================================================================

/-- The cycle returned, and every tag shows what decoding all words of its own
    range gives. -/
def AgreesAlone (chrono : Chrono) (mappings : List TagMapping) (mem : Memory) (out : Outcome × State) :
    Prop :=
  out.1 = .returned ∧ ∀ m ∈ mappings,
    Shows out.2 m.tagId (m.decodeWords chrono (window (mem m.area) m.lo m.len))

/-- A PLC that answers every read from its memory and accepts every write. -/
def Env.ofMemory (mem : Memory) : Env where
  chrono := .rejecting
  clock := fun _ => .unixEpoch
  transfer := fun _ _ frame =>
    match receive frame with
    | some req => .answered (okResponse req.sid (0x01, if req.write then 0x02 else 0x01)
        (if req.write then [] else beBytes (mem.answer frame)))
    | none => .sendFailed "not a memory request"

theorem answered_ofMemory (mem : Memory) (drv : FinsDriver) (d : State) :
    AllNew (Answered mem) d (runReadCycleImpl (Env.ofMemory mem) drv d).2 := by
  rw [(runReadCycleImpl_eq (Env.ofMemory mem) drv d).1]
  refine AllNew.join (extends_beforeReads (Env.ofMemory mem) drv d) (extends_runReads _ _ _) ?_ ?_
  · have hopen : Extends d (ensureConnected d) :=
      (DriverState.extends_takeOrConnect d).trans (DriverState.extends_putBack _ _)
    refine AllNew.join hopen (extends_drainWrites _ _ _ _) (AllNew.of_trace_eq ?_)
      (allNew_drainWrites (fun _ _ _ _ _ _ => trivial) drv.mappings 64 _)
    exact DriverState.trace_takeOrConnect d
  · refine (readLoop (Env.ofMemory mem)).allNew_run ?_ _
    intro g _ d'
    show (Env.transfer _ _ _ (readFrame _ _ _ _)).response _ =
      .accepted (beBytes (mem.answer (readFrame _ _ _ _)))
    simp only [Env.ofMemory, receive_readFrame, Bool.false_eq_true, if_false]
    exact response_okResponse ..

/-- Memory that holds `ws` from word `lo` of an area on, and zeros
    elsewhere. -/
def Memory.holding (area : UInt8) (lo : Nat) (ws : List UInt16) : Memory :=
  fun area' a => if area' = area ∧ lo ≤ a then ws.getD (a - lo) 0 else 0

theorem window_holding (area : UInt8) (lo : Nat) (ws : List UInt16) :
    window (Memory.holding area lo ws area) lo ws.length = ws := by
  apply List.ext_getElem
  · rw [length_window]
  · intro i h1 h2
    rw [getElem_window, Memory.holding, if_pos ⟨rfl, by omega⟩, Nat.add_sub_cancel_left,
      List.getD_eq_getElem?_getD, List.getElem?_eq_getElem h2, Option.getD_some]

/-- Ranges apart from the stored words are zeros. -/
theorem window_holding_apart {area area' : UInt8} {lo lo' n : Nat} {ws : List UInt16}
    (h : area' ≠ area ∨ lo' + n ≤ lo ∨ lo + ws.length ≤ lo') :
    window (Memory.holding area lo ws area') lo' n = List.replicate n 0 := by
  apply List.ext_getElem
  · rw [length_window, List.length_replicate]
  · intro i h1 h2
    rw [length_window] at h1
    rw [getElem_window, List.getElem_replicate, Memory.holding]
    by_cases hin : area' = area ∧ lo ≤ lo' + i
    · rw [if_pos hin, List.getD_eq_default]
      rcases h with h | h | h
      · exact absurd hin.1 h
      · omega
      · omega
    · rw [if_neg hin]

/-- Different mappings of an accepted list have different words. -/
theorem apart_of_validate {order : AreaOrder} {mappings : List TagMapping}
    (hval : validate order mappings = .ok ()) (hmem : ∀ m ∈ mappings, m.InMemory) {m m' : TagMapping}
    (hm : m ∈ mappings) (hm' : m' ∈ mappings) (hne : m ≠ m') :
    m'.area ≠ m.area ∨ m'.lo + m'.len ≤ m.lo ∨ m.lo + m.len ≤ m'.lo := by
  have hbefore : ∀ a b : TagMapping, a ∈ mappings → b ∈ mappings → a.Before b →
      a.lo + a.len ≤ b.lo := by
    intro a b ha hb hab
    have hpos := ((of_validate hval).1 a ha).count_pos
    have hlt : a.rangeEnd.toNat < b.address.toNat := UInt32.lt_iff_toNat_lt.mp hab
    have hb' := hmem b hb
    rw [TagMapping.InMemory] at hb'
    have hend := toNat_rangeEnd hpos
    show a.address.toNat + a.wordCount.toNat ≤ b.address.toNat
    omega
  by_cases harea : m'.area = m.area
  · right
    rcases before_of_validate hval hm hm' harea hne with h | h
    · exact .inr (hbefore m m' hm hm' h)
    · exact .inl (hbefore m' m hm' hm h)
  · exact .inl harea

/-- On contents the decoder panics on, the cycle does not return. -/
theorem panicked_of_not_inRange (hspace : ∀ m ∈ config.mappings, m.InSpace)
    (hmem : ∀ m ∈ config.mappings, m.InMemory) (hnodup : (config.mappings.map TagMapping.tagId).Nodup)
    (hnew : FinsDriver.new config = some drv)
    (hcond : ∀ m ∈ config.mappings, m.ReadWhole config ∨ m.CutHarmless)
    (hreg : ∀ m ∈ config.mappings, d.Registered m.tagId m.dataType)
    (hans : AllNew (Answered mem) d (runReadCycleImpl env drv d).2)
    (hrange : ¬ mem.InRange config.mappings) : (runReadCycleImpl env drv d).1 = .panicked := by
  cases hout : (runReadCycleImpl env drv d).1 with
  | panicked => rfl
  | returned =>
      refine absurd ?_ hrange
      intro m hm
      rcases hcond m hm with hwhole | hharm
      · obtain ⟨k, -, hzero, hshows⟩ := shows_after_cycle hspace hmem hnodup hnew hm
        have hlast := hshows env mem d (hreg m hm) hans hout
        rw [hzero.mpr hwhole, List.drop_zero] at hlast
        rw [← @decodeWords_ne_panicked_iff env.chrono]
        intro hpan
        rw [hpan] at hlast
        exact hlast
      · exact inRange_of_cutHarmless hharm (by rw [length_window]; exact le_rfl)

/-- For an accepted configuration, the answered cycles agree with reading each
    tag alone on all contents in the decoder's range, and on no others, exactly
    when no request boundary cuts a tag for which it matters. -/
theorem grouped_fins_reads_agree_iff {order : AreaOrder} {config : FinsConfig}
    (hmin : 1 ≤ config.maxWordsPerRequest.toNat) (hmax : config.maxWordsPerRequest.toNat ≤ 65535)
    (hval : validate order config.mappings = .ok ())
    (hnodup : (config.mappings.map TagMapping.tagId).Nodup)
    (hmem : ∀ m ∈ config.mappings, m.address.toNat + m.wordCount.toNat < 2 ^ 24) {d : State}
    (hreg : ∀ m ∈ config.mappings, d.Registered m.tagId m.dataType) :
    ∃ drv, FinsDriver.new config = some drv ∧
      ((∀ (env : Env) (mem : Memory), AllNew (Answered mem) d (runReadCycleImpl env drv d).2 →
        (AgreesAlone env.chrono config.mappings mem (runReadCycleImpl env drv d) ↔
          mem.InRange config.mappings)) ↔
      ∀ m ∈ config.mappings, m.ReadWhole config ∨ m.CutHarmless) := by
  obtain ⟨drv, hnew⟩ := exists_new hmin hmax
  refine ⟨drv, hnew, ?_⟩
  have hok := (of_validate hval).1
  have hspace : ∀ m ∈ config.mappings, m.InSpace := by
    intro m hm
    have hlt := hmem m hm
    exact ⟨(hok m hm).count_pos, by simp only [TagMapping.lo, TagMapping.len]; omega⟩
  constructor
  · intro hall m hm
    by_contra hcut
    obtain ⟨hwhole, hharm⟩ := not_or.mp hcut
    obtain ⟨k, hk, hzero, hshows⟩ := shows_after_cycle hspace hmem hnodup hnew hm
    have hkpos : 1 ≤ k := by
      by_contra hk0
      exact hwhole (hzero.mp (by omega))
    -- Contents in range that give the last piece another value.
    obtain ⟨ws, hlen, hnot, hne⟩ :=
      @exists_decodeWords_drop_ne Chrono.rejecting m (hok m hm) hharm k hkpos hk
    have hlen' : m.len = ws.length := hlen.symm
    have hans := answered_ofMemory (Memory.holding m.area m.lo ws) drv d
    have hrange : (Memory.holding m.area m.lo ws).InRange config.mappings := by
      intro m' hm'
      by_cases heq : m = m'
      · subst heq
        rw [hlen', window_holding]
        exact (decodeWords_ne_panicked_iff ws).mp hnot
      · have hapart := apart_of_validate hval hmem hm hm' heq
        rw [hlen'] at hapart
        rw [window_holding_apart hapart]
        exact inRange_zeros _
    obtain ⟨hret, halone⟩ := (hall _ _ hans).mpr hrange
    have hlast := hshows _ _ d (hreg m hm) hans hret
    have hwhole' := halone m hm
    rw [hlen', window_holding] at hlast hwhole'
    exact hne (hlast.value_unique hwhole')
  · intro hcond env mem hans
    constructor
    · rintro ⟨hret, -⟩
      by_contra hrange
      rw [panicked_of_not_inRange hspace hmem hnodup hnew hcond hreg hans hrange] at hret
      exact absurd hret (by simp)
    · intro hrange
      have hret := returned_of_inRange hspace hmem hnodup hnew hcond hans hrange
      refine ⟨hret, ?_⟩
      intro m hm
      obtain ⟨k, hk, hzero, hshows⟩ := shows_after_cycle hspace hmem hnodup hnew hm
      have hlast := hshows env mem d (hreg m hm) hans hret
      by_cases hk0 : k = 0
      · rw [hk0, List.drop_zero] at hlast
        exact hlast
      · have hharm := (hcond m hm).resolve_left fun h => hk0 (hzero.mpr h)
        refine hlast.of_value ?_ ((decodeWords_ne_panicked_iff _).mpr (hrange m hm))
        exact decodeWords_drop hharm (length_window ..) (by omega) hk

/-- A byte string of three words, read in requests of two. -/
def blobConfig : FinsConfig where
  mappings := [{ tagId := "blob", area := 0x82, address := 0, wordCount := 3, dataType := .byteString }]
  maxWordsPerRequest := 2

def blobDriver : FinsDriver :=
  ⟨blobConfig.mappings, [⟨0x82, 0, 2, blobConfig.mappings⟩, ⟨0x82, 2, 1, blobConfig.mappings⟩]⟩

def blobState : State := .new (.ofDefinitions [.new "blob" "blob" "0" .byteString "plc"]) 0 []

theorem registered_blobState :
    ∀ m ∈ blobConfig.mappings, blobState.Registered m.tagId m.dataType := by
  intro m hm
  obtain rfl := List.mem_singleton.mp hm
  exact ⟨by decide +kernel, by decide +kernel⟩

theorem grouped_fins_reads_agree_iff_blob :
    ∃ drv, FinsDriver.new blobConfig = some drv ∧
      ((∀ (env : Env) (mem : Memory),
        AllNew (Answered mem) blobState (runReadCycleImpl env drv blobState).2 →
        (AgreesAlone env.chrono blobConfig.mappings mem (runReadCycleImpl env drv blobState) ↔
          mem.InRange blobConfig.mappings)) ↔
      ∀ m ∈ blobConfig.mappings, m.ReadWhole blobConfig ∨ m.CutHarmless) :=
  @grouped_fins_reads_agree_iff .ascending blobConfig (by decide) (by decide) (by decide +kernel)
    (by decide) (by decide) blobState registered_blobState

/-- With the words 1, 2, 3 in memory the byte string holds all of them, and the
    cycle reports the last one alone with quality Good. -/
theorem grouped_fins_reads_disagree :
    validate .ascending blobConfig.mappings = .ok () ∧
    (blobConfig.mappings.map TagMapping.tagId).Nodup ∧
    (∀ m ∈ blobConfig.mappings, m.address.toNat + m.wordCount.toNat < 2 ^ 24) ∧
    (∀ m ∈ blobConfig.mappings, blobState.Registered m.tagId m.dataType) ∧
    FinsDriver.new blobConfig = some blobDriver ∧
    AllNew (Answered (.holding 0x82 0 [1, 2, 3])) blobState
      (runReadCycleImpl (.ofMemory (.holding 0x82 0 [1, 2, 3])) blobDriver blobState).2 ∧
    (runReadCycleImpl (.ofMemory (.holding 0x82 0 [1, 2, 3])) blobDriver blobState).2.view "blob" =
      some (.byteString [0, 3], .good) ∧
    ¬ AgreesAlone .rejecting blobConfig.mappings (.holding 0x82 0 [1, 2, 3])
      (runReadCycleImpl (.ofMemory (.holding 0x82 0 [1, 2, 3])) blobDriver blobState) := by
  have hview : (runReadCycleImpl (.ofMemory (.holding 0x82 0 [1, 2, 3])) blobDriver
      blobState).2.view "blob" = some (.byteString [0, 3], .good) := by decide +kernel
  refine ⟨by decide +kernel, by decide, by decide, registered_blobState, by rfl,
    answered_ofMemory _ _ _, hview, ?_⟩
  rintro ⟨-, halone⟩
  have hshows : Shows (runReadCycleImpl (.ofMemory (.holding 0x82 0 [1, 2, 3])) blobDriver
      blobState).2 "blob" (.done (.byteString [0, 3])) := hview
  exact absurd (hshows.value_unique (halone _ (List.mem_singleton_self _))) (by decide +kernel)

end PlcBridge.Fins
