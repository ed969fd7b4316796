/-
  PlcBridge.Runtime.StaleTags

  The staleness check that follows a successful cycle
  (`RuntimeDriver::check_stale_tags`, runtime/src/runtime_driver.rs, and
  `Tag::is_stale`, core-model/src/tag.rs), at one reading of the clock.

  Durations are nanoseconds.  chrono has no duration of `i64::MIN`
  milliseconds: asking for one panics, which ends the check where it stands.
-/
import PlcBridge.CoreModel.StoreRuns
import PlcBridge.Lib.Runs
import PlcBridge.Opcua.Reads

namespace PlcBridge

open PlcBridge.Lib

-- ============================================================================
-- The check
-- ============================================================================

/-- `ChronoDuration::milliseconds`: `none` is its panic. -/
def durationMilliseconds (ms : Int64) : Option ℤ :=
  if ms = Int64.minValue then none else some (ms.toInt * 1000000)

/-- `is_stale`: the source timestamp lies in the future, or further back than
    `timeout`. -/
def Tag.isStale (t : Tag) (now : DateTime) (timeout : ℤ) : Bool :=
  let age := now.nanos - t.sourceTimestamp.nanos
  if age < 0 then true else timeout < age

namespace Runtime

/-- The loop body of `check_stale_tags`; an error is a panic. -/
def checkStaleTag (plcName : String) (now : DateTime) (d : TagDefinition) (r : TagRegistry) :
    Except String Unit × TagRegistry :=
  if d.plcName ≠ plcName then (.ok (), r)
  else
    match d.staleAfterMs with
    | none => (.ok (), r)
    | some timeoutMs =>
        match r.getTag d.id with
        | .error _ => (.ok (), r)
        | .ok tag =>
            match durationMilliseconds timeoutMs.toInt64 with
            | none => (.error "TimeDelta::milliseconds out of bounds", r)
            | some timeout =>
                if tag.isStale now timeout then
                  if tag.quality ≠ .stale then (.ok (), (r.setTagQuality d.id .stale now).2)
                  else (.ok (), r)
                else (.ok (), r)

/-- Mark the tags of a PLC that are past their threshold. -/
def checkStaleTags (plcName : String) (now : DateTime) (r : TagRegistry) :
    Except String Unit × TagRegistry :=
  runList (checkStaleTag plcName now) r.allDefinitionsSorted r

-- ============================================================================
-- What the loop body does
-- ============================================================================

/-- The definition is one of the PLC's, with the threshold `ms`. -/
def Watched (plcName : String) (d : TagDefinition) (ms : UInt64) : Prop :=
  d.plcName = plcName ∧ d.staleAfterMs = some ms

/-- The source timestamp lies in the future, or further back than `ms`. -/
def Exceeded (now : DateTime) (t : Tag) (ms : UInt64) : Prop :=
  now.nanos < t.sourceTimestamp.nanos ∨
    (ms.toNat : ℤ) * 1000000 < now.nanos - t.sourceTimestamp.nanos

/-- The body leaves the tag. -/
def Spared (now : DateTime) (t : Tag) (ms : UInt64) : Prop :=
  t.quality = .stale ∨ ¬ Exceeded now t ms ∧ ms.toNat < 2 ^ 63

/-- The body marks the tag: from 2^63 milliseconds on the threshold has become
    negative, and every age is beyond it. -/
def Marked (now : DateTime) (t : Tag) (ms : UInt64) : Prop :=
  t.quality ≠ .stale ∧ (Exceeded now t ms ∨ 2 ^ 63 < ms.toNat)

/-- `timeout_ms as i64`. -/
theorem toInt_toInt64 (ms : UInt64) :
    ms.toInt64.toInt = if ms.toNat < 2 ^ 63 then (ms.toNat : ℤ) else ms.toNat - 2 ^ 64 := by
  show ms.toBitVec.toInt = _
  rw [BitVec.toInt_eq_toNat_cond, UInt64.toNat_toBitVec]
  split
  · rw [if_pos (by omega)]
  · rw [if_neg (by omega)]
    rfl

theorem durationMilliseconds_eq (ms : UInt64) :
    durationMilliseconds ms.toInt64 =
      if ms.toNat = 2 ^ 63 then none else some (ms.toInt64.toInt * 1000000) := by
  have hmin : ms.toInt64 = Int64.minValue ↔ ms.toNat = 2 ^ 63 := by
    rw [← Int64.toInt_inj, toInt_toInt64, Int64.toInt_minValue]
    have hlt := ms.toNat_lt
    split <;> omega
  unfold durationMilliseconds
  by_cases h : ms.toNat = 2 ^ 63
  · rw [if_pos (hmin.mpr h), if_pos h]
  · rw [if_neg (fun h' => h (hmin.mp h')), if_neg h]

/-- Below 2^63 milliseconds the comparison is the exact one, above it every
    tag is stale. -/
theorem isStale_iff (now : DateTime) (t : Tag) {ms : UInt64} (hms : ms.toNat ≠ 2 ^ 63) :
    t.isStale now (ms.toInt64.toInt * 1000000) ↔ Exceeded now t ms ∨ 2 ^ 63 < ms.toNat := by
  have hlt := ms.toNat_lt
  unfold Tag.isStale Exceeded
  rw [toInt_toInt64]
  by_cases hage : now.nanos - t.sourceTimestamp.nanos < 0
  · simp only [hage, if_true, true_iff]
    exact .inl (.inl (by omega))
  · simp only [hage, if_false, decide_eq_true_eq]
    split <;> omega

/-- What the check of a definition makes of its tag. -/
inductive Checked (plcName : String) (now : DateTime) (d : TagDefinition) :
    Option Tag → Option Tag → Prop where
  | spared {o : Option Tag} (h : ∀ (ms : UInt64) (t : Tag), Watched plcName d ms → o = some t →
      ms.toNat ≠ 2 ^ 63 ∧ Spared now t ms) : Checked plcName now d o o
  | marked {t : Tag} {ms : UInt64} (hwatched : Watched plcName d ms) (hms : ms.toNat ≠ 2 ^ 63)
      (h : Marked now t ms) : Checked plcName now d (some t) (some (t.setQuality .stale now))

/-- The threshold chrono cannot express. -/
def Panics (plcName : String) (r : TagRegistry) (d : TagDefinition) : Prop :=
  ∃ ms : UInt64, Watched plcName d ms ∧ ms.toNat = 2 ^ 63 ∧ (r.tag? d.id).isSome

/-- Nothing to check: no threshold, or no tag. -/
theorem checked_of_unwatched {plcName : String} {now : DateTime} {d : TagDefinition}
    {r : TagRegistry} (hstep : checkStaleTag plcName now d r = (.ok (), r))
    (h : ∀ ms : UInt64, Watched plcName d ms → r.tag? d.id = none) :
    ¬ Panics plcName r d ∧ ∃ r' : TagRegistry, checkStaleTag plcName now d r = (.ok (), r') ∧
      Checked plcName now d (r.tag? d.id) (r'.tag? d.id) ∧
      (∀ id : String, id ≠ d.id → r'.tag? id = r.tag? id) ∧ r'.definitions = r.definitions := by
  refine ⟨?_, r, hstep, .spared ?_, fun _ _ => rfl, rfl⟩
  · rintro ⟨ms, hwatched, -, hsome⟩
    rw [h ms hwatched] at hsome
    exact absurd hsome (by simp)
  · intro ms t hwatched ht
    rw [h ms hwatched] at ht
    exact absurd ht (by simp)

theorem spared_or_marked (now : DateTime) (t : Tag) {ms : UInt64} (hms : ms.toNat ≠ 2 ^ 63) :
    Spared now t ms ∨ Marked now t ms := by
  by_cases hq : t.quality = .stale
  · exact .inl (.inl hq)
  · by_cases hover : Exceeded now t ms ∨ 2 ^ 63 < ms.toNat
    · exact .inr ⟨hq, hover⟩
    · rw [not_or] at hover
      exact .inl (.inr ⟨hover.1, by omega⟩)

theorem not_spared_of_marked {now : DateTime} {t : Tag} {ms : UInt64} (h : Marked now t ms) :
    ¬ Spared now t ms := by
  obtain ⟨hq, hover⟩ := h
  rintro (hstale | ⟨hin, hlt⟩)
  · exact hq hstale
  · rcases hover with hover | hgt
    · exact hin hover
    · omega

/-- The body on a tag with a threshold. -/
theorem checkStaleTag_watched {plcName : String} {now : DateTime} {d : TagDefinition}
    {r : TagRegistry} {ms : UInt64} {t : Tag} (hwatched : Watched plcName d ms)
    (ht : r.tag? d.id = some t) :
    (ms.toNat = 2 ^ 63 → (checkStaleTag plcName now d r).1 ≠ .ok ()) ∧
    (ms.toNat ≠ 2 ^ 63 → Spared now t ms → checkStaleTag plcName now d r = (.ok (), r)) ∧
    (ms.toNat ≠ 2 ^ 63 → Marked now t ms →
      checkStaleTag plcName now d r = (.ok (), (r.setTagQuality d.id .stale now).2)) := by
  obtain ⟨hplc, hstale⟩ := hwatched
  have hget : r.getTag d.id = .ok t := TagRegistry.getTag_eq_ok.mpr ht
  unfold checkStaleTag
  simp only [hplc, hstale, hget, durationMilliseconds_eq, ne_eq, not_true, if_false]
  refine ⟨?_, ?_, ?_⟩
  · intro hms
    simp only [hms, if_true]
    exact fun h => by simp at h
  · rintro hms (hq | ⟨hin, hlt⟩)
    · simp only [hms, if_false, hq, not_true]
      split <;> rfl
    · have hfresh : ¬ t.isStale now (ms.toInt64.toInt * 1000000) := by
        rw [isStale_iff now t hms, not_or]
        exact ⟨hin, by omega⟩
      simp only [hms, if_false, hfresh]
      rfl
  · rintro hms ⟨hq, hover⟩
    have hold : t.isStale now (ms.toInt64.toInt * 1000000) := (isStale_iff now t hms).mpr hover
    simp only [hms, if_false, hold, if_true, hq, not_false_eq_true]

/-- The body panics, or checks the tag of the definition and touches no
    other. -/
theorem checkStaleTag_cases (plcName : String) (now : DateTime) (d : TagDefinition)
    (r : TagRegistry) :
    (Panics plcName r d ∧ (checkStaleTag plcName now d r).1 ≠ .ok ()) ∨
    (¬ Panics plcName r d ∧ ∃ r' : TagRegistry, checkStaleTag plcName now d r = (.ok (), r') ∧
      Checked plcName now d (r.tag? d.id) (r'.tag? d.id) ∧
      (∀ id : String, id ≠ d.id → r'.tag? id = r.tag? id) ∧ r'.definitions = r.definitions) := by
  by_cases hplc : d.plcName = plcName
  · cases hstale : d.staleAfterMs with
    | none =>
        refine .inr (checked_of_unwatched ?_ ?_)
        · simp only [checkStaleTag, hplc, hstale, ne_eq, not_true, if_false]
        · intro ms hwatched
          exact absurd (hstale.symm.trans hwatched.2) (by simp)
    | some ms =>
        have hwatched : Watched plcName d ms := ⟨hplc, hstale⟩
        have huniq : ∀ ms' : UInt64, Watched plcName d ms' → ms' = ms := by
          rintro ms' ⟨-, h⟩
          exact Option.some.inj (h.symm.trans hstale)
        cases ht : r.tag? d.id with
        | none =>
            rw [← ht]
            refine .inr (checked_of_unwatched ?_ fun _ _ => ht)
            have hget : r.getTag d.id = .error (.tagNotFound d.id) :=
              (Inner.get_eq_error _ _ _).mpr ⟨rfl, ht⟩
            simp only [checkStaleTag, hplc, hstale, hget, ne_eq, not_true, if_false]
        | some t =>
            rw [← ht]
            by_cases hms : ms.toNat = 2 ^ 63
            · exact .inl ⟨⟨ms, hwatched, hms, by rw [ht]; rfl⟩, (checkStaleTag_watched hwatched ht).1 hms⟩
            · refine .inr ⟨?_, ?_⟩
              · rintro ⟨ms', hwatched', hms', -⟩
                rw [huniq ms' hwatched'] at hms'
                exact hms hms'
              · obtain hspared | hmarked := spared_or_marked now t hms
                · refine ⟨r, (checkStaleTag_watched hwatched ht).2.1 hms hspared, .spared ?_,
                    fun _ _ => rfl, rfl⟩
                  intro ms' t' hwatched' ht'
                  obtain rfl := huniq ms' hwatched'
                  obtain rfl := Option.some.inj (ht.symm.trans ht')
                  exact ⟨hms, hspared⟩
                · refine ⟨_, (checkStaleTag_watched hwatched ht).2.2 hms hmarked, ?_, ?_, rfl⟩
                  · rw [TagRegistry.tag?_setTagQuality, if_pos rfl, ht]
                    exact .marked hwatched hms hmarked
                  · intro id hid
                    rw [TagRegistry.tag?_setTagQuality, if_neg hid]
  · refine .inr (checked_of_unwatched ?_ ?_)
    · rw [checkStaleTag, if_pos hplc]
    · intro ms hwatched
      exact absurd hwatched.1 hplc

-- ============================================================================
-- What the check does
-- ============================================================================

theorem Checked.isSome {plcName : String} {now : DateTime} {d : TagDefinition} {o o' : Option Tag}
    (h : Checked plcName now d o o') : o'.isSome = o.isSome := by
  cases h <;> rfl

/-- What a check spared it spares again, what it marked is Stale. -/
theorem Checked.again {plcName : String} {now : DateTime} {d : TagDefinition}
    {o o' o'' : Option Tag} (h : Checked plcName now d o o') (h' : Checked plcName now d o' o'') :
    o'' = o' := by
  cases h' with
  | spared _ => rfl
  | marked hwatched hms hmarked =>
      cases h with
      | spared hspared => exact absurd (hspared _ _ hwatched rfl).2 (not_spared_of_marked hmarked)
      | marked _ _ _ => exact absurd rfl hmarked.1

theorem Checked.of_marked {plcName : String} {now : DateTime} {d : TagDefinition} {t : Tag}
    {o' : Option Tag} {ms : UInt64} (h : Checked plcName now d (some t) o')
    (hwatched : Watched plcName d ms) (hmarked : Marked now t ms) :
    o' = some (t.setQuality .stale now) := by
  cases h with
  | spared hspared => exact absurd (hspared ms t hwatched rfl).2 (not_spared_of_marked hmarked)
  | marked _ _ _ => rfl

/-- The loop over definitions with different ids checks each of them, or
    panics at one. -/
theorem runCheck_spec (plcName : String) (now : DateTime) {ds : List TagDefinition} {r : TagRegistry}
    (hnodup : (ds.map TagDefinition.id).Nodup) :
    ((runList (checkStaleTag plcName now) ds r).1 = .ok () ↔
      ∀ d : TagDefinition, d ∈ ds → ¬ Panics plcName r d) ∧
    ∀ r' : TagRegistry, runList (checkStaleTag plcName now) ds r = (.ok (), r') →
      (∀ d : TagDefinition, d ∈ ds → Checked plcName now d (r.tag? d.id) (r'.tag? d.id)) ∧
      (∀ id : String, id ∉ ds.map TagDefinition.id → r'.tag? id = r.tag? id) ∧
      r'.definitions = r.definitions := by
  induction ds generalizing r with
  | nil =>
      refine ⟨by simp [runList], ?_⟩
      intro r' h
      obtain rfl := congrArg Prod.snd h
      exact ⟨by simp, fun _ _ => rfl, rfl⟩
  | cons d ds ih =>
      rw [List.map_cons, List.nodup_cons] at hnodup
      have hother : ∀ d' : TagDefinition, d' ∈ ds → d'.id ≠ d.id := by
        rintro d' hd' heq
        exact hnodup.1 (heq ▸ List.mem_map_of_mem hd')
      obtain ⟨hpanics, hstep⟩ | ⟨hcalm, r₁, hstep, hchecked, hframe, hdefs⟩ :=
        checkStaleTag_cases plcName now d r
      · rcases except_cases (checkStaleTag plcName now d r) with ⟨r₁, h⟩ | ⟨e, r₁, h⟩
        · rw [h] at hstep
          exact absurd rfl hstep
        · rw [runList_cons_error h]
          refine ⟨?_, ?_⟩
          · constructor
            · intro h'
              exact absurd h' (by simp)
            · intro h'
              exact absurd hpanics (h' d List.mem_cons_self)
          · intro r' h'
            exact absurd (congrArg Prod.fst h') (by simp)
      · -- The first definition leaves the tags of the others as they were.
        have hsame : ∀ d' : TagDefinition, d' ∈ ds → (Panics plcName r₁ d' ↔ Panics plcName r d') := by
          intro d' hd'
          rw [Panics, Panics, hframe d'.id (hother d' hd')]
        obtain ⟨hok, hrest⟩ := ih (r := r₁) hnodup.2
        rw [runList_cons_ok hstep]
        refine ⟨?_, ?_⟩
        · rw [hok, List.forall_mem_cons]
          constructor
          · intro h
            exact ⟨hcalm, fun d' hd' hp => h d' hd' ((hsame d' hd').mpr hp)⟩
          · intro h d' hd' hp
            exact h.2 d' hd' ((hsame d' hd').mp hp)
        · intro r' hrun
          obtain ⟨hall, hout, hdefs'⟩ := hrest r' hrun
          refine ⟨?_, ?_, hdefs'.trans hdefs⟩
          · intro d' hd'
            rcases List.mem_cons.mp hd' with rfl | hd'
            · rw [hout d'.id hnodup.1]
              exact hchecked
            · rw [← hframe d'.id (hother d' hd')]
              exact hall d' hd'
          · intro id hid
            rw [List.map_cons, List.mem_cons, not_or] at hid
            rw [hout id hid.2, hframe id hid.1]

variable {plcName : String} {now : DateTime} {r r' : TagRegistry}

theorem nodup_ids (r : TagRegistry) : (r.allDefinitionsSorted.map TagDefinition.id).Nodup :=
  r.definitions.ids_allDefinitionsSorted.1.imp fun h => ne_of_lt h

theorem checkStaleTags_ok_iff (plcName : String) (now : DateTime) (r : TagRegistry) :
    (checkStaleTags plcName now r).1 = .ok () ↔
      ∀ d : TagDefinition, d ∈ r.allDefinitionsSorted → ¬ Panics plcName r d :=
  (runCheck_spec plcName now (nodup_ids r)).1

/-- Two definitions under one id are the same. -/
theorem definition_unique {d d' : TagDefinition} (hd : d ∈ r.allDefinitionsSorted)
    (hd' : d' ∈ r.allDefinitionsSorted) (hid : d.id = d'.id) : d = d' :=
  List.inj_on_of_nodup_map (nodup_ids r) hd hd' hid

/-- A check that came to its end, at any tag. -/
theorem checked_of_check (h : checkStaleTags plcName now r = (.ok (), r')) :
    (∀ d : TagDefinition, d ∈ r.allDefinitionsSorted →
      Checked plcName now d (r.tag? d.id) (r'.tag? d.id)) ∧
    (∀ id : String, (∀ d : TagDefinition, d ∈ r.allDefinitionsSorted → d.id ≠ id) →
      r'.tag? id = r.tag? id) ∧
    r'.allDefinitionsSorted = r.allDefinitionsSorted := by
  obtain ⟨hall, hout, hdefs⟩ := (runCheck_spec plcName now (nodup_ids r)).2 r' h
  refine ⟨hall, ?_, by rw [TagRegistry.allDefinitionsSorted, hdefs]; rfl⟩
  intro id hid
  apply hout
  intro hmem
  obtain ⟨d, hd, heq⟩ := List.mem_map.mp hmem
  exact hid d hd heq

/-- Any one tag: a definition of its id was checked, or nothing happened to
    it. -/
theorem checked_or_same (h : checkStaleTags plcName now r = (.ok (), r')) (id : String) :
    (∃ d : TagDefinition, d ∈ r.allDefinitionsSorted ∧ d.id = id ∧
      Checked plcName now d (r.tag? id) (r'.tag? id)) ∨ r'.tag? id = r.tag? id := by
  obtain ⟨hall, hout, -⟩ := checked_of_check h
  by_cases hdef : ∃ d : TagDefinition, d ∈ r.allDefinitionsSorted ∧ d.id = id
  · obtain ⟨d, hd, rfl⟩ := hdef
    exact .inl ⟨d, hd, rfl, hall d hd⟩
  · exact .inr (hout id fun d hd hid => hdef ⟨d, hd, hid⟩)

/-- A tag the check changed is one a definition of the PLC watches, and it is
    marked now. -/
theorem marked_of_changed (h : checkStaleTags plcName now r = (.ok (), r')) {id : String} {t t' : Tag}
    (ht : r.tag? id = some t) (ht' : r'.tag? id = some t') (hne : t' ≠ t) :
    ∃ (d : TagDefinition) (ms : UInt64), d ∈ r.allDefinitionsSorted ∧ d.id = id ∧
      Watched plcName d ms ∧ ms.toNat ≠ 2 ^ 63 ∧ Marked now t ms ∧ t' = t.setQuality .stale now := by
  obtain ⟨d, hd, hid, hchecked⟩ | hsame := checked_or_same h id
  · rw [ht, ht'] at hchecked
    cases hchecked with
    | spared _ => exact absurd rfl hne
    | marked hwatched hms hmarked => exact ⟨d, _, hd, hid, hwatched, hms, hmarked, rfl⟩
  · rw [ht, ht'] at hsame
    exact absurd (Option.some.inj hsame) hne

theorem isSome_tag?_check (h : checkStaleTags plcName now r = (.ok (), r')) (id : String) :
    (r'.tag? id).isSome = (r.tag? id).isSome := by
  obtain ⟨d, -, -, hchecked⟩ | hsame := checked_or_same h id
  · exact hchecked.isSome
  · rw [hsame]

/-- A second check at the same instant finds nothing to do. -/
theorem check_again (h : checkStaleTags plcName now r = (.ok (), r')) :
    (checkStaleTags plcName now r').1 = .ok () ∧
    ∀ id : String, (checkStaleTags plcName now r').2.tag? id = r'.tag? id := by
  obtain ⟨hall, -, hdefs⟩ := checked_of_check h
  have hok : (checkStaleTags plcName now r').1 = .ok () := by
    have hcalm := (checkStaleTags_ok_iff plcName now r).mp (by rw [h])
    rw [checkStaleTags_ok_iff, hdefs]
    rintro d hd ⟨ms, hwatched, hms, hsome⟩
    rw [isSome_tag?_check h] at hsome
    exact hcalm d hd ⟨ms, hwatched, hms, hsome⟩
  refine ⟨hok, ?_⟩
  intro id
  obtain ⟨d, hd, rfl, hchecked⟩ | hsame := checked_or_same (Prod.ext hok rfl) id
  · exact (hall d (hdefs ▸ hd)).again hchecked
  · exact hsame

-- ============================================================================
-- When the check only degrades
-- ============================================================================

open PlcBridge.Opcua (tagqualityToUaStatus)

/-- What a staleness check may do to a registry. -/
structure OnlyDegrades (plcName : String) (now : DateTime) (r : TagRegistry) : Prop where
  /-- It comes to its end. -/
  returns : (checkStaleTags plcName now r).1 = .ok ()
  /-- No tag appears or goes. -/
  same_ids : ∀ id : String,
    ((checkStaleTags plcName now r).2.tag? id).isSome = (r.tag? id).isSome
  /-- Values and source timestamps stay. -/
  kept : ∀ (id : String) (t t' : Tag), r.tag? id = some t →
    (checkStaleTags plcName now r).2.tag? id = some t' →
      t'.value = t.value ∧ t'.sourceTimestamp = t.sourceTimestamp
  /-- Only a tag of the PLC past its threshold is changed. -/
  only : ∀ (id : String) (t t' : Tag), r.tag? id = some t →
    (checkStaleTags plcName now r).2.tag? id = some t' → t' ≠ t →
      ∃ (d : TagDefinition) (ms : UInt64), d ∈ r.allDefinitionsSorted ∧ d.id = id ∧
        Watched plcName d ms ∧ Exceeded now t ms
  /-- The class of the reported status does not get better. -/
  not_better : ∀ (id : String) (t t' : Tag), r.tag? id = some t →
    (checkStaleTags plcName now r).2.tag? id = some t' →
      (tagqualityToUaStatus t.quality).severity ≤ (tagqualityToUaStatus t'.quality).severity
  /-- A second check at the same instant changes nothing. -/
  again : (checkStaleTags plcName now (checkStaleTags plcName now r).2).1 = .ok () ∧
    ∀ id : String, (checkStaleTags plcName now (checkStaleTags plcName now r).2).2.tag? id =
      (checkStaleTags plcName now r).2.tag? id

/-- A tag and a threshold the check does not go wrong on: the threshold is not
    2^63 milliseconds, and the tag is Stale already, or is past its threshold
    and not of the class Bad, or is within a threshold below 2^63. -/
def Benign (now : DateTime) (t : Tag) (ms : UInt64) : Prop :=
  ms.toNat ≠ 2 ^ 63 ∧
    (t.quality = .stale ∨
      (Exceeded now t ms ∧ (tagqualityToUaStatus t.quality).severity ≤ 1) ∨
      (¬ Exceeded now t ms ∧ ms.toNat < 2 ^ 63))

/-- A check that only degrades met benign tags only. -/
theorem benign_of_onlyDegrades (h : OnlyDegrades plcName now r) {d : TagDefinition} {ms : UInt64} {t : Tag}
    (hd : d ∈ r.allDefinitionsSorted) (hwatched : Watched plcName d ms) (ht : r.tag? d.id = some t) :
    Benign now t ms := by
  have hcalm := (checkStaleTags_ok_iff plcName now r).mp h.returns d hd
  have hms : ms.toNat ≠ 2 ^ 63 := fun hms => hcalm ⟨ms, hwatched, hms, by rw [ht]; rfl⟩
  refine ⟨hms, ?_⟩
  obtain hspared | hmarked := spared_or_marked now t hms
  · exact hspared.imp id .inr
  · right
    have ht' : (checkStaleTags plcName now r).2.tag? d.id = some (t.setQuality .stale now) := by
      have hchecked := (checked_of_check (Prod.ext h.returns rfl)).1 d hd
      rw [ht] at hchecked
      exact hchecked.of_marked hwatched hmarked
    have hchanged : t.setQuality .stale now ≠ t := by
      intro heq
      exact hmarked.1 (by rw [← heq]; rfl)
    obtain ⟨d', ms', hd', hid, hwatched', hover⟩ := h.only d.id t _ ht ht' hchanged
    obtain rfl := definition_unique hd' hd hid
    obtain rfl : ms' = ms := Option.some.inj (hwatched'.2.symm.trans hwatched.2)
    exact .inl ⟨hover, h.not_better d'.id t _ ht ht'⟩

/-- Among benign tags, a changed one was past its threshold and not Bad. -/
theorem changed_of_benign (h : ∀ (d : TagDefinition) (ms : UInt64) (t : Tag), d ∈ r.allDefinitionsSorted →
      Watched plcName d ms → r.tag? d.id = some t → Benign now t ms)
    (hrun : checkStaleTags plcName now r = (.ok (), r')) {id : String} {t t' : Tag}
    (ht : r.tag? id = some t) (ht' : r'.tag? id = some t') (hne : t' ≠ t) :
    t' = t.setQuality .stale now ∧ (tagqualityToUaStatus t.quality).severity ≤ 1 ∧
      ∃ (d : TagDefinition) (ms : UInt64), d ∈ r.allDefinitionsSorted ∧ d.id = id ∧
        Watched plcName d ms ∧ Exceeded now t ms := by
  obtain ⟨d, ms, hd, rfl, hwatched, -, hmarked, heq⟩ := marked_of_changed hrun ht ht' hne
  obtain ⟨-, hstale | ⟨hover, hbad⟩ | ⟨hin, hlt⟩⟩ := h d ms t hd hwatched ht
  · exact absurd hstale hmarked.1
  · exact ⟨heq, hbad, d, ms, hd, rfl, hwatched, hover⟩
  · exact absurd (.inr ⟨hin, hlt⟩) (not_spared_of_marked hmarked)

/-- The staleness check only degrades exactly when every tag it looks at is
    benign for its threshold. -/
theorem check_only_degrades_iff (plcName : String) (now : DateTime) (r : TagRegistry) :
    OnlyDegrades plcName now r ↔
      ∀ (d : TagDefinition) (ms : UInt64) (t : Tag), d ∈ r.allDefinitionsSorted →
        Watched plcName d ms → r.tag? d.id = some t → Benign now t ms := by
  constructor
  · intro h d ms t hd hwatched ht
    exact benign_of_onlyDegrades h hd hwatched ht
  · intro h
    have hok : (checkStaleTags plcName now r).1 = .ok () := by
      rw [checkStaleTags_ok_iff]
      rintro d hd ⟨ms, hwatched, hms, hsome⟩
      obtain ⟨t, ht⟩ := Option.isSome_iff_exists.mp hsome
      exact (h d ms t hd hwatched ht).1 hms
    have hrun : checkStaleTags plcName now r = (.ok (), (checkStaleTags plcName now r).2) :=
      Prod.ext hok rfl
    refine ⟨hok, isSome_tag?_check hrun, ?_, ?_, ?_, check_again hrun⟩
    · intro id t t' ht ht'
      by_cases hne : t' = t
      · rw [hne]
        exact ⟨rfl, rfl⟩
      · rw [(changed_of_benign h hrun ht ht' hne).1]
        exact ⟨rfl, rfl⟩
    · intro id t t' ht ht' hne
      exact (changed_of_benign h hrun ht ht' hne).2.2
    · intro id t t' ht ht'
      by_cases hne : t' = t
      · rw [hne]
      · obtain ⟨heq, hbad, -⟩ := changed_of_benign h hrun ht ht' hne
        rw [heq]
        exact hbad

/-- A tag of the PLC with a threshold of one second, its communication lost. -/
def lostRegistry : TagRegistry :=
  ((TagRegistry.ofDefinitions
    [{ TagDefinition.new "level" "level" "0" .uint16 "plc" with staleAfterMs := some 1000 }]
    ).setTagQuality "level" .commLost .unixEpoch).2

/-- Two seconds after the epoch. -/
def twoSeconds : DateTime := ⟨2000000000, by decide, by decide⟩

/-- A tag just read, with the longest threshold there is. -/
def freshRegistry : TagRegistry :=
  ((TagRegistry.ofDefinitions
    [{ TagDefinition.new "level" "level" "0" .uint16 "plc" with
       staleAfterMs := some 18446744073709551615 }]
    ).updateTagValue "level" (.uint16 7) .good twoSeconds twoSeconds).2

/-- A lost tag past its threshold goes from Bad to Uncertain, and a fresh tag
    with a threshold beyond `i64` is marked although its age is zero. -/
theorem check_improves_or_marks_fresh :
    ¬ OnlyDegrades "plc" twoSeconds lostRegistry ∧ ¬ OnlyDegrades "plc" twoSeconds freshRegistry := by
  constructor
  · intro h
    have hbefore : lostRegistry.tag? "level" = some ⟨.uint16 0, .commLost, .unixEpoch, .unixEpoch⟩ := by
      decide +kernel
    have hafter : (checkStaleTags "plc" twoSeconds lostRegistry).2.tag? "level" =
        some ⟨.uint16 0, .stale, .unixEpoch, twoSeconds⟩ := by decide +kernel
    exact absurd (h.not_better "level" _ _ hbefore hafter) (by decide)
  · intro h
    have hbefore : freshRegistry.tag? "level" = some ⟨.uint16 7, .good, twoSeconds, twoSeconds⟩ := by
      decide +kernel
    have hafter : (checkStaleTags "plc" twoSeconds freshRegistry).2.tag? "level" =
        some ⟨.uint16 7, .stale, twoSeconds, twoSeconds⟩ := by decide +kernel
    obtain ⟨d, ms, -, -, -, hover⟩ := h.only "level" _ _ hbefore hafter (by decide)
    rcases hover with hfuture | hold
    · exact absurd hfuture (lt_irrefl _)
    · rw [sub_self] at hold
      omega

end Runtime

end PlcBridge
