/-
  PlcBridge.CoreModel.Registry

  The tag registry: definitions combined with runtime tags
  (core-model/src/registry.rs).

  The two stores are built independently and looked up by string.  What keeps
  them in step is `TagRegistry.Consistent`: the same ids on both sides and
  every runtime value of its definition's data type.  `from_definitions`
  establishes it, every update keeps it (`Consistent.apply`), hence every
  finite sequence of updates does (`Consistent.run`).
-/
import PlcBridge.CoreModel.TagStore

namespace PlcBridge

/-- Definitions and runtime tags. -/
structure TagRegistry where
  definitions : TagDefinitionStore
  tags : TagStore

/-- The zero-equivalent initial value of a data type; `DateTime` starts at
    the current time. -/
def initialValue (dataType : TagDataType) (now : DateTime) : TagValue :=
  match dataType with
  | .bool => .bool false
  | .int16 => .int16 0
  | .uint16 => .uint16 0
  | .int32 => .int32 0
  | .uint32 => .uint32 0
  | .int64 => .int64 0
  | .uint64 => .uint64 0
  | .float => .float 0
  | .double => .double 0
  | .dateTime => .dateTime now
  | .byteString => .byteString []
  | .string => .string ""

theorem dataType_initialValue (dataType : TagDataType) (now : DateTime) :
    (initialValue dataType now).dataType = dataType := by
  cases dataType <;> rfl

/-- The loop of `from_definitions` that populates the runtime store.  `clock`
    numbers the successive `Utc::now()` calls, two for each definition. -/
def populate (clock : Nat → DateTime) : TagStore → Nat → List TagDefinition → TagStore
  | s, _, [] => s
  | s, k, d :: ds =>
      populate clock (s.insert d.id (Tag.new (initialValue d.dataType (clock k)) (clock (k + 1))))
        (k + 2) ds

namespace TagRegistry

/-- Build a registry from definitions. -/
def fromDefinitions (clock : Nat → DateTime) (defs : List TagDefinition) :
    Except CoreError TagRegistry :=
  match TagDefinitionStore.fromDefinitions defs with
  | .error e => .error e
  | .ok defStore => .ok ⟨defStore, populate clock TagStore.new 0 defStore.allDefinitionsSorted⟩

/-- The registry of a definition list that `from_definitions` accepts, and an
    empty one otherwise. -/
def ofDefinitions (defs : List TagDefinition) : TagRegistry :=
  match fromDefinitions (fun _ => .unixEpoch) defs with
  | .ok r => r
  | .error _ => ⟨.empty, .new⟩

def getTag (r : TagRegistry) (id : String) : Except CoreError Tag := r.tags.get id

def getDefinition (r : TagRegistry) (id : String) : Except CoreError TagDefinition :=
  r.definitions.get id

/-- Update a runtime value, validated against the configured data type. -/
def updateTagValue (r : TagRegistry) (id : String) (value : TagValue) (quality : TagQuality)
    (sourceTs now : DateTime) : Except CoreError Tag × TagRegistry :=
  match r.definitions.get id with
  | .error e => (.error e, r)
  | .ok d =>
      let u := r.tags.updateValueWithExpected id value quality sourceTs d.dataType now
      (u.1, { r with tags := u.2 })

/-- Set only the quality of a tag. -/
def setTagQuality (r : TagRegistry) (id : String) (quality : TagQuality) (now : DateTime) :
    Except CoreError Unit × TagRegistry :=
  let u := r.tags.setQuality id quality now
  (u.1, { r with tags := u.2 })

def listIdsSorted (r : TagRegistry) : List String := r.tags.listIdsSorted

def allDefinitionsSorted (r : TagRegistry) : List TagDefinition := r.definitions.allDefinitionsSorted

-- ============================================================================
-- Tags after an update
-- ============================================================================

/-- The runtime tag under `id`. -/
def tag? (r : TagRegistry) (id : String) : Option Tag := r.tags.inner.tag? id

theorem getTag_eq_ok {r : TagRegistry} {id : String} {t : Tag} :
    r.getTag id = .ok t ↔ r.tag? id = some t := by
  unfold getTag TagStore.get Inner.get tag?
  cases r.tags.inner.tag? id <;> simp

theorem getTag_isOk_iff {r : TagRegistry} {id : String} :
    (∃ t, r.getTag id = .ok t) ↔ id ∈ r.tags.inner.index := by
  simp only [getTag_eq_ok, ← Option.isSome_iff_exists]
  exact r.tags.wf.tag?_isSome_iff id

/-- The registered data type of `id`. -/
def dataType? (r : TagRegistry) (id : String) : Option TagDataType :=
  (r.definitions.inner.lookup id).map TagDefinition.dataType

theorem dataType?_eq_some {r : TagRegistry} {id : String} {dt : TagDataType} :
    r.dataType? id = some dt ↔ ∃ d, r.getDefinition id = .ok d ∧ d.dataType = dt := by
  simp only [dataType?, Option.map_eq_some_iff, getDefinition, TagDefinitionStore.get_eq_ok]

@[simp] theorem definitions_updateTagValue (r : TagRegistry) (id : String) (v : TagValue)
    (q : TagQuality) (ts now : DateTime) :
    (r.updateTagValue id v q ts now).2.definitions = r.definitions := by
  unfold updateTagValue
  split <;> rfl

@[simp] theorem definitions_setTagQuality (r : TagRegistry) (id : String) (q : TagQuality)
    (now : DateTime) : (r.setTagQuality id q now).2.definitions = r.definitions := rfl

/-- A quality update touches the named tag and no other. -/
theorem tag?_setTagQuality (r : TagRegistry) (id : String) (q : TagQuality) (now : DateTime)
    (id' : String) :
    (r.setTagQuality id q now).2.tag? id' =
      if id' = id then (r.tag? id).map (·.setQuality q now) else r.tag? id' :=
  Inner.tag?_modify r.tags.wf id _ id'

/-- A value update touches the named tag, provided the value has the
    registered type, and no other. -/
theorem tag?_updateTagValue (r : TagRegistry) (id : String) (v : TagValue) (q : TagQuality)
    (ts now : DateTime) (id' : String) :
    (r.updateTagValue id v q ts now).2.tag? id' =
      if id' = id ∧ r.dataType? id = some v.dataType then
        (r.tag? id).map (·.applyRead v q ts now) else r.tag? id' := by
  unfold updateTagValue
  cases hd : r.definitions.get id with
  | error e =>
      have hnone : r.dataType? id = none := by
        unfold TagDefinitionStore.get at hd
        unfold dataType?
        cases hl : r.definitions.inner.lookup id with
        | none => rfl
        | some d => rw [hl] at hd; exact absurd hd (by simp)
      rw [hnone, if_neg (by simp)]
  | ok d =>
      have hsome : r.dataType? id = some d.dataType :=
        dataType?_eq_some.mpr ⟨d, hd, rfl⟩
      have hiff : (id' = id ∧ r.dataType? id = some v.dataType) ↔
          (id' = id ∧ v.dataType = d.dataType) := by
        rw [hsome, Option.some.injEq, eq_comm (a := d.dataType)]
      simp only [hiff]
      exact Inner.tag?_updateValueWithExpected r.tags.wf id v q ts d.dataType now id'

@[simp] theorem dataType?_updateTagValue (r : TagRegistry) (id : String) (v : TagValue)
    (q : TagQuality) (ts now : DateTime) (id' : String) :
    (r.updateTagValue id v q ts now).2.dataType? id' = r.dataType? id' := by
  simp [dataType?]

@[simp] theorem dataType?_setTagQuality (r : TagRegistry) (id : String) (q : TagQuality)
    (now : DateTime) (id' : String) :
    (r.setTagQuality id q now).2.dataType? id' = r.dataType? id' := rfl

-- ============================================================================
-- Sequences of updates
-- ============================================================================

/-- A call of one of the two mutating methods. -/
inductive Op where
  | update (id : String) (value : TagValue) (quality : TagQuality) (sourceTs now : DateTime)
  | setQuality (id : String) (quality : TagQuality) (now : DateTime)

/-- The result and the effect of a call. -/
def call (r : TagRegistry) : Op → Except CoreError Unit × TagRegistry
  | .update id v q ts now => let u := r.updateTagValue id v q ts now; (u.1.map fun _ => (), u.2)
  | .setQuality id q now => r.setTagQuality id q now

/-- The registry after a sequence of calls. -/
def run (r : TagRegistry) (ops : List Op) : TagRegistry := ops.foldl (fun r op => (r.call op).2) r

/-- A call that fails leaves the whole registry, tags and events, as it was. -/
theorem call_eq_self_of_error {r : TagRegistry} {op : Op} {e : CoreError}
    (h : (r.call op).1 = .error e) : (r.call op).2 = r := by
  cases op with
  | setQuality id q now =>
      have herr : ∃ e', (r.tags.inner.modify id (·.setQuality q now)).1 = .error e' := by
        simp only [call, setTagQuality, TagStore.setQuality, Inner.setQuality] at h
        cases hm : (r.tags.inner.modify id (·.setQuality q now)).1 with
        | error e' => exact ⟨e', rfl⟩
        | ok t => rw [hm] at h; exact absurd h (by simp [Except.map])
      obtain ⟨e', he'⟩ := herr
      have hself := Inner.modify_eq_self_of_error he'
      simp only [call, setTagQuality, TagStore.setQuality, Inner.setQuality, hself]
  | update id v q ts now =>
      simp only [call, updateTagValue] at h ⊢
      cases hd : r.definitions.get id with
      | error e' => rfl
      | ok d =>
          simp only [hd, TagStore.updateValueWithExpected, Inner.updateValueWithExpected] at h ⊢
          by_cases hm : v.matches d.dataType
          · simp only [hm, if_true] at h ⊢
            cases hres : (r.tags.inner.modify id (·.applyRead v q ts now)).1 with
            | error e' =>
                have hself := Inner.modify_eq_self_of_error hres
                simp only [hself]
            | ok t => rw [hres] at h; exact absurd h (by simp [Except.map])
          · simp only [hm, if_false, Bool.false_eq_true]

-- ============================================================================
-- The consistency invariant
-- ============================================================================

/-- Both stores hold the same ids, and runtime values have the registered
    types. -/
structure Consistent (r : TagRegistry) : Prop where
  ids : ∀ id, id ∈ r.tags.inner.index ↔ id ∈ r.definitions.inner
  typed : ∀ {id t dt}, r.tag? id = some t → r.dataType? id = some dt → t.value.dataType = dt

theorem Consistent.setTagQuality {r : TagRegistry} (h : r.Consistent) (id : String)
    (q : TagQuality) (now : DateTime) : (r.setTagQuality id q now).2.Consistent where
  ids := by
    intro id'
    show id' ∈ (r.tags.inner.modify id _).2.index ↔ _
    rw [Inner.index_modify]
    exact h.ids id'
  typed := by
    intro id' t dt ht hdt
    rw [dataType?_setTagQuality] at hdt
    rw [tag?_setTagQuality] at ht
    by_cases hid : id' = id
    · subst hid
      rw [if_pos rfl, Option.map_eq_some_iff] at ht
      obtain ⟨t0, ht0, rfl⟩ := ht
      show t0.value.dataType = dt
      exact h.typed ht0 hdt
    · rw [if_neg hid] at ht
      exact h.typed ht hdt

theorem index_updateTagValue (r : TagRegistry) (id : String) (v : TagValue) (q : TagQuality)
    (ts now : DateTime) :
    (r.updateTagValue id v q ts now).2.tags.inner.index = r.tags.inner.index := by
  unfold updateTagValue
  split
  · rfl
  · simp only [TagStore.updateValueWithExpected, Inner.updateValueWithExpected]
    split
    · exact Inner.index_modify _ _ _
    · rfl

theorem Consistent.updateTagValue {r : TagRegistry} (h : r.Consistent) (id : String)
    (v : TagValue) (q : TagQuality) (ts now : DateTime) :
    (r.updateTagValue id v q ts now).2.Consistent where
  ids := by
    intro id'
    rw [definitions_updateTagValue, index_updateTagValue]
    exact h.ids id'
  typed := by
    intro id' t dt ht hdt
    rw [dataType?_updateTagValue] at hdt
    rw [tag?_updateTagValue] at ht
    by_cases hid : id' = id ∧ r.dataType? id = some v.dataType
    · rw [if_pos hid, Option.map_eq_some_iff] at ht
      obtain ⟨t0, -, rfl⟩ := ht
      rw [hid.1, hid.2] at hdt
      exact Option.some.inj hdt
    · rw [if_neg hid] at ht
      exact h.typed ht hdt

theorem Consistent.call {r : TagRegistry} (h : r.Consistent) (op : Op) :
    (r.call op).2.Consistent := by
  cases op with
  | update id v q ts now => exact h.updateTagValue id v q ts now
  | setQuality id q now => exact h.setTagQuality id q now

theorem definitions_call (r : TagRegistry) (op : Op) : (r.call op).2.definitions = r.definitions := by
  cases op with
  | update id v q ts now => exact definitions_updateTagValue r id v q ts now
  | setQuality id q now => rfl

theorem Consistent.run {r : TagRegistry} (h : r.Consistent) (ops : List Op) :
    (r.run ops).Consistent := by
  induction ops generalizing r with
  | nil => exact h
  | cons op ops ih => exact ih (h.call op)

theorem run_append (r : TagRegistry) (ops ops' : List Op) :
    r.run (ops ++ ops') = (r.run ops).run ops' := List.foldl_append

theorem definitions_run (r : TagRegistry) (ops : List Op) :
    (r.run ops).definitions = r.definitions := by
  induction ops generalizing r with
  | nil => rfl
  | cons op ops ih =>
      show ((r.call op).2.run ops).definitions = _
      rw [ih, definitions_call]

/-- Calls neither add nor remove tags. -/
theorem isSome_tag?_call (r : TagRegistry) (op : Op) (id : String) :
    ((r.call op).2.tag? id).isSome = (r.tag? id).isSome := by
  cases op with
  | update id' v q ts now =>
      show ((r.updateTagValue id' v q ts now).2.tag? id).isSome = _
      rw [tag?_updateTagValue]
      by_cases hid : id = id' ∧ r.dataType? id' = some v.dataType
      · rw [if_pos hid, Option.isSome_map, hid.1]
      · rw [if_neg hid]
  | setQuality id' q now =>
      show ((r.setTagQuality id' q now).2.tag? id).isSome = _
      rw [tag?_setTagQuality]
      by_cases hid : id = id'
      · rw [if_pos hid, Option.isSome_map, hid]
      · rw [if_neg hid]

theorem isSome_tag?_run (r : TagRegistry) (ops : List Op) (id : String) :
    ((r.run ops).tag? id).isSome = (r.tag? id).isSome := by
  induction ops generalizing r with
  | nil => rfl
  | cons op ops ih =>
      show (((r.call op).2.run ops).tag? id).isSome = _
      rw [ih, isSome_tag?_call]

/-- The cached id list is the id column of the sorted definitions: both are
    strictly ascending and hold the same ids. -/
theorem Consistent.listIdsSorted_eq {r : TagRegistry} (h : r.Consistent) :
    r.listIdsSorted = r.allDefinitionsSorted.map TagDefinition.id := by
  obtain ⟨hsorted, hmem⟩ := r.definitions.ids_allDefinitionsSorted
  have hperm : r.listIdsSorted.Perm (r.allDefinitionsSorted.map TagDefinition.id) := by
    show r.tags.inner.sortedIds.Perm (r.definitions.allDefinitionsSorted.map TagDefinition.id)
    rw [List.perm_ext_iff_of_nodup (r.tags.wf.sorted.imp fun h => ne_of_lt h)
      (hsorted.imp fun h => ne_of_lt h)]
    intro id
    exact (r.tags.wf.mem_sorted id).trans ((h.ids id).trans (hmem id).symm)
  exact hperm.eq_of_pairwise (fun _ _ _ _ h h' => absurd h (lt_asymm h')) r.tags.wf.sorted hsorted

-- ============================================================================
-- Construction
-- ============================================================================

/-- Populating from a duplicate-free list of definitions adds exactly their
    ids, each with a value of the definition's type. -/
theorem populate_spec (clock : Nat → DateTime) {s : TagStore} {k : Nat} {ds : List TagDefinition}
    (hnodup : (ds.map TagDefinition.id).Nodup) :
    (∀ id, id ∈ (populate clock s k ds).inner.index ↔
      id ∈ s.inner.index ∨ id ∈ ds.map TagDefinition.id) ∧
    (∀ d ∈ ds, ∃ t, (populate clock s k ds).inner.tag? d.id = some t ∧
      t.value.dataType = d.dataType) ∧
    ∀ id, id ∉ ds.map TagDefinition.id → (populate clock s k ds).inner.tag? id = s.inner.tag? id := by
  induction ds generalizing s k with
  | nil => simp [populate]
  | cons d ds ih =>
      rw [List.map_cons, List.nodup_cons] at hnodup
      obtain ⟨hids, htyped, hother⟩ := ih (s := s.insert d.id
        (Tag.new (initialValue d.dataType (clock k)) (clock (k + 1)))) (k := k + 2) hnodup.2
      refine ⟨?_, ?_, ?_⟩
      · intro id
        simp only [populate, hids, List.map_cons, List.mem_cons]
        rw [show id ∈ (s.insert d.id _).inner.index ↔ _ from Inner.index_insert s.inner d.id _ id]
        tauto
      · intro d' hd'
        rcases List.mem_cons.mp hd' with rfl | hd'
        · refine ⟨Tag.new (initialValue d'.dataType (clock k)) (clock (k + 1)), ?_,
            dataType_initialValue _ _⟩
          simp only [populate]
          rw [hother d'.id hnodup.1]
          exact (Inner.tag?_insert s.wf d'.id _ d'.id).trans (if_pos rfl)
        · exact htyped d' hd'
      · intro id hid
        rw [List.map_cons, List.mem_cons, not_or] at hid
        simp only [populate]
        rw [hother id hid.2]
        exact (Inner.tag?_insert s.wf d.id _ id).trans (if_neg hid.1)

/-- What `from_definitions` returns is made of the definition store alone. -/
theorem fromDefinitions_eq_ok {clock : Nat → DateTime} {defs : List TagDefinition} {r : TagRegistry}
    (h : fromDefinitions clock defs = .ok r) :
    r = ⟨r.definitions, populate clock TagStore.new 0 r.definitions.allDefinitionsSorted⟩ := by
  unfold fromDefinitions at h
  split at h
  · exact absurd h (by simp)
  · obtain rfl := Except.ok.inj h
    rfl

/-- Populating adds new tags with initial values. -/
theorem tag?_populate (clock : Nat → DateTime) {s : TagStore} {k : Nat} {ds : List TagDefinition}
    {id : String} {t : Tag} (h : (populate clock s k ds).inner.tag? id = some t) :
    s.inner.tag? id = some t ∨ ∃ d ∈ ds, d.id = id ∧
      ∃ n, t = Tag.new (initialValue d.dataType (clock n)) (clock (n + 1)) := by
  induction ds generalizing s k with
  | nil => exact .inl h
  | cons d ds ih =>
      rcases ih h with hold | ⟨d', hd', hid, hnew⟩
      · rw [show (s.insert d.id _).inner.tag? id = _ from Inner.tag?_insert s.wf d.id _ id] at hold
        split at hold
        · rename_i hid
          obtain rfl := Option.some.inj hold
          exact .inr ⟨d, List.mem_cons_self .., hid.symm, k, rfl⟩
        · exact .inl hold
      · exact .inr ⟨d', List.mem_cons_of_mem d hd', hid, hnew⟩

/-- The tags of a freshly built registry are new, with initial values of their
    definitions' types. -/
theorem tag?_fromDefinitions {clock : Nat → DateTime} {defs : List TagDefinition} {r : TagRegistry}
    (h : fromDefinitions clock defs = .ok r) {id : String} {t : Tag} (ht : r.tag? id = some t) :
    ∃ d n, r.getDefinition id = .ok d ∧
      t = Tag.new (initialValue d.dataType (clock n)) (clock (n + 1)) := by
  rw [fromDefinitions_eq_ok h] at ht
  rcases tag?_populate clock ht with hold | ⟨d, hd, rfl, n, hnew⟩
  · exact absurd hold (by simp [TagStore.new, Inner.new, Inner.tag?])
  · exact ⟨d, n, TagDefinitionStore.mem_allDefinitionsSorted.mp hd, hnew⟩

/-- A freshly built registry is consistent. -/
theorem consistent_fromDefinitions {clock : Nat → DateTime} {defs : List TagDefinition}
    {r : TagRegistry} (h : fromDefinitions clock defs = .ok r) : r.Consistent := by
  obtain ⟨hsorted, hmem⟩ := r.definitions.ids_allDefinitionsSorted
  obtain ⟨hids, htyped, -⟩ := populate_spec clock (s := TagStore.new) (k := 0)
    (hsorted.imp fun h => ne_of_lt h)
  rw [fromDefinitions_eq_ok h]
  refine ⟨?_, ?_⟩
  · intro id
    simp only [hids, hmem]
    simp [TagStore.new, Inner.new]
  · intro id t dt ht hdt
    obtain ⟨d, hd, rfl⟩ := dataType?_eq_some.mp hdt
    have hdid : d.id = id := TagDefinitionStore.id_of_get hd
    have hdmem : d ∈ r.definitions.allDefinitionsSorted := by
      rw [TagDefinitionStore.mem_allDefinitionsSorted, hdid]
      exact hd
    obtain ⟨t', ht', htype⟩ := htyped d hdmem
    rw [hdid] at ht'
    have htt : some t = some t' := ht.symm.trans ht'
    rw [Option.some.inj htt]
    exact htype

end TagRegistry

end PlcBridge
