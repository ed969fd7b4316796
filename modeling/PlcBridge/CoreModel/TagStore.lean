/-
  PlcBridge.CoreModel.TagStore

  Runtime tags and their store (core-model/src/{tag,tag_store}.rs), as the
  sequential effect of each method.

  `Inner` is the source's record: per-tag slots, a map from ids to slot
  positions, the cached sorted id list and the subscriber channels.  Its
  methods are translated on the raw record; `Inner.WF` says that the three
  structural fields agree, every method keeps it, and `TagStore` is an
  `Inner` that carries it.

  `Utc::now()` is an argument (`now`) of the methods that read the clock.
-/
import PlcBridge.CoreModel.TagDefinition

namespace PlcBridge

-- ============================================================================
-- Runtime tags
-- ============================================================================

/-- Runtime state of a tag. -/
structure Tag where
  value : TagValue
  quality : TagQuality
  sourceTimestamp : DateTime
  serverTimestamp : DateTime
deriving DecidableEq

namespace Tag

/-- Create a new tag, waiting for its first PLC value. -/
def new (value : TagValue) (now : DateTime) : Tag := ⟨value, .initializing, now, now⟩

/-- Apply a read value and update timestamps. -/
def applyRead (t : Tag) (value : TagValue) (quality : TagQuality) (sourceTs now : DateTime) : Tag :=
  { t with value := value, quality := quality, sourceTimestamp := sourceTs, serverTimestamp := now }

/-- Set the quality. -/
def setQuality (t : Tag) (quality : TagQuality) (now : DateTime) : Tag :=
  { t with quality := quality, serverTimestamp := now }

/-- Update the server timestamp. -/
def touch (t : Tag) (now : DateTime) : Tag := { t with serverTimestamp := now }

end Tag

-- ============================================================================
-- Subscribers
-- ============================================================================

/-- A change event: the id and a snapshot of the tag after the change. -/
structure TagChange where
  tagId : String
  tag : Tag
deriving DecidableEq

/-- A subscriber's bounded channel: the undelivered events and whether the
    receiver still exists. -/
structure Subscriber where
  pending : List TagChange
  connected : Bool

/-- Capacity of the `sync_channel` a subscriber gets. -/
def subscriberCapacity : Nat := 128

/-- `try_send`: a full or disconnected channel drops the event. -/
def Subscriber.trySend (s : Subscriber) (c : TagChange) : Subscriber :=
  if s.connected ∧ s.pending.length < subscriberCapacity then
    { s with pending := s.pending ++ [c] }
  else s

-- ============================================================================
-- The store's record
-- ============================================================================

/-- Contiguous storage guarded by the store's lock. -/
structure Inner where
  tags : List Tag
  index : AList fun _ : String => Nat
  sortedIds : List String
  subscribers : List Subscriber

/-- `sorted_ids.insert(pos, id)` at the position `binary_search_by` reports:
    behind every smaller id. -/
def insertSorted (id : String) : List String → List String
  | [] => [id]
  | x :: xs => if x < id then x :: insertSorted id xs else id :: x :: xs

namespace Inner

def new : Inner := ⟨[], ∅, [], []⟩

/-- The tag in the slot `id` is mapped to. -/
def tag? (i : Inner) (id : String) : Option Tag := (i.index.lookup id).bind (i.tags[·]?)

/-- Store a tag into slot `idx`. -/
def store (i : Inner) (idx : Nat) (tag : Tag) : Inner := { i with tags := i.tags.set idx tag }

/-- Publish a change to all subscribers. -/
def broadcastChange (i : Inner) (id : String) (tag : Tag) : Inner :=
  { i with subscribers := i.subscribers.map (·.trySend ⟨id, tag⟩) }

/-- Insert or replace a tag.  An existing id keeps its slot; a new id gets
    the next slot and its place in the sorted list. -/
def insert (i : Inner) (id : String) (tag : Tag) : Inner :=
  match i.index.lookup id with
  | some idx => (i.store idx tag).broadcastChange id tag
  | none =>
      broadcastChange
        { i with
          tags := i.tags ++ [tag]
          index := i.index.insert id i.tags.length
          sortedIds := insertSorted id i.sortedIds } id tag

/-- Snapshot of the tag under `id`. -/
def get (i : Inner) (id : String) : Except CoreError Tag :=
  match i.tag? id with
  | some tag => .ok tag
  | none => .error (.tagNotFound id)

/-- Register a subscriber. -/
def subscribe (i : Inner) : Inner := { i with subscribers := i.subscribers ++ [⟨[], true⟩] }

/-- The load-modify-store-broadcast sequence the update methods share. -/
def modify (i : Inner) (id : String) (f : Tag → Tag) : Except CoreError Tag × Inner :=
  match i.index.lookup id, i.tag? id with
  | some idx, some current => (.ok (f current), (i.store idx (f current)).broadcastChange id (f current))
  | _, _ => (.error (.tagNotFound id), i)

/-- Update a tag's value, checked against the configured type `expected`. -/
def updateValueWithExpected (i : Inner) (id : String) (value : TagValue) (quality : TagQuality)
    (sourceTs : DateTime) (expected : TagDataType) (now : DateTime) : Except CoreError Tag × Inner :=
  if value.matches expected then i.modify id (·.applyRead value quality sourceTs now)
  else (.error (.typeMismatch id), i)

/-- Set only the quality of an existing tag. -/
def setQuality (i : Inner) (id : String) (quality : TagQuality) (now : DateTime) :
    Except CoreError Unit × Inner :=
  let r := i.modify id (·.setQuality quality now)
  (r.1.map fun _ => (), r.2)

/-- Apply a closure to a snapshot of the tag and store the result.  The value
    the closure returns beside the tag is left out. -/
def tryUpdateWith (i : Inner) (id : String) (f : Tag → Except CoreError Tag) (now : DateTime) :
    Except CoreError Tag × Inner :=
  match i.index.lookup id, i.tag? id with
  | some idx, some current =>
      match f current with
      | .error e => (.error e, i)
      | .ok t =>
          let t := t.touch now
          (.ok t, (i.store idx t).broadcastChange id t)
  | _, _ => (.error (.tagNotFound id), i)

-- ============================================================================
-- The representation invariant
-- ============================================================================

/-- The slots, the map and the sorted list agree: ids are mapped one-to-one
    onto the slots, and the sorted list holds exactly the mapped ids. -/
structure WF (i : Inner) : Prop where
  index_lt : ∀ {id idx}, i.index.lookup id = some idx → idx < i.tags.length
  index_inj : ∀ {id id' idx}, i.index.lookup id = some idx → i.index.lookup id' = some idx → id = id'
  index_surj : ∀ idx, idx < i.tags.length → ∃ id, i.index.lookup id = some idx
  sorted : i.sortedIds.Pairwise (· < ·)
  mem_sorted : ∀ id, id ∈ i.sortedIds ↔ id ∈ i.index

theorem wf_new : new.WF where
  index_lt := by simp [new]
  index_inj := by simp [new]
  index_surj := by simp [new]
  sorted := List.Pairwise.nil
  mem_sorted := by simp [new]

@[simp] theorem index_broadcastChange (i : Inner) (id : String) (t : Tag) :
    (i.broadcastChange id t).index = i.index := rfl

@[simp] theorem tags_broadcastChange (i : Inner) (id : String) (t : Tag) :
    (i.broadcastChange id t).tags = i.tags := rfl

@[simp] theorem sortedIds_broadcastChange (i : Inner) (id : String) (t : Tag) :
    (i.broadcastChange id t).sortedIds = i.sortedIds := rfl

@[simp] theorem index_store (i : Inner) (idx : Nat) (t : Tag) : (i.store idx t).index = i.index := rfl

@[simp] theorem sortedIds_store (i : Inner) (idx : Nat) (t : Tag) :
    (i.store idx t).sortedIds = i.sortedIds := rfl

theorem WF.broadcastChange {i : Inner} (h : i.WF) (id : String) (t : Tag) :
    (i.broadcastChange id t).WF := ⟨h.index_lt, h.index_inj, h.index_surj, h.sorted, h.mem_sorted⟩

theorem WF.subscribe {i : Inner} (h : i.WF) : i.subscribe.WF :=
  ⟨h.index_lt, h.index_inj, h.index_surj, h.sorted, h.mem_sorted⟩

theorem WF.store {i : Inner} (h : i.WF) (idx : Nat) (t : Tag) : (i.store idx t).WF where
  index_lt := by
    intro id idx' hl
    simpa [Inner.store] using h.index_lt hl
  index_inj := h.index_inj
  index_surj := by
    intro idx' hlt
    exact h.index_surj idx' (by simpa [Inner.store] using hlt)
  sorted := h.sorted
  mem_sorted := h.mem_sorted

/-- In a well-formed store a mapped id has a tag. -/
theorem WF.tag?_isSome_iff {i : Inner} (h : i.WF) (id : String) :
    (i.tag? id).isSome ↔ id ∈ i.index := by
  rw [← AList.lookup_isSome]
  unfold tag?
  cases hl : i.index.lookup id with
  | none => simp
  | some idx => simp [h.index_lt hl]

theorem WF.modify {i : Inner} (h : i.WF) (id : String) (f : Tag → Tag) : (i.modify id f).2.WF := by
  unfold Inner.modify
  split
  · exact (h.store _ _).broadcastChange _ _
  · exact h

theorem WF.updateValueWithExpected {i : Inner} (h : i.WF) (id : String) (v : TagValue)
    (q : TagQuality) (ts : DateTime) (dt : TagDataType) (now : DateTime) :
    (i.updateValueWithExpected id v q ts dt now).2.WF := by
  unfold Inner.updateValueWithExpected
  split
  · exact h.modify _ _
  · exact h

theorem WF.tryUpdateWith {i : Inner} (h : i.WF) (id : String) (f : Tag → Except CoreError Tag)
    (now : DateTime) : (i.tryUpdateWith id f now).2.WF := by
  unfold Inner.tryUpdateWith
  split
  · split
    · exact h
    · exact (h.store _ _).broadcastChange _ _
  · exact h

-- ----------------------------------------------------------------------------
-- Keeping the cached id list sorted
-- ----------------------------------------------------------------------------

theorem mem_insertSorted (id x : String) (ids : List String) :
    x ∈ insertSorted id ids ↔ x = id ∨ x ∈ ids := by
  induction ids with
  | nil => simp [insertSorted]
  | cons y ys ih =>
      simp only [insertSorted]
      by_cases h : y < id
      · rw [if_pos h, List.mem_cons, ih, List.mem_cons]
        tauto
      · rw [if_neg h, List.mem_cons]

/-- The list stays strictly ascending: what is kept in front is smaller than
    `id`, and what follows is larger because its first element is. -/
theorem sorted_insertSorted {id : String} {ids : List String} (hs : ids.Pairwise (· < ·))
    (hid : id ∉ ids) : (insertSorted id ids).Pairwise (· < ·) := by
  induction ids with
  | nil => exact List.pairwise_singleton _ id
  | cons y ys ih =>
      rw [List.pairwise_cons] at hs
      rw [List.mem_cons, not_or] at hid
      simp only [insertSorted]
      by_cases h : y < id
      · rw [if_pos h, List.pairwise_cons]
        refine ⟨?_, ih hs.2 hid.2⟩
        intro z hz
        rcases (mem_insertSorted id z ys).mp hz with rfl | hz
        · exact h
        · exact hs.1 z hz
      · have hlt : id < y := lt_of_le_of_ne (not_lt.mp h) hid.1
        rw [if_neg h, List.pairwise_cons, List.pairwise_cons]
        refine ⟨?_, hs⟩
        intro z hz
        rcases List.mem_cons.mp hz with rfl | hz
        · exact hlt
        · exact lt_trans hlt (hs.1 z hz)

theorem WF.insert {i : Inner} (h : i.WF) (id : String) (t : Tag) : (i.insert id t).WF := by
  unfold Inner.insert
  cases hl : i.index.lookup id with
  | some idx => exact (h.store _ _).broadcastChange _ _
  | none =>
      have hnot : id ∉ i.index := AList.lookup_eq_none.mp hl
      apply WF.broadcastChange
      refine ⟨?_, ?_, ?_, sorted_insertSorted h.sorted ?_, ?_⟩
      · intro id' idx' hl'
        rw [List.length_append, List.length_singleton]
        by_cases hid : id' = id
        · subst hid
          rw [AList.lookup_insert] at hl'
          have := Option.some.inj hl'
          omega
        · rw [AList.lookup_insert_ne hid] at hl'
          have := h.index_lt hl'
          omega
      · intro a b idx' ha hb
        -- The new slot is fresh, so no old id shares it.
        by_cases hia : a = id <;> by_cases hib : b = id
        · rw [hia, hib]
        · subst hia
          rw [AList.lookup_insert] at ha
          rw [AList.lookup_insert_ne hib] at hb
          have := h.index_lt hb
          have := Option.some.inj ha
          omega
        · subst hib
          rw [AList.lookup_insert] at hb
          rw [AList.lookup_insert_ne hia] at ha
          have := h.index_lt ha
          have := Option.some.inj hb
          omega
        · rw [AList.lookup_insert_ne hia] at ha
          rw [AList.lookup_insert_ne hib] at hb
          exact h.index_inj ha hb
      · intro idx' hlt
        rw [List.length_append, List.length_singleton] at hlt
        by_cases hlast : idx' = i.tags.length
        · exact ⟨id, by rw [AList.lookup_insert, hlast]⟩
        · obtain ⟨id', hid'⟩ := h.index_surj idx' (by omega)
          have hne : id' ≠ id := by
            rintro rfl
            rw [hl] at hid'
            exact absurd hid' (by simp)
          exact ⟨id', by rw [AList.lookup_insert_ne hne, hid']⟩
      · rw [h.mem_sorted]
        exact hnot
      · intro x
        rw [mem_insertSorted, h.mem_sorted, AList.mem_insert]

-- ============================================================================
-- What each method does to the tags
-- ============================================================================

@[simp] theorem tag?_broadcastChange (i : Inner) (id id' : String) (t : Tag) :
    (i.broadcastChange id t).tag? id' = i.tag? id' := rfl

theorem tag?_store {i : Inner} (h : i.WF) {id : String} {idx : Nat}
    (hl : i.index.lookup id = some idx) (t : Tag) (id' : String) :
    (i.store idx t).tag? id' = if id' = id then some t else i.tag? id' := by
  by_cases hid : id' = id
  · subst hid
    rw [if_pos rfl]
    simp [tag?, Inner.store, hl, h.index_lt hl]
  · rw [if_neg hid]
    unfold tag?
    simp only [index_store]
    cases hl' : i.index.lookup id' with
    | none => rfl
    | some idx' =>
        have hne : idx ≠ idx' := by
          rintro rfl
          exact hid (h.index_inj hl' hl)
        simp [Inner.store, List.getElem?_set_ne hne]

theorem tag?_insert {i : Inner} (h : i.WF) (id : String) (t : Tag) (id' : String) :
    (i.insert id t).tag? id' = if id' = id then some t else i.tag? id' := by
  unfold Inner.insert
  cases hl : i.index.lookup id with
  | some idx =>
      simp only [tag?_broadcastChange]
      exact tag?_store h hl t id'
  | none =>
      simp only [tag?_broadcastChange]
      unfold tag?
      by_cases hid : id' = id
      · subst hid
        rw [if_pos rfl]
        simp
      · rw [if_neg hid]
        simp only [AList.lookup_insert_ne hid]
        cases hl' : i.index.lookup id' with
        | none => rfl
        | some idx' =>
            have hlt := h.index_lt hl'
            simp [List.getElem?_append_left hlt]

/-- `modify` rewrites the tag under `id` and no other. -/
theorem tag?_modify {i : Inner} (h : i.WF) (id : String) (f : Tag → Tag) (id' : String) :
    (i.modify id f).2.tag? id' = if id' = id then (i.tag? id).map f else i.tag? id' := by
  unfold Inner.modify
  split
  · rename_i idx current hl hcur
    rw [hcur]
    simpa using tag?_store h hl (f current) id'
  · rename_i hno
    by_cases hid : id' = id
    · subst hid
      rw [if_pos rfl]
      cases hc : i.tag? id' with
      | none => rfl
      | some current =>
          cases hl : i.index.lookup id' with
          | none => simp [tag?, hl] at hc
          | some idx => exact absurd hc (hno idx current hl)
    · rw [if_neg hid]

/-- A value of the expected type is applied to the tag under `id`; any other
    value changes nothing. -/
theorem tag?_updateValueWithExpected {i : Inner} (h : i.WF) (id : String) (v : TagValue)
    (q : TagQuality) (ts : DateTime) (dt : TagDataType) (now : DateTime) (id' : String) :
    (i.updateValueWithExpected id v q ts dt now).2.tag? id' =
      if id' = id ∧ v.dataType = dt then (i.tag? id).map (·.applyRead v q ts now)
      else i.tag? id' := by
  unfold Inner.updateValueWithExpected TagValue.matches
  by_cases hm : v.dataType = dt
  · rw [if_pos (decide_eq_true hm), tag?_modify h]
    simp only [hm, and_true]
  · rw [if_neg (by simpa using hm), if_neg (fun h => hm h.2)]

theorem modify_fst {i : Inner} (id : String) (f : Tag → Tag) :
    (i.modify id f).1 = match i.tag? id with
      | some t => .ok (f t)
      | none => .error (.tagNotFound id) := by
  unfold Inner.modify
  cases hl : i.index.lookup id with
  | none => simp [tag?, hl]
  | some idx => cases i.tag? id <;> rfl

/-- A failed `modify` changes nothing at all. -/
theorem modify_eq_self_of_error {i : Inner} {id : String} {f : Tag → Tag} {e : CoreError}
    (h : (i.modify id f).1 = .error e) : (i.modify id f).2 = i := by
  unfold Inner.modify at h ⊢
  split
  · rename_i hl hc
    rw [hl, hc] at h
    exact absurd h (by simp)
  · rfl

@[simp] theorem index_modify (i : Inner) (id : String) (f : Tag → Tag) :
    (i.modify id f).2.index = i.index := by
  unfold Inner.modify
  split <;> rfl

@[simp] theorem sortedIds_modify (i : Inner) (id : String) (f : Tag → Tag) :
    (i.modify id f).2.sortedIds = i.sortedIds := by
  unfold Inner.modify
  split <;> rfl

theorem index_insert (i : Inner) (id : String) (t : Tag) (x : String) :
    x ∈ (i.insert id t).index ↔ x = id ∨ x ∈ i.index := by
  unfold Inner.insert
  cases hl : i.index.lookup id with
  | some idx =>
      have hid : id ∈ i.index := AList.lookup_isSome.mp (by rw [hl]; rfl)
      constructor
      · exact Or.inr
      · rintro (rfl | h)
        · exact hid
        · exact h
  | none => exact AList.mem_insert i.index

end Inner

-- ============================================================================
-- The store
-- ============================================================================

/-- The runtime store: a record whose fields agree. -/
structure TagStore where
  inner : Inner
  wf : inner.WF

namespace TagStore

def new : TagStore := ⟨Inner.new, Inner.wf_new⟩

def insert (s : TagStore) (id : String) (tag : Tag) : TagStore :=
  ⟨s.inner.insert id tag, s.wf.insert id tag⟩

def get (s : TagStore) (id : String) : Except CoreError Tag := s.inner.get id

def subscribe (s : TagStore) : TagStore := ⟨s.inner.subscribe, s.wf.subscribe⟩

def listIdsSorted (s : TagStore) : List String := s.inner.sortedIds

def updateValueWithExpected (s : TagStore) (id : String) (value : TagValue) (quality : TagQuality)
    (sourceTs : DateTime) (expected : TagDataType) (now : DateTime) :
    Except CoreError Tag × TagStore :=
  let r := s.inner.updateValueWithExpected id value quality sourceTs expected now
  (r.1, ⟨r.2, s.wf.updateValueWithExpected id value quality sourceTs expected now⟩)

def setQuality (s : TagStore) (id : String) (quality : TagQuality) (now : DateTime) :
    Except CoreError Unit × TagStore :=
  let r := s.inner.setQuality id quality now
  (r.1, ⟨r.2, s.wf.modify _ _⟩)

end TagStore

end PlcBridge
