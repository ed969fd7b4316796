/-
  PlcBridge.CoreModel.StoreRuns

  Sequences of calls on the tag store (core-model/src/tag_store.rs).  A run
  records what each call returned and the tag it stored; from that record and
  the inserted ids alone one can tell the slots, the index, the sorted ids and
  what `get` returns.
-/
import Mathlib.Data.Finset.Card
import PlcBridge.CoreModel.TagStore

namespace PlcBridge

-- ============================================================================
-- Calls and runs
-- ============================================================================

/-- A call on the store, with the clock it reads. -/
inductive StoreOp where
  | insert (id : String) (tag : Tag)
  | updateValueWithExpected (id : String) (value : TagValue) (quality : TagQuality)
      (sourceTs : DateTime) (expected : TagDataType) (now : DateTime)
  | setQuality (id : String) (quality : TagQuality) (now : DateTime)
  | tryUpdateWith (id : String) (f : Tag → Except CoreError Tag) (now : DateTime)
  | subscribe

/-- How a call ended: its error, or the tag it stored and under which id. -/
abbrev StoreResult := Except CoreError (Option TagChange)

/-- `len`. -/
def Inner.len (i : Inner) : ℕ := i.tags.length

namespace StoreOp

/-- The id a call is about. -/
def id? : StoreOp → Option String
  | .insert id _ => some id
  | .updateValueWithExpected id _ _ _ _ _ => some id
  | .setQuality id _ _ => some id
  | .tryUpdateWith id _ _ => some id
  | .subscribe => none

/-- The id a call inserts. -/
def inserted? : StoreOp → Option String
  | .insert id _ => some id
  | _ => none

/-- Run a call. -/
def run (i : Inner) : StoreOp → StoreResult × Inner
  | .insert id tag => (.ok (some ⟨id, tag⟩), i.insert id tag)
  | .updateValueWithExpected id value quality sourceTs expected now =>
      let r := i.updateValueWithExpected id value quality sourceTs expected now
      (r.1.map fun t => some ⟨id, t⟩, r.2)
  | .setQuality id quality now =>
      -- `set_quality` returns nothing; the tag it stored is the one `modify` returns.
      ((i.modify id (·.setQuality quality now)).1.map fun t => some ⟨id, t⟩,
        (i.setQuality id quality now).2)
  | .tryUpdateWith id f now =>
      let r := i.tryUpdateWith id f now
      (r.1.map fun t => some ⟨id, t⟩, r.2)
  | .subscribe => (.ok none, i.subscribe)

end StoreOp

/-- Run calls one after the other. -/
def runOps : List StoreOp → Inner → List StoreResult × Inner
  | [], i => ([], i)
  | op :: ops, i => ((op.run i).1 :: (runOps ops (op.run i).2).1, (runOps ops (op.run i).2).2)

/-- The ids a sequence of calls inserts, in call order. -/
def insertedIds (ops : List StoreOp) : List String := ops.filterMap StoreOp.inserted?

/-- The tag a call stored under `id`, if it did. -/
def storedFor (id : String) : StoreResult → Option Tag
  | .ok (some c) => if c.tagId = id then some c.tag else none
  | _ => none

/-- The tag of the last successful call on `id`. -/
def lastStored (id : String) (results : List StoreResult) : Option Tag :=
  (results.filterMap (storedFor id)).getLast?

-- ============================================================================
-- What one call does
-- ============================================================================

theorem lastStored_concat (id : String) (results : List StoreResult) (r : StoreResult) :
    lastStored id (results ++ [r]) = (storedFor id r).or (lastStored id results) := by
  unfold lastStored
  rw [List.filterMap_append]
  cases h : storedFor id r with
  | none => simp [h]
  | some t => simp [h]

theorem insertedIds_concat (ops : List StoreOp) (op : StoreOp) (id : String) :
    id ∈ insertedIds (ops ++ [op]) ↔ op.inserted? = some id ∨ id ∈ insertedIds ops := by
  unfold insertedIds
  rw [List.filterMap_append, List.mem_append]
  cases h : op.inserted? with
  | none => simp [h]
  | some id' => simp [h, or_comm, eq_comm]

theorem storedFor_map_ok (id id' : String) (r : Except CoreError Tag) :
    storedFor id' (r.map fun t => some ⟨id, t⟩) = if id = id' then r.toOption else none := by
  cases r with
  | error e => simp [Except.map, storedFor, Except.toOption]
  | ok t => rfl

namespace Inner

variable {i : Inner}

/-- `modify` stores the tag it returns. -/
theorem tag?_modify_or (h : i.WF) (id : String) (f : Tag → Tag) (id' : String) :
    (i.modify id f).2.tag? id'
      = (if id = id' then (i.modify id f).1.toOption else none).or (i.tag? id') := by
  rw [tag?_modify h, modify_fst]
  by_cases hid : id = id'
  · subst hid
    cases i.tag? id <;> simp [Except.toOption]
  · rw [if_neg (Ne.symm hid), if_neg hid, Option.none_or]

/-- The closure's tag is stored, with its server timestamp touched. -/
theorem tag?_tryUpdateWith_or (h : i.WF) (id : String) (f : Tag → Except CoreError Tag)
    (now : DateTime) (id' : String) :
    (i.tryUpdateWith id f now).2.tag? id'
        = (if id = id' then (i.tryUpdateWith id f now).1.toOption else none).or (i.tag? id') := by
  unfold Inner.tryUpdateWith
  split
  · rename_i idx current hl hcur
    split
    · simp [Except.toOption]
    · rename_i t ht
      rw [tag?_broadcastChange, tag?_store h hl]
      by_cases hid : id = id'
      · rw [if_pos hid.symm, if_pos hid]
        rfl
      · rw [if_neg (Ne.symm hid), if_neg hid, Option.none_or]
  · simp [Except.toOption]

theorem length_tags_modify (i : Inner) (id : String) (f : Tag → Tag) :
    (i.modify id f).2.tags.length = i.tags.length := by
  unfold Inner.modify
  split
  · exact List.length_set
  · rfl

theorem length_insertSorted (id : String) (ids : List String) :
    (insertSorted id ids).length = ids.length + 1 := by
  induction ids with
  | nil => rfl
  | cons x xs ih =>
      simp only [insertSorted]
      by_cases h : x < id
      · rw [if_pos h, List.length_cons, ih, List.length_cons]
      · rw [if_neg h, List.length_cons]

/-- `Vec::insert` at the position `binary_search_by` reports for an id that is
    not in the list: everything before it is smaller, everything from it on is
    larger. -/
theorem insertIdx_eq_insertSorted {id : String} {ids : List String} {pos : ℕ}
    (hpos : pos ≤ ids.length) (hbefore : ∀ x : String, x ∈ ids.take pos → x < id)
    (hafter : ∀ x : String, x ∈ ids.drop pos → id < x) :
    ids.insertIdx pos id = insertSorted id ids := by
  induction ids generalizing pos with
  | nil =>
      obtain rfl : pos = 0 := by simpa using hpos
      rfl
  | cons y ys ih =>
      cases pos with
      | zero =>
          have hy : id < y := hafter y (by simp)
          rw [insertSorted, if_neg (not_lt.mpr hy.le), List.insertIdx_zero]
      | succ pos =>
          have hy : y < id := hbefore y (by simp)
          rw [insertSorted, if_pos hy, List.insertIdx_succ_cons,
            ih (by simpa using hpos) (fun x hx => hbefore x (by simp [hx]))
              (fun x hx => hafter x (by simpa using hx))]

end Inner

namespace StoreOp

variable {i : Inner}

theorem wf_run (h : i.WF) (op : StoreOp) : (op.run i).2.WF := by
  cases op with
  | insert id tag => exact h.insert id tag
  | updateValueWithExpected id v q ts dt now => exact h.updateValueWithExpected id v q ts dt now
  | setQuality id q now => exact h.modify id _
  | tryUpdateWith id f now => exact h.tryUpdateWith id f now
  | subscribe => exact h.subscribe

/-- A call replaces the tag it reports to have stored, and no other. -/
theorem tag?_run (h : i.WF) (op : StoreOp) (id' : String) :
    (op.run i).2.tag? id' = (storedFor id' (op.run i).1).or (i.tag? id') := by
  cases op with
  | insert id tag =>
      simp only [run, Inner.tag?_insert h, storedFor]
      by_cases hid : id = id'
      · rw [if_pos hid.symm, if_pos hid, Option.some_or]
      · rw [if_neg (Ne.symm hid), if_neg hid, Option.none_or]
  | updateValueWithExpected id v q ts dt now =>
      simp only [run, storedFor_map_ok, Inner.updateValueWithExpected]
      split
      · exact Inner.tag?_modify_or h id _ id'
      · simp [Except.toOption]
  | setQuality id q now =>
      simp only [run, storedFor_map_ok]
      exact Inner.tag?_modify_or h id _ id'
  | tryUpdateWith id f now =>
      simp only [run, storedFor_map_ok]
      exact Inner.tag?_tryUpdateWith_or h id f now id'
  | subscribe => rfl

/-- Only the id a call is about can have its tag stored. -/
theorem storedFor_run {op : StoreOp} {id' : String} (hid : op.id? ≠ some id') :
    storedFor id' (op.run i).1 = none := by
  have hne : ∀ {id : String}, op.id? = some id → id ≠ id' := by
    rintro id hop rfl
    exact hid hop
  cases op with
  | insert id tag => exact if_neg (hne rfl)
  | updateValueWithExpected id v q ts dt now =>
      simp only [run, storedFor_map_ok, if_neg (hne rfl)]
  | setQuality id q now => simp only [run, storedFor_map_ok, if_neg (hne rfl)]
  | tryUpdateWith id f now => simp only [run, storedFor_map_ok, if_neg (hne rfl)]
  | subscribe => rfl

/-- Only an insertion changes which ids are mapped. -/
theorem mem_index_run (op : StoreOp) (id' : String) :
    id' ∈ (op.run i).2.index ↔ op.inserted? = some id' ∨ id' ∈ i.index := by
  cases op with
  | insert id tag => simp only [run, Inner.index_insert, inserted?, Option.some.injEq, eq_comm]
  | updateValueWithExpected id v q ts dt now =>
      simp only [run, Inner.updateValueWithExpected, inserted?]
      split <;> simp
  | setQuality id q now => simp [run, Inner.setQuality, inserted?]
  | tryUpdateWith id f now =>
      simp only [run, Inner.tryUpdateWith, inserted?]
      split
      · split <;> simp
      · simp
  | subscribe => simp [run, Inner.subscribe, inserted?]

/-- Slots and sorted ids grow together. -/
theorem length_run (op : StoreOp) (hlen : i.sortedIds.length = i.tags.length) :
    (op.run i).2.sortedIds.length = (op.run i).2.tags.length := by
  cases op with
  | insert id tag =>
      simp only [run, Inner.insert]
      split
      · simpa [Inner.store] using hlen
      · simpa [Inner.length_insertSorted] using hlen
  | updateValueWithExpected id v q ts dt now =>
      simp only [run, Inner.updateValueWithExpected]
      split
      · rw [Inner.sortedIds_modify, Inner.length_tags_modify, hlen]
      · exact hlen
  | setQuality id q now =>
      simp only [run, Inner.setQuality, Inner.sortedIds_modify, Inner.length_tags_modify, hlen]
  | tryUpdateWith id f now =>
      simp only [run, Inner.tryUpdateWith]
      split
      · split
        · exact hlen
        · simpa [Inner.store] using hlen
      · exact hlen
  | subscribe => exact hlen

end StoreOp

-- ============================================================================
-- What a run does
-- ============================================================================

/-- The store holds what the calls so far say: the invariant of a run. -/
structure Represents (ops : List StoreOp) (results : List StoreResult) (i : Inner) : Prop where
  wf : i.WF
  length_eq : i.sortedIds.length = i.tags.length
  mem_index : ∀ id : String, id ∈ i.index ↔ id ∈ insertedIds ops
  tag?_eq : ∀ id : String, i.tag? id = lastStored id results

theorem Represents.new : Represents [] [] Inner.new where
  wf := Inner.wf_new
  length_eq := rfl
  mem_index := by simp [Inner.new, insertedIds]
  tag?_eq := by simp [Inner.new, Inner.tag?, lastStored]

theorem Represents.step {ops : List StoreOp} {results : List StoreResult} {i : Inner}
    (h : Represents ops results i) (op : StoreOp) :
    Represents (ops ++ [op]) (results ++ [(op.run i).1]) (op.run i).2 where
  wf := op.wf_run h.wf
  length_eq := op.length_run h.length_eq
  mem_index := by
    intro id
    rw [op.mem_index_run, insertedIds_concat, h.mem_index]
  tag?_eq := by
    intro id
    rw [op.tag?_run h.wf, lastStored_concat, h.tag?_eq]

theorem Represents.runOps {ops : List StoreOp} {results : List StoreResult} {i : Inner}
    (h : Represents ops results i) (more : List StoreOp) :
    Represents (ops ++ more) (results ++ (runOps more i).1) (runOps more i).2 := by
  induction more generalizing ops results i with
  | nil => simpa [PlcBridge.runOps] using h
  | cons op more ih => simpa [PlcBridge.runOps] using ih (h.step op)

/-- The number of slots is the number of different ids inserted: the sorted
    list has one entry for each. -/
theorem Represents.len_eq {ops : List StoreOp} {results : List StoreResult} {i : Inner}
    (h : Represents ops results i) : i.len = (insertedIds ops).toFinset.card := by
  have hnodup : i.sortedIds.Nodup := h.wf.sorted.imp fun hlt => ne_of_lt hlt
  have hsame : i.sortedIds.toFinset = (insertedIds ops).toFinset := by
    ext id
    rw [List.mem_toFinset, List.mem_toFinset, h.wf.mem_sorted, h.mem_index]
  rw [← hsame, List.toFinset_card_of_nodup hnodup, h.length_eq]
  rfl

/-- `get` finds a tag or reports the id. -/
theorem Inner.get_eq_ok (i : Inner) (id : String) (t : Tag) :
    i.get id = .ok t ↔ i.tag? id = some t := by
  unfold Inner.get
  cases i.tag? id <;> simp

theorem Inner.get_eq_error (i : Inner) (id : String) (e : CoreError) :
    i.get id = .error e ↔ e = .tagNotFound id ∧ i.tag? id = none := by
  unfold Inner.get
  cases i.tag? id <;> simp [eq_comm]

theorem Inner.get_congr {i i' : Inner} {id : String} (h : i.tag? id = i'.tag? id) :
    i.get id = i'.get id := by
  rw [Inner.get, Inner.get, h]

/-- What the representation of a store promises its callers after the calls
    `ops`, which ended as `results` say. -/
structure ConsistentWith (ops : List StoreOp) (results : List StoreResult) (i : Inner) : Prop where
  /-- The index maps exactly the inserted ids, -/
  index_dom : ∀ id : String, (i.index.lookup id).isSome ↔ id ∈ insertedIds ops
  /-- each to a slot, -/
  index_lt : ∀ (id : String) (idx : ℕ), i.index.lookup id = some idx → idx < i.tags.length
  /-- no two to the same one, -/
  index_inj : ∀ (id id' : String) (idx : ℕ), i.index.lookup id = some idx →
    i.index.lookup id' = some idx → id = id'
  /-- and leaves no slot out. -/
  index_surj : ∀ idx : ℕ, idx < i.tags.length → ∃ id, i.index.lookup id = some idx
  sorted : i.sortedIds.Pairwise (· < ·)
  mem_sorted : ∀ id : String, id ∈ i.sortedIds ↔ id ∈ insertedIds ops
  len_eq : i.len = (insertedIds ops).toFinset.card
  /-- `get` returns the tag of the last successful call on the id, -/
  get_ok : ∀ (id : String) (t : Tag), i.get id = .ok t ↔ lastStored id results = some t
  /-- and an error exactly for ids that were never inserted. -/
  get_error : ∀ (id : String) (e : CoreError),
    i.get id = .error e ↔ e = .tagNotFound id ∧ id ∉ insertedIds ops
  /-- A further call leaves every tag alone but the one it is about. -/
  frame : ∀ (op : StoreOp) (id : String), op.id? ≠ some id → (op.run i).2.get id = i.get id

/-- After every sequence of calls on a new store, its slots, its index and its
    sorted ids agree with each other and with the calls. -/
theorem consistent_runOps (ops : List StoreOp) :
    ConsistentWith ops (runOps ops Inner.new).1 (runOps ops Inner.new).2 := by
  have h : Represents ops (runOps ops Inner.new).1 (runOps ops Inner.new).2 :=
    Represents.new.runOps ops
  refine ⟨?_, fun _ _ => h.wf.index_lt, fun _ _ _ => h.wf.index_inj, h.wf.index_surj, h.wf.sorted,
    ?_, h.len_eq, ?_, ?_, ?_⟩
  · intro id
    rw [AList.lookup_isSome, h.mem_index]
  · intro id
    rw [h.wf.mem_sorted, h.mem_index]
  · intro id t
    rw [Inner.get_eq_ok, h.tag?_eq]
  · intro id e
    have hnone : (runOps ops Inner.new).2.tag? id = none ↔ id ∉ insertedIds ops := by
      rw [← Option.not_isSome_iff_eq_none, h.wf.tag?_isSome_iff, h.mem_index]
    rw [Inner.get_eq_error, hnone]
  · intro op id hid
    apply Inner.get_congr
    rw [op.tag?_run h.wf, StoreOp.storedFor_run hid, Option.none_or]

end PlcBridge
