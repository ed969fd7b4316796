/-
  PlcBridge.CoreModel.LostUpdates

  When concurrent calls of the store's methods add up to a sequential run.

  A method that keeps part of the tag (`set_quality`, `try_update_with`) stores
  it back as it was loaded: what another call stored in between is lost.  If
  the slot is undisturbed between load and store, the calls take effect one
  after the other, in the order of their stores.
-/
import PlcBridge.CoreModel.Concurrent

namespace PlcBridge.Concurrent

open PlcBridge.Lib

/-- All of a tag but the server timestamp. -/
def observed (t : Tag) : TagValue × TagQuality × DateTime := (t.value, t.quality, t.sourceTimestamp)

/-- Run calls one after the other, each with its clock reading. -/
def runInOrder (calls : List Call) (order : List (Nat × DateTime)) (i : Inner) : Inner :=
  order.foldl (fun i e =>
    match calls[e.1]? with
    | some c => c.run e.2 i
    | none => i) i

/-- The tags are those some sequential run of the calls that have stored would
    give.  Once all calls have returned these are the successful ones. -/
def Linearized (i₀ : Inner) (calls : List Call) (w : World) : Prop :=
  ∃ order : List (Nat × DateTime), (order.map Prod.fst).Nodup ∧
    (∀ k, k ∈ order.map Prod.fst ↔ ∃ c p, w.calls[k]? = some (c, p) ∧ p.hasStored) ∧
    ∀ id, ((runInOrder calls order i₀).tag? id).map observed = (w.inner.tag? id).map observed

/-- What the method keeps of the snapshot is what the slot now holds. -/
def Method.undisturbed (snapshot current : Tag) : Method → Bool
  | .updateValueWithExpected .. => true
  | .setQuality _ => current.value = snapshot.value ∧ current.sourceTimestamp = snapshot.sourceTimestamp
  | .tryUpdateWith _ => current = snapshot
  | .insert _ => true

/-- A store is made while the slot is undisturbed since the load. -/
def undisturbed (w : World) : Event → Bool
  | .run k _ =>
      match w.calls[k]? with
      | some (c, .loaded idx snapshot) => (w.inner.tags[idx]?).all (c.method.undisturbed snapshot)
      | _ => true
  | .receive _ => true

-- ============================================================================
-- One call
-- ============================================================================

/-- Then storing back the modified snapshot modifies the current tag. -/
theorem apply_of_undisturbed {m : Method} {snapshot current : Tag}
    (h : m.undisturbed snapshot current) (now : DateTime) :
    m.apply now current = m.apply now snapshot := by
  cases m with
  | setQuality q =>
      obtain ⟨hvalue, hts⟩ := of_decide_eq_true h
      simp [Method.apply, Tag.setQuality, hvalue, hts]
  | tryUpdateWith f => rw [of_decide_eq_true h]
  | _ => rfl

theorem tag?_tryUpdateWith {i : Inner} (hwf : i.WF) {id : String} {f : Tag → Except CoreError Tag}
    {now : DateTime} {current t : Tag} (hcurrent : i.tag? id = some current) (hf : f current = .ok t)
    (id' : String) :
    (i.tryUpdateWith id f now).2.tag? id' = if id' = id then some (t.touch now) else i.tag? id' := by
  cases hl : i.index.lookup id with
  | none => exact absurd hcurrent (by simp [Inner.tag?, hl])
  | some idx =>
      simp only [Inner.tryUpdateWith, hl, hcurrent, hf, Inner.tag?_broadcastChange]
      exact Inner.tag?_store hwf hl _ id'

/-- A successful call sets its tag, to what the method makes of the current
    one. -/
theorem tag?_run {c : Call} {now : DateTime} {i : Inner} {tag : Tag} (hwf : i.WF)
    (haccepts : c.method.accepts) (h : c.method = .insert tag ∨
      ∃ current, i.tag? c.id = some current ∧ c.method.apply now current = .ok tag) (id : String) :
    (c.run now i).tag? id = if id = c.id then some tag else i.tag? id := by
  obtain ⟨cid, method⟩ := c
  cases method with
  | insert tag' =>
      have htag : tag' = tag := by
        rcases h with h | ⟨current, -, h⟩
        · exact Method.insert.inj h
        · exact Except.ok.inj h
      rw [← htag]
      exact Inner.tag?_insert hwf _ _ _
  | updateValueWithExpected value quality ts expected =>
      obtain ⟨current, hcurrent, happly⟩ := h.resolve_left (by simp)
      have hdt : value.dataType = expected := by simpa [Method.accepts, TagValue.matches] using haccepts
      rw [Call.run, Inner.tag?_updateValueWithExpected hwf]
      simp only [hdt, and_true, hcurrent, Option.map_some]
      rw [← Except.ok.inj happly]
  | setQuality quality =>
      obtain ⟨current, hcurrent, happly⟩ := h.resolve_left (by simp)
      show (i.modify cid (·.setQuality quality now)).2.tag? id = _
      rw [Inner.tag?_modify hwf]
      simp only [hcurrent, Option.map_some]
      rw [← Except.ok.inj happly]
  | tryUpdateWith f =>
      obtain ⟨current, hcurrent, happly⟩ := h.resolve_left (by simp)
      simp only [Method.apply] at happly
      split at happly
      · exact absurd happly (by simp)
      · rename_i t hf
        rw [← Except.ok.inj happly]
        exact tag?_tryUpdateWith hwf hcurrent hf id

theorem wf_run {i : Inner} (hwf : i.WF) (c : Call) (now : DateTime) : (c.run now i).WF := by
  unfold Call.run
  split
  · exact hwf.updateValueWithExpected _ _ _ _ _ _
  · exact hwf.modify _ _
  · exact hwf.tryUpdateWith _ _ _
  · exact hwf.insert _ _

-- ============================================================================
-- Whole runs
-- ============================================================================

/-- Calls in the order of their writes. -/
def World.order (w : World) : List (Nat × DateTime) := w.writes.reverse.map fun x => (x.call, x.now)

/-- The store agrees with the sequential run of the writes so far. -/
structure Replayed (i₀ : Inner) (calls : List Call) (w : World) : Prop where
  valid : w.Valid
  names : ∀ k : Nat, calls[k]? = (w.calls[k]?).map Prod.fst
  nodup : (w.writes.map Write.call).Nodup
  mem : ∀ k, k ∈ w.writes.map Write.call ↔ ∃ c p, w.calls[k]? = some (c, p) ∧ p.hasStored
  wf : (runInOrder calls w.order i₀).WF
  same : ∀ id, (runInOrder calls w.order i₀).tag? id = w.inner.tag? id

theorem replayed_init {i₀ : Inner} (hwf : i₀.WF) (calls : List Call) :
    Replayed i₀ calls (.init i₀ calls) where
  valid := World.valid_init hwf calls
  names := by
    intro k
    rw [World.init, List.getElem?_map, Option.map_map]
    cases calls[k]? <;> rfl
  nodup := List.nodup_nil
  mem := by
    intro k
    refine ⟨fun h => absurd h (List.not_mem_nil), ?_⟩
    rintro ⟨c, p, hk, hp⟩
    rw [World.init, List.getElem?_map, Option.map_eq_some_iff] at hk
    obtain ⟨c', -, heq⟩ := hk
    obtain ⟨-, rfl⟩ := Prod.mk.inj heq
    exact absurd hp (by simp [Phase.hasStored])
  wf := hwf
  same := fun _ => rfl

variable {i₀ : Inner} {calls : List Call} {w : World} {k : Nat} {now : DateTime} {c : Call} {p p' : Phase}
  {inner : Inner}

/-- Moving call `k` does not change which of the others have stored. -/
theorem hasStored_moved (hk : w.calls[k]? = some (c, p)) (k' : Nat) :
    (∃ c' q, (w.moved k now c p p' inner).calls[k']? = some (c', q) ∧ q.hasStored) ↔
      if k' = k then p'.hasStored = true else ∃ c' q, w.calls[k']? = some (c', q) ∧ q.hasStored := by
  rw [calls_moved hk]
  by_cases hkk : k' = k
  · simp [hkk]
  · simp [hkk]

theorem names_moved (hk : w.calls[k]? = some (c, p))
    (hnames : ∀ k : Nat, calls[k]? = (w.calls[k]?).map Prod.fst) (k' : Nat) :
    calls[k']? = ((w.moved k now c p p' inner).calls[k']?).map Prod.fst := by
  rw [calls_moved hk, hnames]
  by_cases hkk : k' = k
  · rw [if_pos hkk, hkk, hk]
    rfl
  · rw [if_neg hkk]

/-- A step that writes appends its call to the order. -/
theorem runInOrder_write (hc : calls[k]? = some c) (tag : Tag) (hwrite : written p p' = some tag) :
    runInOrder calls (w.moved k now c p p' inner).order i₀ =
      c.run now (runInOrder calls w.order i₀) := by
  have horder : (w.moved k now c p p' inner).order = w.order ++ [(k, now)] := by
    simp [World.order, World.moved, hwrite]
  rw [horder, runInOrder, List.foldl_append, List.foldl_cons, List.foldl_nil, hc]
  rfl

/-- Quiet steps. -/
theorem Replayed.quiet (h : Replayed i₀ calls w) (hk : w.calls[k]? = some (c, p))
    (hwrite : written p p' = none)
    (hstored : p'.hasStored = p.hasStored) (htags : ∀ id, inner.tag? id = w.inner.tag? id)
    (hvalid : (w.moved k now c p p' inner).Valid) :
    Replayed i₀ calls (w.moved k now c p p' inner) := by
  have hwrites : (w.moved k now c p p' inner).writes = w.writes := by simp [World.moved, hwrite]
  refine ⟨hvalid, names_moved hk h.names, ?_, ?_, ?_, ?_⟩
  · rw [hwrites]
    exact h.nodup
  · intro k'
    rw [hwrites, h.mem, hasStored_moved hk]
    by_cases hkk : k' = k
    · rw [if_pos hkk, hkk, hk, hstored]
      simp
    · rw [if_neg hkk]
  · rw [World.order, hwrites]
    exact h.wf
  · intro id
    rw [World.order, hwrites]
    exact (h.same id).trans (htags id).symm

/-- A write is the call's effect on the current tag. -/
theorem Replayed.write (h : Replayed i₀ calls w) (hk : w.calls[k]? = some (c, p)) {tag : Tag}
    (hwrite : written p p' = some tag) (hbefore : p.hasStored = false) (hafter : p'.hasStored = true)
    (htags : ∀ id, inner.tag? id = if id = c.id then some tag else w.inner.tag? id)
    (hrun : ∀ id, (c.run now (runInOrder calls w.order i₀)).tag? id =
      if id = c.id then some tag else (runInOrder calls w.order i₀).tag? id)
    (hvalid : (w.moved k now c p p' inner).Valid) :
    Replayed i₀ calls (w.moved k now c p p' inner) := by
  have hwrites : (w.moved k now c p p' inner).writes = ⟨k, c.id, now, tag⟩ :: w.writes := by
    simp [World.moved, hwrite]
  have hc : calls[k]? = some c := by rw [h.names, hk]; rfl
  have hfresh : k ∉ w.writes.map Write.call := by
    rw [h.mem]
    rintro ⟨c', q, hq, hstored⟩
    rw [hk] at hq
    obtain ⟨-, rfl⟩ := Prod.mk.inj (Option.some.inj hq)
    exact absurd hstored (by simp [hbefore])
  refine ⟨hvalid, names_moved hk h.names, ?_, ?_, ?_, ?_⟩
  · rw [hwrites, List.map_cons, List.nodup_cons]
    exact ⟨hfresh, h.nodup⟩
  · intro k'
    rw [hwrites, List.map_cons, List.mem_cons, h.mem, hasStored_moved hk]
    by_cases hkk : k' = k
    · simp [hkk, hafter]
    · simp [hkk]
  · rw [runInOrder_write hc tag hwrite]
    exact wf_run h.wf c now
  · intro id
    rw [runInOrder_write hc tag hwrite, hrun, h.same]
    exact (htags id).symm

theorem Replayed.step {w' : World} {e : Event} (h : Replayed i₀ calls w) (hok : undisturbed w e)
    (hstep : step w e = some w') : Replayed i₀ calls w' := by
  have hvalid := h.valid.step hstep
  obtain ⟨k, now, c, p, p', inner, rfl, hk, hmove, rfl⟩ | ⟨j, change, rest, connected, -, -, rfl⟩ :=
    step_cases hstep
  · have hfits := h.valid.fits hk
    obtain ⟨hwrite, hstored, htags⟩ | ⟨tag, hwrite, hbefore, hafter, htags, hsource⟩ :=
      hmove.written_cases h.valid.wf hfits
    · exact h.quiet hk hwrite hstored htags hvalid
    · refine h.write hk hwrite hbefore hafter htags ?_ hvalid
      rcases hsource with hinsert | ⟨idx, snapshot, rfl, happly⟩
      · exact tag?_run h.wf (by rw [hinsert]; rfl) (.inl hinsert)
      · obtain ⟨hl, haccepts, -⟩ := hfits
        -- The guard is about the tag the slot holds now.
        have hsome : (w.inner.tags[idx]?).isSome := by simpa using h.valid.wf.index_lt hl
        obtain ⟨current, hslot⟩ := Option.isSome_iff_exists.mp hsome
        simp only [undisturbed, hk, hslot, Option.all_some] at hok
        refine tag?_run h.wf haccepts
          (.inr ⟨current, ?_, (apply_of_undisturbed hok now).trans happly⟩)
        rw [h.same, Inner.tag?, hl]
        exact hslot
  · exact ⟨hvalid, h.names, h.nodup, h.mem, h.wf, h.same⟩

/-- In every state of every run in which stores happen on undisturbed slots,
    the tags are those of the calls run one after the other. -/
theorem undisturbed_calls_linearized {i₀ : Inner} (hwf : i₀.WF) (calls : List Call) {w : World}
    (hrun : Reaches step (fun w e => undisturbed w e) (.init i₀ calls) w) : Linearized i₀ calls w := by
  have h : Replayed i₀ calls w :=
    hrun.invariant (replayed_init hwf calls) fun _ _ _ h hok hstep => h.step hok hstep
  have hfst : w.order.map Prod.fst = (w.writes.map Write.call).reverse := by
    simp [World.order]
  refine ⟨w.order, ?_, ?_, ?_⟩
  · rw [hfst, List.nodup_reverse]
    exact h.nodup
  · intro k
    rw [hfst, List.mem_reverse]
    exact h.mem k
  · intro id
    rw [h.same]

/-- One tag, a quality and a value for it. -/
def levelStore : Inner := Inner.new.insert "level" (.new (.uint16 0) .unixEpoch)

def markStale : Call := ⟨"level", .setQuality .stale⟩

def readOne : Call := ⟨"level", .updateValueWithExpected (.uint16 1) .good .unixEpoch .uint16⟩

/-- Both calls have returned; the tag is stale, with value `v`. -/
def afterBoth (v : TagValue) (writes : List Write) : World where
  inner := levelStore.store 0 ⟨v, .stale, .unixEpoch, .unixEpoch⟩
  calls := [(markStale, .returned (.ok ⟨v, .stale, .unixEpoch, .unixEpoch⟩)),
    (readOne, .returned (.ok ⟨.uint16 1, .good, .unixEpoch, .unixEpoch⟩))]
  writes := writes
  received := []

def staleWrite (v : TagValue) : Write := ⟨0, "level", .unixEpoch, ⟨v, .stale, .unixEpoch, .unixEpoch⟩⟩

def oneWrite : Write := ⟨1, "level", .unixEpoch, ⟨.uint16 1, .good, .unixEpoch, .unixEpoch⟩⟩

/-- A step of call `k` at the epoch. -/
def turn (k : Nat) : Event := .run k .unixEpoch

/-- The calls overlap, and the quality is set on the value just stored. -/
theorem overlapping_calls_linearized :
    Reaches step (fun w e => undisturbed w e) (.init levelStore [markStale, readOne])
      (afterBoth (.uint16 1) [staleWrite (.uint16 1), oneWrite]) ∧
    Linearized levelStore [markStale, readOne]
      (afterBoth (.uint16 1) [staleWrite (.uint16 1), oneWrite]) := by
  have hrun : Reaches step (fun w e => undisturbed w e) (.init levelStore [markStale, readOne])
      (afterBoth (.uint16 1) [staleWrite (.uint16 1), oneWrite]) :=
    Reaches.refl.runEvents ([0, 1, 1, 1, 0, 1, 0, 0].map turn) rfl
  exact ⟨hrun, undisturbed_calls_linearized (Inner.wf_new.insert _ _) _ hrun⟩

/-- `set_quality` loads, the value is updated, `set_quality` stores: both calls
    succeed, and the new value is gone.  In either order one after the other
    they would leave it. -/
theorem value_lost_to_quality :
    Reaches step (fun _ _ => True) (.init levelStore [markStale, readOne])
      (afterBoth (.uint16 0) [staleWrite (.uint16 0), oneWrite]) ∧
    ¬ Linearized levelStore [markStale, readOne]
      (afterBoth (.uint16 0) [staleWrite (.uint16 0), oneWrite]) := by
  refine ⟨Reaches.refl.runEvents ([0, 0, 1, 1, 1, 1, 0, 0].map turn) rfl, ?_⟩
  rintro ⟨order, hnodup, hmem, htags⟩
  have hperm : (order.map Prod.fst).Perm [0, 1] := by
    rw [List.perm_ext_iff_of_nodup hnodup (by simp)]
    intro k
    rw [hmem]
    match k with
    | 0 => simp [afterBoth, Phase.hasStored]
    | 1 => simp [afterBoth, Phase.hasStored]
    | k + 2 => simp [afterBoth]
  have hlen : order.length = 2 := by simpa using hperm.length_eq
  obtain ⟨⟨j, a⟩, ⟨k, b⟩, rfl⟩ := List.length_eq_two.mp hlen
  have hzero := (hmem 0).mpr ⟨_, _, rfl, rfl⟩
  have hone := (hmem 1).mpr ⟨_, _, rfl, rfl⟩
  simp only [List.map_cons, List.map_nil, List.mem_cons, List.not_mem_nil, or_false] at hzero hone
  have hvalue := congrArg (Option.map Prod.fst) (htags "level")
  obtain ⟨rfl, rfl⟩ | ⟨rfl, rfl⟩ : (j = 0 ∧ k = 1) ∨ (j = 1 ∧ k = 0) := by omega
  · have habs : some (TagValue.uint16 1) = some (.uint16 0) := hvalue
    exact absurd habs (by simp)
  · have habs : some (TagValue.uint16 1) = some (.uint16 0) := hvalue
    exact absurd habs (by simp)

end PlcBridge.Concurrent
