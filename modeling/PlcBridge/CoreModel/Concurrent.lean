/-
  PlcBridge.CoreModel.Concurrent

  Concurrent calls of the store's methods (core-model/src/tag_store.rs), cut
  into the steps other threads can come between: the lookup under the lock, the
  load and the store of the tag's slot, the broadcast to the subscribers.

  What happens under the write lock is one step, because nobody else then holds
  the lock.  A scheduler picks the call that moves next, and when a subscriber
  takes an event out of its channel.
-/
import PlcBridge.CoreModel.TagStore
import PlcBridge.Lib.Transitions

namespace PlcBridge.Concurrent

open PlcBridge.Lib

/-- The methods that change tags. -/
inductive Method where
  | updateValueWithExpected (value : TagValue) (quality : TagQuality) (sourceTs : DateTime)
      (expected : TagDataType)
  | setQuality (quality : TagQuality)
  | tryUpdateWith (f : Tag → Except CoreError Tag)
  | insert (tag : Tag)

/-- A call on the tag `id`. -/
structure Call where
  id : String
  method : Method

/-- Where a call stands. -/
inductive Phase where
  | start
  /-- The slot's handle is cloned, the lock released. -/
  | found (idx : Nat)
  /-- `insert` did not find the id and waits for the write lock. -/
  | missing
  | loaded (idx : Nat) (snapshot : Tag)
  /-- The slot is written, the subscribers do not know yet. -/
  | stored (tag : Tag)
  | returned (result : Except CoreError Tag)

/-- The tag to store, from the snapshot loaded. -/
def Method.apply (now : DateTime) (snapshot : Tag) : Method → Except CoreError Tag
  | .updateValueWithExpected value quality sourceTs _ => .ok (snapshot.applyRead value quality sourceTs now)
  | .setQuality quality => .ok (snapshot.setQuality quality now)
  | .tryUpdateWith f =>
      match f snapshot with
      | .error e => .error e
      | .ok t => .ok (t.touch now)
  | .insert tag => .ok tag

/-- The lookup all methods begin with. -/
def Call.find (c : Call) (i : Inner) : Phase :=
  match i.index.lookup c.id with
  | some idx => .found idx
  | none =>
      match c.method with
      | .insert _ => .missing
      | _ => .returned (.error (.tagNotFound c.id))

/-- The next step of a call. -/
def Call.advance (c : Call) (now : DateTime) (i : Inner) : Phase → Option (Phase × Inner)
  | .start =>
      match c.method with
      | .updateValueWithExpected value _ _ expected =>
          if !value.matches expected then some (.returned (.error (.typeMismatch c.id)), i)
          else some (c.find i, i)
      | _ => some (c.find i, i)
  | .found idx =>
      match c.method with
      | .insert tag => some (.stored tag, i.store idx tag)
      | _ => (i.tags[idx]?).map fun snapshot => (.loaded idx snapshot, i)
  | .loaded idx snapshot =>
      match c.method.apply now snapshot with
      | .error e => some (.returned (.error e), i)
      | .ok tag => some (.stored tag, i.store idx tag)
  | .stored tag => some (.returned (.ok tag), i.broadcastChange c.id tag)
  | .missing =>
      match c.method with
      | .insert tag =>
          match i.index.lookup c.id with
          -- Inserted by another thread while upgrading locks: no broadcast here.
          | some idx => some (.returned (.ok tag), i.store idx tag)
          | none => some (.returned (.ok tag), i.insert c.id tag)
      | _ => none
  | .returned _ => none

/-- The call by itself, as the sequential method. -/
def Call.run (c : Call) (now : DateTime) (i : Inner) : Inner :=
  match c.method with
  | .updateValueWithExpected value quality sourceTs expected =>
      (i.updateValueWithExpected c.id value quality sourceTs expected now).2
  | .setQuality quality => (i.setQuality c.id quality now).2
  | .tryUpdateWith f => (i.tryUpdateWith c.id f now).2
  | .insert tag => i.insert c.id tag

-- ============================================================================
-- The world
-- ============================================================================

/-- A write into a slot: the number of the call, the clock it read, and the tag
    written. -/
structure Write where
  call : Nat
  id : String
  now : DateTime
  tag : Tag

/-- The store, the calls on it, and two records nobody reads: the slot writes,
    newest first, and what each subscriber has received. -/
structure World where
  inner : Inner
  calls : List (Call × Phase)
  writes : List Write
  received : List (Nat × TagChange)

/-- All calls are about to start. -/
def World.init (inner : Inner) (calls : List Call) : World :=
  ⟨inner, calls.map fun c => (c, .start), [], []⟩

inductive Event where
  | run (k : Nat) (now : DateTime)
  | receive (subscriber : Nat)

/-- The tag a step wrote into the slot, told from the phases around it. -/
def written : Phase → Phase → Option Tag
  | _, .stored tag => some tag
  | .missing, .returned (.ok tag) => some tag
  | _, _ => none

def step (w : World) : Event → Option World
  | .run k now =>
      match w.calls[k]? with
      | none => none
      | some (c, p) =>
          match c.advance now w.inner p with
          | none => none
          | some (p', inner) =>
              some { w with
                inner := inner
                calls := w.calls.set k (c, p')
                writes := ((written p p').map fun tag => ⟨k, c.id, now, tag⟩).toList ++ w.writes }
  | .receive j =>
      match w.inner.subscribers[j]? with
      | some ⟨change :: rest, connected⟩ =>
          some { w with
            inner := { w.inner with subscribers := w.inner.subscribers.set j ⟨rest, connected⟩ }
            received := w.received ++ [(j, change)] }
      | _ => none

-- ============================================================================
-- One call alone
-- ============================================================================

/-- Call `c` alone, started on `i`, ends as the sequential method does. -/
def RunsAlone (c : Call) (now : DateTime) (i : Inner) : Prop :=
  ∃ n w r, runEvents step (fun _ _ => True) (List.replicate n (.run 0 now)) (.init i [c]) = some w ∧
    w.calls = [(c, .returned r)] ∧ w.inner = c.run now i

theorem runsAlone_missing {i : Inner} {c : Call} (hl : i.index.lookup c.id = none) (now : DateTime) :
    RunsAlone c now i := by
  obtain ⟨id, method⟩ := c
  cases method with
  | updateValueWithExpected v q ts dt =>
      refine ⟨1, ?_⟩
      cases hm : v.matches dt <;>
        simp [runEvents, step, World.init, Call.advance, Call.find, hl, hm, Call.run,
          Inner.updateValueWithExpected, Inner.modify]
  | setQuality q =>
      exact ⟨1, by simp [runEvents, step, World.init, Call.advance, Call.find, hl, Call.run,
        Inner.setQuality, Inner.modify]⟩
  | tryUpdateWith f =>
      exact ⟨1, by simp [runEvents, step, World.init, Call.advance, Call.find, hl, Call.run,
        Inner.tryUpdateWith]⟩
  | insert tag =>
      exact ⟨2, by simp [runEvents, step, World.init, Call.advance, Call.find, hl, Call.run]⟩

theorem runsAlone_found {i : Inner} {c : Call} {idx : Nat} {current : Tag}
    (hl : i.index.lookup c.id = some idx) (hslot : i.tags[idx]? = some current) (now : DateTime) :
    RunsAlone c now i := by
  obtain ⟨id, method⟩ := c
  have htag : i.tag? id = some current := by
    rw [Inner.tag?, hl]
    exact hslot
  cases method with
  | updateValueWithExpected v q ts dt =>
      cases hm : v.matches dt with
      | false =>
          exact ⟨1, by simp [runEvents, step, World.init, Call.advance, hm, Call.run,
            Inner.updateValueWithExpected]⟩
      | true =>
          exact ⟨4, by simp [runEvents, step, World.init, Call.advance, Call.find, hl, hm, hslot, htag,
            Method.apply, Call.run, Inner.updateValueWithExpected, Inner.modify]⟩
  | setQuality q =>
      exact ⟨4, by simp [runEvents, step, World.init, Call.advance, Call.find, hl, hslot, htag,
        Method.apply, Call.run, Inner.setQuality, Inner.modify]⟩
  | tryUpdateWith f =>
      cases hf : f current with
      | error e =>
          exact ⟨3, by simp [runEvents, step, World.init, Call.advance, Call.find, hl, hslot, htag, hf,
            Method.apply, Call.run, Inner.tryUpdateWith]⟩
      | ok t =>
          exact ⟨4, by simp [runEvents, step, World.init, Call.advance, Call.find, hl, hslot, htag, hf,
            Method.apply, Call.run, Inner.tryUpdateWith]⟩
  | insert tag =>
      exact ⟨3, by simp [runEvents, step, World.init, Call.advance, Call.find, hl, Call.run,
        Inner.insert]⟩

/-- The steps of a call that nobody comes between are the sequential method. -/
theorem runsAlone {i : Inner} (hwf : i.WF) (c : Call) (now : DateTime) : RunsAlone c now i := by
  cases hl : i.index.lookup c.id with
  | none => exact runsAlone_missing hl now
  | some idx =>
      have hsome : (i.tags[idx]?).isSome := by simpa using hwf.index_lt hl
      obtain ⟨current, hslot⟩ := Option.isSome_iff_exists.mp hsome
      exact runsAlone_found hl hslot now

-- ============================================================================
-- What a step does
-- ============================================================================

/-- The value passes the type check that comes before everything else. -/
def Method.accepts : Method → Bool
  | .updateValueWithExpected value _ _ expected => value.matches expected
  | _ => true

/-- The steps of a call, by what they do. -/
inductive Moves (c : Call) (now : DateTime) (i : Inner) : Phase → Phase → Inner → Prop
  | refuse : Moves c now i .start (.returned (.error (.typeMismatch c.id))) i
  | find : c.method.accepts → Moves c now i .start (c.find i) i
  | load {idx snapshot} : (∀ tag, c.method ≠ .insert tag) → i.tags[idx]? = some snapshot →
      Moves c now i (.found idx) (.loaded idx snapshot) i
  | fail {idx snapshot e} : c.method.apply now snapshot = .error e →
      Moves c now i (.loaded idx snapshot) (.returned (.error e)) i
  | store {idx snapshot tag} : c.method.apply now snapshot = .ok tag →
      Moves c now i (.loaded idx snapshot) (.stored tag) (i.store idx tag)
  | replace {idx tag} : c.method = .insert tag →
      Moves c now i (.found idx) (.stored tag) (i.store idx tag)
  | broadcast {tag} : Moves c now i (.stored tag) (.returned (.ok tag)) (i.broadcastChange c.id tag)
  | late {idx tag} : c.method = .insert tag → i.index.lookup c.id = some idx →
      Moves c now i .missing (.returned (.ok tag)) (i.store idx tag)
  | create {tag} : c.method = .insert tag → i.index.lookup c.id = none →
      Moves c now i .missing (.returned (.ok tag)) (i.insert c.id tag)

theorem moves_of_advance {c : Call} {now : DateTime} {i i' : Inner} {p p' : Phase}
    (h : c.advance now i p = some (p', i')) : Moves c now i p p' i' := by
  obtain ⟨id, method⟩ := c
  cases p with
  | start =>
      cases method with
      | updateValueWithExpected value quality sourceTs expected =>
          simp only [Call.advance] at h
          split at h
          · obtain ⟨rfl, rfl⟩ := Prod.mk.inj (Option.some.inj h)
            exact .refuse
          · rename_i hm
            obtain ⟨rfl, rfl⟩ := Prod.mk.inj (Option.some.inj h)
            exact .find (by simpa [Method.accepts] using hm)
      | _ =>
          obtain ⟨rfl, rfl⟩ := Prod.mk.inj (Option.some.inj h)
          exact .find rfl
  | found idx =>
      cases method with
      | insert tag =>
          obtain ⟨rfl, rfl⟩ := Prod.mk.inj (Option.some.inj h)
          exact .replace rfl
      | _ =>
          obtain ⟨snapshot, hs, heq⟩ := Option.map_eq_some_iff.mp h
          obtain ⟨rfl, rfl⟩ := Prod.mk.inj heq
          exact .load (by simp) hs
  | loaded idx snapshot =>
      simp only [Call.advance] at h
      split at h
      · rename_i e he
        obtain ⟨rfl, rfl⟩ := Prod.mk.inj (Option.some.inj h)
        exact .fail he
      · rename_i tag ht
        obtain ⟨rfl, rfl⟩ := Prod.mk.inj (Option.some.inj h)
        exact .store ht
  | stored tag =>
      obtain ⟨rfl, rfl⟩ := Prod.mk.inj (Option.some.inj h)
      exact .broadcast
  | missing =>
      cases method with
      | insert tag =>
          simp only [Call.advance] at h
          split at h
          · rename_i idx hl
            obtain ⟨rfl, rfl⟩ := Prod.mk.inj (Option.some.inj h)
            exact .late rfl hl
          · rename_i hl
            obtain ⟨rfl, rfl⟩ := Prod.mk.inj (Option.some.inj h)
            exact .create rfl hl
      | _ => exact absurd h (by simp [Call.advance])
  | returned r => exact absurd h (by simp [Call.advance])

/-- The world after call `k` moved. -/
def World.moved (w : World) (k : Nat) (now : DateTime) (c : Call) (p p' : Phase) (inner : Inner) :
    World :=
  { w with
    inner := inner
    calls := w.calls.set k (c, p')
    writes := ((written p p').map fun tag => ⟨k, c.id, now, tag⟩).toList ++ w.writes }

theorem step_cases {w w' : World} {e : Event} (h : step w e = some w') :
    (∃ k now c p p' inner, e = .run k now ∧ w.calls[k]? = some (c, p) ∧
      Moves c now w.inner p p' inner ∧ w' = w.moved k now c p p' inner) ∨
    ∃ j change rest connected, e = .receive j ∧
      w.inner.subscribers[j]? = some ⟨change :: rest, connected⟩ ∧
      w' = { w with
        inner := { w.inner with subscribers := w.inner.subscribers.set j ⟨rest, connected⟩ }
        received := w.received ++ [(j, change)] } := by
  cases e with
  | run k now =>
      simp only [step] at h
      split at h
      · exact absurd h (by simp)
      · rename_i c p hk
        split at h
        · exact absurd h (by simp)
        · rename_i p' inner hadv
          exact .inl ⟨k, now, c, p, p', inner, rfl, hk, moves_of_advance hadv, (Option.some.inj h).symm⟩
  | receive j =>
      simp only [step] at h
      split at h
      · rename_i change rest connected hj
        exact .inr ⟨j, change, rest, connected, rfl, hj, (Option.some.inj h).symm⟩
      · exact absurd h (by simp)

-- ============================================================================
-- Handles stay good
-- ============================================================================

/-- A handle leads to the slot of the call's tag. -/
def Phase.Fits (c : Call) (i : Inner) : Phase → Prop
  | .found idx => i.index.lookup c.id = some idx ∧ c.method.accepts
  | .loaded idx _ => i.index.lookup c.id = some idx ∧ c.method.accepts ∧ ∀ tag, c.method ≠ .insert tag
  | _ => True

structure World.Valid (w : World) : Prop where
  wf : w.inner.WF
  fits : ∀ {k : Nat} {c : Call} {p : Phase}, w.calls[k]? = some (c, p) → p.Fits c w.inner

/-- Ids keep their slots. -/
theorem lookup_insert_of_some {i : Inner} {id id' : String} {idx : Nat} (tag : Tag)
    (h : i.index.lookup id' = some idx) : (i.insert id tag).index.lookup id' = some idx := by
  unfold Inner.insert
  cases hl : i.index.lookup id with
  | some idx' => exact h
  | none =>
      have hne : id' ≠ id := by
        rintro rfl
        rw [hl] at h
        exact absurd h (by simp)
      simpa [AList.lookup_insert_ne hne] using h

theorem Moves.wf {c : Call} {now : DateTime} {i i' : Inner} {p p' : Phase}
    (h : Moves c now i p p' i') (hwf : i.WF) : i'.WF := by
  cases h with
  | store _ => exact hwf.store _ _
  | replace _ => exact hwf.store _ _
  | broadcast => exact hwf.broadcastChange _ _
  | late _ _ => exact hwf.store _ _
  | create _ _ => exact hwf.insert _ _
  | _ => exact hwf

theorem Moves.lookup {c : Call} {now : DateTime} {i i' : Inner} {p p' : Phase}
    (h : Moves c now i p p' i') {id : String} {idx : Nat} (hl : i.index.lookup id = some idx) :
    i'.index.lookup id = some idx := by
  cases h with
  | create _ _ => exact lookup_insert_of_some _ hl
  | _ => exact hl

theorem Phase.Fits.mono {c : Call} {i i' : Inner} {p : Phase} (h : p.Fits c i)
    (hindex : ∀ {id idx}, i.index.lookup id = some idx → i'.index.lookup id = some idx) :
    p.Fits c i' := by
  cases p with
  | found idx => exact ⟨hindex h.1, h.2⟩
  | loaded idx snapshot => exact ⟨hindex h.1, h.2⟩
  | _ => trivial

/-- The phase reached fits again. -/
theorem Moves.fits {c : Call} {now : DateTime} {i i' : Inner} {p p' : Phase}
    (h : Moves c now i p p' i') (hfits : p.Fits c i) : p'.Fits c i' := by
  cases h with
  | find haccepts =>
      unfold Call.find
      split
      · rename_i idx hl
        exact ⟨hl, haccepts⟩
      · split <;> trivial
  | load hne _ => exact ⟨hfits.1, hfits.2, hne⟩
  | _ => trivial

theorem calls_moved {w : World} {k : Nat} {c : Call} {p : Phase} (hk : w.calls[k]? = some (c, p))
    (now : DateTime) (p' : Phase) (inner : Inner) (k' : Nat) :
    (w.moved k now c p p' inner).calls[k']? = if k' = k then some (c, p') else w.calls[k']? := by
  have hlt : k < w.calls.length := List.getElem?_eq_some_iff.mp hk |>.1
  by_cases hkk : k' = k
  · subst hkk
    simp [World.moved, hlt]
  · rw [if_neg hkk]
    exact List.getElem?_set_ne (Ne.symm hkk)

theorem World.Valid.step {w w' : World} {e : Event} (hv : w.Valid) (h : step w e = some w') :
    w'.Valid := by
  obtain ⟨k, now, c, p, p', inner, -, hk, hmove, rfl⟩ | ⟨j, change, rest, connected, -, -, rfl⟩ :=
    step_cases h
  · refine ⟨hmove.wf hv.wf, ?_⟩
    intro k' c' q hk'
    rw [calls_moved hk] at hk'
    split at hk'
    · obtain ⟨rfl, rfl⟩ := Prod.mk.inj (Option.some.inj hk')
      exact hmove.fits (hv.fits hk)
    · exact (hv.fits hk').mono hmove.lookup
  · exact ⟨⟨hv.wf.index_lt, hv.wf.index_inj, hv.wf.index_surj, hv.wf.sorted, hv.wf.mem_sorted⟩,
      fun hk => hv.fits hk⟩

theorem World.valid_init {i : Inner} (hwf : i.WF) (calls : List Call) : (init i calls).Valid := by
  refine ⟨hwf, ?_⟩
  intro k c p hk
  rw [init, List.getElem?_map, Option.map_eq_some_iff] at hk
  obtain ⟨c', -, heq⟩ := hk
  obtain ⟨rfl, rfl⟩ := Prod.mk.inj heq
  trivial

-- ============================================================================
-- What a step writes
-- ============================================================================

/-- The call has written its tag, so it succeeds. -/
def Phase.hasStored : Phase → Bool
  | .stored _ => true
  | .returned (.ok _) => true
  | _ => false

theorem hasStored_find (c : Call) (i : Inner) : (c.find i).hasStored = false := by
  unfold Call.find
  split
  · rfl
  · split <;> rfl

theorem written_find (c : Call) (i : Inner) : written .start (c.find i) = none := by
  unfold Call.find
  split
  · rfl
  · split <;> rfl

/-- A step leaves all tags alone, or it is the call's only write into its
    slot. -/
theorem Moves.written_cases {c : Call} {now : DateTime} {i i' : Inner} {p p' : Phase}
    (h : Moves c now i p p' i') (hwf : i.WF) (hfits : p.Fits c i) :
    (written p p' = none ∧ p'.hasStored = p.hasStored ∧ ∀ id, i'.tag? id = i.tag? id) ∨
    ∃ tag, written p p' = some tag ∧ p.hasStored = false ∧ p'.hasStored = true ∧
      (∀ id, i'.tag? id = if id = c.id then some tag else i.tag? id) ∧
      (c.method = .insert tag ∨ ∃ idx snapshot, p = .loaded idx snapshot ∧
        c.method.apply now snapshot = .ok tag) := by
  cases h with
  | refuse => exact .inl ⟨rfl, rfl, fun _ => rfl⟩
  | find _ => exact .inl ⟨written_find c i, hasStored_find c i, fun _ => rfl⟩
  | load _ _ => exact .inl ⟨rfl, rfl, fun _ => rfl⟩
  | fail _ => exact .inl ⟨rfl, rfl, fun _ => rfl⟩
  | store happly =>
      exact .inr ⟨_, rfl, rfl, rfl, Inner.tag?_store hwf hfits.1 _, .inr ⟨_, _, rfl, happly⟩⟩
  | replace hinsert =>
      exact .inr ⟨_, rfl, rfl, rfl, Inner.tag?_store hwf hfits.1 _, .inl hinsert⟩
  | broadcast => exact .inl ⟨rfl, rfl, fun _ => rfl⟩
  | late hinsert hl => exact .inr ⟨_, rfl, rfl, rfl, Inner.tag?_store hwf hl _, .inl hinsert⟩
  | create hinsert _ => exact .inr ⟨_, rfl, rfl, rfl, Inner.tag?_insert hwf _ _, .inl hinsert⟩

end PlcBridge.Concurrent
