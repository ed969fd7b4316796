/-
  PlcBridge.CoreModel.ChangeEvents

  When the last change event of a tag carries the tag the store holds.

  Storing and broadcasting are separate steps, so the event of an earlier store
  may reach the subscribers behind that of a later one; and `insert` tells
  nobody when the id appeared while it waited for the write lock.  In runs where
  neither happens, a subscriber with room in its channel ends up with the tag
  that is stored.
-/
import PlcBridge.CoreModel.Concurrent

namespace PlcBridge.Concurrent

open PlcBridge.Lib

/-- What subscriber `j` has received, and what waits in its channel. -/
def World.events (w : World) (j : Nat) : List TagChange :=
  (w.received.filter (·.1 = j)).map Prod.snd ++
    ((w.inner.subscribers[j]?).map Subscriber.pending).getD []

/-- The tag in the last event for `id`. -/
def World.lastEvent (w : World) (j : Nat) (id : String) : Option Tag :=
  (((w.events j).filter (·.tagId = id)).getLast?).map TagChange.tag

/-- Subscriber `j` listens and its channel is not full. -/
def hasRoom (j : Nat) (w : World) : Bool :=
  (w.inner.subscribers[j]?).any fun s => s.connected ∧ s.pending.length < subscriberCapacity

def Phase.isReturned : Phase → Bool
  | .returned _ => true
  | _ => false

/-- A call broadcasts before any call that stored into the slot after it has
    returned; an `insert` that waited for the write lock finds the id still
    missing. -/
def inOrder (w : World) : Event → Bool
  | .run k _ =>
      match w.calls[k]? with
      | some (c, .stored _) => (w.writes.takeWhile (·.call ≠ k)).all fun x =>
          x.id ≠ c.id ∨ !(w.calls[x.call]?).any (·.2.isReturned)
      | some (c, .missing) => (w.inner.index.lookup c.id).isNone
      | _ => true
  | .receive _ => true

-- ============================================================================
-- Events
-- ============================================================================

variable {w : World} {j : Nat}

theorem lastEvent_append {w' : World} {id : String} {tag : Tag}
    (h : w'.events j = w.events j ++ [⟨id, tag⟩]) (id' : String) :
    w'.lastEvent j id' = if id' = id then some tag else w.lastEvent j id' := by
  unfold World.lastEvent
  rw [h, List.filter_append]
  by_cases hid : id' = id
  · simp [hid]
  · simp [hid, Ne.symm hid]

/-- A broadcast reaches a subscriber with room. -/
theorem events_broadcastChange (w' : World) {i : Inner} {id : String} {tag : Tag}
    (hroom : hasRoom j w) (hinner : w'.inner = i.broadcastChange id tag)
    (hsubs : i.subscribers = w.inner.subscribers) (hreceived : w'.received = w.received) :
    w'.events j = w.events j ++ [⟨id, tag⟩] := by
  obtain ⟨s, hs, hopen⟩ := (Option.any_eq_true _ _).mp hroom
  obtain ⟨hconn, hlen⟩ := of_decide_eq_true hopen
  simp [World.events, hinner, hreceived, Inner.broadcastChange, hsubs, hs, Subscriber.trySend, hconn, hlen]

/-- Taking an event out of the channel is no new event. -/
theorem events_receive {j' : Nat} {change : TagChange} {rest : List TagChange} {connected : Bool}
    (hj : w.inner.subscribers[j']? = some ⟨change :: rest, connected⟩) :
    World.events { w with
      inner := { w.inner with subscribers := w.inner.subscribers.set j' ⟨rest, connected⟩ }
      received := w.received ++ [(j', change)] } j = w.events j := by
  have hlt : j' < w.inner.subscribers.length := (List.getElem?_eq_some_iff.mp hj).1
  unfold World.events
  by_cases hjj : j' = j
  · subst hjj
    rw [hj]
    simp [hlt]
  · simp [hjj]

-- ============================================================================
-- The invariant
-- ============================================================================

/-- The newest write into the slot of `id`. -/
def World.newest (w : World) (id : String) : Option Write := w.writes.find? (·.id = id)

/-- The newest write of each tag is in its slot, and was broadcast last unless
    its broadcast is still to come. -/
structure Published (j : Nat) (w : World) : Prop where
  valid : w.Valid
  writer : ∀ x ∈ w.writes, ∃ c p, w.calls[x.call]? = some (c, p) ∧ c.id = x.id ∧
    (p = .stored x.tag ∨ p = .returned (.ok x.tag))
  wrote : ∀ {k : Nat} {c : Call} {p : Phase}, w.calls[k]? = some (c, p) → p.hasStored →
    ∃ x ∈ w.writes, x.call = k
  current : ∀ {id x}, w.newest id = some x → w.inner.tag? id = some x.tag
  last : ∀ {id x}, w.newest id = some x →
    (∃ c, w.calls[x.call]? = some (c, .stored x.tag)) ∨ w.lastEvent j id = some x.tag

variable {k : Nat} {now : DateTime} {c : Call} {p p' : Phase} {inner : Inner}

namespace Published

theorem init {i₀ : Inner} (hwf : i₀.WF) (calls : List Call) : Published j (.init i₀ calls) where
  valid := World.valid_init hwf calls
  writer := fun x hx => absurd hx (List.not_mem_nil)
  wrote := by
    intro k c p hk hp
    rw [World.init, List.getElem?_map, Option.map_eq_some_iff] at hk
    obtain ⟨c', -, heq⟩ := hk
    obtain ⟨-, rfl⟩ := Prod.mk.inj heq
    exact absurd hp (by simp [Phase.hasStored])
  current := fun h => absurd h (by simp [World.newest, World.init])
  last := fun h => absurd h (by simp [World.newest, World.init])

/-- A call that has not stored has no write. -/
theorem call_ne (h : Published j w) (hk : w.calls[k]? = some (c, p)) (hp : p.hasStored = false)
    {x : Write} (hx : x ∈ w.writes) : x.call ≠ k := by
  rintro rfl
  obtain ⟨c', q, hq, -, hstored⟩ := h.writer x hx
  rw [hk] at hq
  obtain ⟨-, rfl⟩ := Prod.mk.inj (Option.some.inj hq)
  rcases hstored with rfl | rfl <;> exact absurd hp (by simp [Phase.hasStored])

theorem newest_mem {id : String} {x : Write} (hx : w.newest id = some x) :
    x ∈ w.writes ∧ x.id = id :=
  ⟨List.mem_of_find?_eq_some hx, by simpa using List.find?_some hx⟩

/-- A step of a call that neither writes nor broadcasts. -/
theorem quiet (h : Published j w) (hk : w.calls[k]? = some (c, p)) (hp : p.hasStored = false)
    (hp' : p'.hasStored = false) (hwrite : written p p' = none)
    (hvalid : (w.moved k now c p p' w.inner).Valid) : Published j (w.moved k now c p p' w.inner) := by
  have hwrites : (w.moved k now c p p' w.inner).writes = w.writes := by simp [World.moved, hwrite]
  have hnewest : ∀ id, (w.moved k now c p p' w.inner).newest id = w.newest id := by
    intro id
    rw [World.newest, hwrites]
    rfl
  have hcalls : ∀ x ∈ w.writes, (w.moved k now c p p' w.inner).calls[x.call]? = w.calls[x.call]? := by
    intro x hx
    rw [calls_moved hk, if_neg (h.call_ne hk hp hx)]
  refine ⟨hvalid, ?_, ?_, ?_, ?_⟩
  · intro x hx
    rw [hwrites] at hx
    rw [hcalls x hx]
    exact h.writer x hx
  · intro k' c' q hk' hq
    rw [hwrites]
    rw [calls_moved hk] at hk'
    split at hk'
    · obtain ⟨-, rfl⟩ := Prod.mk.inj (Option.some.inj hk')
      exact absurd hq (by simp [hp'])
    · exact h.wrote hk' hq
  · intro id x hx
    rw [hnewest] at hx
    exact h.current hx
  · intro id x hx
    rw [hnewest] at hx
    rw [hcalls x (newest_mem hx).1]
    exact h.last hx

/-- A write, with its broadcast or ahead of it. -/
theorem write (h : Published j w) (hk : w.calls[k]? = some (c, p)) (hp : p.hasStored = false)
    {tag : Tag} (hwrite : written p p' = some tag)
    (hp' : p' = .stored tag ∨ p' = .returned (.ok tag) ∧
      (w.moved k now c p p' inner).lastEvent j c.id = some tag)
    (htags : ∀ id, inner.tag? id = if id = c.id then some tag else w.inner.tag? id)
    (hother : ∀ id, id ≠ c.id → (w.moved k now c p p' inner).lastEvent j id = w.lastEvent j id)
    (hvalid : (w.moved k now c p p' inner).Valid) : Published j (w.moved k now c p p' inner) := by
  have hwrites : (w.moved k now c p p' inner).writes = ⟨k, c.id, now, tag⟩ :: w.writes := by
    simp [World.moved, hwrite]
  have hnewest : ∀ id, (w.moved k now c p p' inner).newest id =
      if id = c.id then some ⟨k, c.id, now, tag⟩ else w.newest id := by
    intro id
    rw [World.newest, hwrites]
    by_cases hid : id = c.id
    · simp [hid]
    · simp [hid, Ne.symm hid, World.newest]
  have hself : (w.moved k now c p p' inner).calls[k]? = some (c, p') := by
    rw [calls_moved hk, if_pos rfl]
  have hcalls : ∀ x ∈ w.writes, (w.moved k now c p p' inner).calls[x.call]? = w.calls[x.call]? := by
    intro x hx
    rw [calls_moved hk, if_neg (h.call_ne hk hp hx)]
  refine ⟨hvalid, ?_, ?_, ?_, ?_⟩
  · intro x hx
    rw [hwrites, List.mem_cons] at hx
    rcases hx with rfl | hx
    · exact ⟨c, p', hself, rfl, hp'.imp_right And.left⟩
    · rw [hcalls x hx]
      exact h.writer x hx
  · intro k' c' q hk' hq
    rw [hwrites]
    rw [calls_moved hk] at hk'
    split at hk'
    · rename_i hkk
      exact ⟨_, List.mem_cons_self .., hkk.symm⟩
    · obtain ⟨x, hx, hcall⟩ := h.wrote hk' hq
      exact ⟨x, List.mem_cons_of_mem _ hx, hcall⟩
  · intro id x hx
    rw [hnewest] at hx
    show inner.tag? id = _
    rw [htags]
    by_cases hid : id = c.id
    · rw [if_pos hid] at hx ⊢
      rw [← Option.some.inj hx]
    · rw [if_neg hid] at hx ⊢
      exact h.current hx
  · intro id x hx
    rw [hnewest] at hx
    by_cases hid : id = c.id
    · rw [if_pos hid] at hx
      rw [← Option.some.inj hx, hid]
      rcases hp' with rfl | ⟨-, hlast⟩
      · exact .inl ⟨c, hself⟩
      · exact .inr hlast
    · rw [if_neg hid] at hx
      rw [hcalls x (newest_mem hx).1, hother id hid]
      exact h.last hx

/-- The newest write of the tag call `k` broadcasts is its own, or comes after
    it. -/
theorem newest_mem_takeWhile (h : Published j w) (hk : w.calls[k]? = some (c, p)) {x : Write}
    (hx : w.newest c.id = some x) (hne : x.call ≠ k) : x ∈ w.writes.takeWhile (·.call ≠ k) := by
  obtain ⟨-, l₁, l₂, hsplit, hbefore⟩ := List.find?_eq_some_iff_append.mp hx
  have hothers : ∀ y ∈ l₁, y.call ≠ k := by
    rintro y hy rfl
    obtain ⟨c', q, hq, hid, -⟩ := h.writer y (by rw [hsplit]; exact List.mem_append_left _ hy)
    rw [hk] at hq
    obtain ⟨rfl, -⟩ := Prod.mk.inj (Option.some.inj hq)
    exact absurd (hbefore y hy) (by simp [hid])
  rw [hsplit, List.takeWhile_append_of_pos (by simpa using hothers),
    List.takeWhile_cons_of_pos (by simpa using hne)]
  exact List.mem_append_right _ (List.mem_cons_self ..)

/-- A broadcast that comes before those of later writes. -/
theorem broadcast {tag : Tag} (h : Published j w) (hk : w.calls[k]? = some (c, .stored tag))
    (hroom : hasRoom j w)
    (hbefore : ∀ x ∈ w.writes.takeWhile (·.call ≠ k), x.id = c.id →
      (w.calls[x.call]?).any (·.2.isReturned) = false)
    (hvalid : (w.moved k now c (.stored tag) (.returned (.ok tag))
      (w.inner.broadcastChange c.id tag)).Valid) :
    Published j (w.moved k now c (.stored tag) (.returned (.ok tag))
      (w.inner.broadcastChange c.id tag)) := by
  have hevent := lastEvent_append (events_broadcastChange (w.moved k now c (.stored tag)
    (.returned (.ok tag)) (w.inner.broadcastChange c.id tag)) hroom rfl rfl rfl)
  refine ⟨hvalid, ?_, ?_, ?_, ?_⟩
  · intro x hx
    obtain ⟨c', q, hq, hid, hstored⟩ := h.writer x hx
    rw [calls_moved hk]
    by_cases hxk : x.call = k
    · rw [hxk, hk] at hq
      obtain ⟨rfl, rfl⟩ := Prod.mk.inj (Option.some.inj hq)
      rw [if_pos hxk]
      refine ⟨c, _, rfl, hid, .inr ?_⟩
      rcases hstored with heq | heq
      · rw [Phase.stored.inj heq]
      · exact absurd heq (by simp)
    · rw [if_neg hxk]
      exact ⟨c', q, hq, hid, hstored⟩
  · intro k' c' q hk' hq
    rw [calls_moved hk] at hk'
    split at hk'
    · rename_i hkk
      rw [hkk]
      exact h.wrote hk rfl
    · exact h.wrote hk' hq
  · intro id x hx
    exact h.current hx
  · intro id x hx
    rw [hevent, calls_moved hk]
    obtain ⟨c', q, hq, hid, hstored⟩ := h.writer x (newest_mem hx).1
    by_cases hxk : x.call = k
    · -- The newest write is the one broadcast.
      rw [hxk, hk] at hq
      obtain ⟨rfl, rfl⟩ := Prod.mk.inj (Option.some.inj hq)
      rw [if_pos ((newest_mem hx).2.symm.trans hid.symm)]
      rcases hstored with heq | heq
      · exact .inr (by rw [Phase.stored.inj heq])
      · exact absurd heq (by simp)
    · rw [if_neg hxk]
      by_cases hidc : id = c.id
      · -- A later write is the newest, and its broadcast is still to come.
        subst hidc
        have hlater := hbefore x (h.newest_mem_takeWhile hk hx hxk) (newest_mem hx).2
        rcases hstored with rfl | rfl
        · exact .inl ⟨c', hq⟩
        · exact absurd hlater (by simp [hq, Phase.isReturned])
      · rw [if_neg hidc]
        exact h.last hx

theorem step {w' : World} {e : Event} (h : Published j w) (hroom : hasRoom j w) (hok : inOrder w e)
    (hstep : step w e = some w') : Published j w' := by
  have hvalid := h.valid.step hstep
  obtain ⟨k, now, c, p, p', inner, rfl, hk, hmove, rfl⟩ | ⟨j', change, rest, connected, -, hj, rfl⟩ :=
    step_cases hstep
  · have hfits := h.valid.fits hk
    cases hmove with
    | refuse => exact h.quiet hk rfl rfl rfl hvalid
    | find _ => exact h.quiet hk rfl (hasStored_find c _) (written_find c _) hvalid
    | load _ _ => exact h.quiet hk rfl rfl rfl hvalid
    | fail _ => exact h.quiet hk rfl rfl rfl hvalid
    | store _ =>
        exact h.write hk rfl rfl (.inl rfl) (Inner.tag?_store h.valid.wf hfits.1 _) (fun _ _ => rfl)
          hvalid
    | replace _ =>
        exact h.write hk rfl rfl (.inl rfl) (Inner.tag?_store h.valid.wf hfits.1 _) (fun _ _ => rfl)
          hvalid
    | broadcast =>
        refine h.broadcast hk hroom ?_ hvalid
        intro x hx hid
        simp only [inOrder, hk, List.all_eq_true] at hok
        simpa [hid] using hok x hx
    | late _ hl =>
        simp only [inOrder, hk, hl] at hok
        exact absurd hok (by simp)
    | @create tag _ hl =>
        have hinner : w.inner.insert c.id tag = Inner.broadcastChange
            { w.inner with
              tags := w.inner.tags ++ [tag]
              index := w.inner.index.insert c.id w.inner.tags.length
              sortedIds := insertSorted c.id w.inner.sortedIds } c.id tag := by
          simp only [Inner.insert, hl]
        have hevent := lastEvent_append (events_broadcastChange (w.moved k now c .missing
          (.returned (.ok tag)) (w.inner.insert c.id tag)) hroom hinner rfl rfl)
        refine h.write hk rfl rfl (.inr ⟨rfl, ?_⟩) (Inner.tag?_insert h.valid.wf _ _) ?_ hvalid
        · rw [hevent, if_pos rfl]
        · intro id hid
          rw [hevent, if_neg hid]
  · refine ⟨hvalid, h.writer, h.wrote, h.current, ?_⟩
    intro id x hx
    rw [World.lastEvent, events_receive hj]
    exact h.last hx

end Published

/-- In every run in which broadcasts are made in the order of the stores and no
    `insert` loses the race for a new id: once all calls have returned, the last
    event of a subscriber with room, for each tag that was changed, is the tag
    in the store. -/
theorem last_event_is_stored {i₀ : Inner} (hwf : i₀.WF) (calls : List Call) {w : World}
    (hrun : Reaches step (fun w e => hasRoom j w ∧ inOrder w e) (.init i₀ calls) w)
    (hdone : ∀ cp ∈ w.calls, ∃ r, cp.2 = .returned r) :
    ∀ c t, (c, .returned (.ok t)) ∈ w.calls →
      ∃ tag, w.inner.tag? c.id = some tag ∧ w.lastEvent j c.id = some tag := by
  have h : Published j w :=
    hrun.invariant (Published.init hwf calls) fun _ _ _ h hok hstep => h.step hok.1 hok.2 hstep
  intro c t hmem
  obtain ⟨k, hlt, hk⟩ := List.getElem_of_mem hmem
  have hk' : w.calls[k]? = some (c, .returned (.ok t)) := by rw [List.getElem?_eq_getElem hlt, hk]
  obtain ⟨y, hy, rfl⟩ := h.wrote hk' rfl
  obtain ⟨c', q, hq, hid, -⟩ := h.writer y hy
  rw [hk'] at hq
  obtain ⟨rfl, -⟩ := Prod.mk.inj (Option.some.inj hq)
  have hsome : (w.newest c.id).isSome := List.find?_isSome.mpr ⟨y, hy, by simp [hid]⟩
  obtain ⟨x, hx⟩ := Option.isSome_iff_exists.mp hsome
  refine ⟨x.tag, h.current hx, ?_⟩
  rcases h.last hx with ⟨c', hc'⟩ | hlast
  · obtain ⟨r, hr⟩ := hdone _ (List.mem_of_getElem? hc')
    exact absurd hr (by simp)
  · exact hlast

/-- One tag and a subscriber. -/
def watchedStore : Inner := (Inner.new.insert "level" (.new (.uint16 0) .unixEpoch)).subscribe

/-- A read of `n` at the epoch, and the tag it stores. -/
def readingTag (n : UInt16) : Tag := ⟨.uint16 n, .good, .unixEpoch, .unixEpoch⟩

def reading (n : UInt16) : Call := ⟨"level", .updateValueWithExpected (.uint16 n) .good .unixEpoch .uint16⟩

/-- Both reads have returned, the second stored last. -/
def afterReadings (events : List TagChange) : World where
  inner := { watchedStore with tags := [readingTag 2], subscribers := [⟨events, true⟩] }
  calls := [(reading 1, .returned (.ok (readingTag 1))), (reading 2, .returned (.ok (readingTag 2)))]
  writes := [⟨1, "level", .unixEpoch, readingTag 2⟩, ⟨0, "level", .unixEpoch, readingTag 1⟩]
  received := []

theorem last_event_is_stored_readings :
    Reaches step (fun w e => hasRoom 0 w ∧ inOrder w e) (.init watchedStore [reading 1, reading 2])
      (afterReadings [⟨"level", readingTag 1⟩, ⟨"level", readingTag 2⟩]) ∧
    ∃ tag,
      (afterReadings [⟨"level", readingTag 1⟩, ⟨"level", readingTag 2⟩]).inner.tag? "level" = some tag ∧
      (afterReadings [⟨"level", readingTag 1⟩, ⟨"level", readingTag 2⟩]).lastEvent 0 "level" =
        some tag := by
  have hrun : Reaches step (fun w e => hasRoom 0 w ∧ inOrder w e)
      (.init watchedStore [reading 1, reading 2])
      (afterReadings [⟨"level", readingTag 1⟩, ⟨"level", readingTag 2⟩]) :=
    Reaches.refl.runEvents ([0, 0, 1, 1, 0, 1, 0, 1].map fun k => .run k .unixEpoch) rfl
  have hdone : ∀ cp ∈ (afterReadings [⟨"level", readingTag 1⟩, ⟨"level", readingTag 2⟩]).calls,
      ∃ r, cp.2 = .returned r := by
    simp [afterReadings]
  exact ⟨hrun, last_event_is_stored (Inner.wf_new.insert _ _).subscribe _ hrun hdone
    (reading 1) _ (List.mem_cons_self ..)⟩

/-- Two inserts of a new id have returned; the second found it present. -/
def afterInserts : World where
  inner := {
    tags := [.new (.uint16 0) .unixEpoch, readingTag 2]
    index := watchedStore.index.insert "flow" 1
    sortedIds := ["flow", "level"]
    subscribers := [⟨[⟨"flow", readingTag 1⟩], true⟩] }
  calls := [(⟨"flow", .insert (readingTag 1)⟩, .returned (.ok (readingTag 1))),
    (⟨"flow", .insert (readingTag 2)⟩, .returned (.ok (readingTag 2)))]
  writes := [⟨1, "flow", .unixEpoch, readingTag 2⟩, ⟨0, "flow", .unixEpoch, readingTag 1⟩]
  received := []

/-- The first reading is stored first and broadcast last; and of two inserts of
    a new id the second is never broadcast.  Either way the last event is not
    the tag in the store. -/
theorem last_event_not_stored :
    readingTag 1 ≠ readingTag 2 ∧
    (Reaches step (fun w _ => hasRoom 0 w) (.init watchedStore [reading 1, reading 2])
      (afterReadings [⟨"level", readingTag 2⟩, ⟨"level", readingTag 1⟩]) ∧
    (afterReadings [⟨"level", readingTag 2⟩, ⟨"level", readingTag 1⟩]).inner.tag? "level" =
      some (readingTag 2) ∧
    (afterReadings [⟨"level", readingTag 2⟩, ⟨"level", readingTag 1⟩]).lastEvent 0 "level" =
      some (readingTag 1)) ∧
    Reaches step (fun w _ => hasRoom 0 w)
      (.init watchedStore [⟨"flow", .insert (readingTag 1)⟩, ⟨"flow", .insert (readingTag 2)⟩])
      afterInserts ∧
    afterInserts.inner.tag? "flow" = some (readingTag 2) ∧
    afterInserts.lastEvent 0 "flow" = some (readingTag 1) := by
  refine ⟨by simp [readingTag], ⟨?_, rfl, rfl⟩, ?_, rfl, rfl⟩
  · exact Reaches.refl.runEvents ([0, 0, 0, 1, 1, 1, 1, 0].map fun k => .run k .unixEpoch) rfl
  · exact Reaches.refl.runEvents ([0, 1, 0, 1].map fun k => .run k .unixEpoch) rfl

end PlcBridge.Concurrent
