/-
  PlcBridge.Driver.State

  What the two protocol drivers have in common: queued write requests
  (write_request.rs of both crates), the registry they update, the reply
  channels they answer, the connection slot, and a record of what went over
  the wire.

  `ξ` is the protocol's record of one exchange with the device and `σ` the
  protocol's own session data.  The clock is a function of the number of
  `Utc::now()` calls made so far, connections and reply channels are numbers.
-/
import PlcBridge.CoreModel.Registry

namespace PlcBridge

/-- A queued write request with an optional reply channel for confirmation. -/
structure WriteRequest where
  tagId : String
  value : TagValue
  reply : Option Nat
deriving DecidableEq

/-- State of a driver instance. -/
structure DriverState (ξ σ : Type) where
  registry : TagRegistry
  /-- `Utc::now()` calls so far. -/
  ticks : Nat
  /-- Undelivered requests in the write channel, oldest first. -/
  queue : List WriteRequest
  /-- Results sent on reply channels, oldest first. -/
  replies : List (Nat × Except String Unit)
  /-- The persistent connection slot. -/
  conn : Option Nat
  /-- Connections opened so far; also the number of the next one. -/
  opened : Nat
  session : σ
  /-- Requests sent to the device with their outcomes, oldest first. -/
  trace : List ξ
  /-- `update_tag_value` calls whose error was discarded, oldest first. -/
  refused : List (String × CoreError)

namespace DriverState

variable {ξ σ : Type} (clock : Nat → DateTime)

/-- A driver right after construction. -/
def new (registry : TagRegistry) (session : σ) (queue : List WriteRequest) : DriverState ξ σ where
  registry := registry
  ticks := 0
  queue := queue
  replies := []
  conn := none
  opened := 0
  session := session
  trace := []
  refused := []

/-- `let _ = self.registry.set_tag_quality(id, quality)`. -/
def setTagQuality (d : DriverState ξ σ) (id : String) (quality : TagQuality) : DriverState ξ σ :=
  { d with
    registry := (d.registry.setTagQuality id quality (clock d.ticks)).2
    ticks := d.ticks + 1 }

/-- `let source_ts = Utc::now();` and
    `let _ = self.registry.update_tag_value(id, value, quality, source_ts)`. -/
def updateTagValue (d : DriverState ξ σ) (id : String) (value : TagValue) (quality : TagQuality) :
    DriverState ξ σ :=
  { d with
    registry := (d.registry.updateTagValue id value quality (clock d.ticks) (clock (d.ticks + 1))).2
    ticks := d.ticks + 2
    refused := d.refused ++
      match (d.registry.updateTagValue id value quality (clock d.ticks) (clock (d.ticks + 1))).1 with
      | .ok _ => []
      | .error e => [(id, e)] }

/-- `let source_ts = Utc::now();` on a path that does not use it. -/
def tick (d : DriverState ξ σ) : DriverState ξ σ := { d with ticks := d.ticks + 1 }

/-- `if let Some(reply) = req.reply { let _ = reply.send(result); }`. -/
def sendReply (d : DriverState ξ σ) (req : WriteRequest) (result : Except String Unit) :
    DriverState ξ σ :=
  { d with replies := d.replies ++ req.reply.toList.map fun ch => (ch, result) }

/-- Note an exchange with the device. -/
def record (d : DriverState ξ σ) (x : ξ) : DriverState ξ σ := { d with trace := d.trace ++ [x] }

/-- Mark every tag of a group. -/
def markAll (d : DriverState ξ σ) (ids : List String) (quality : TagQuality) : DriverState ξ σ :=
  ids.foldl (fun d id => d.setTagQuality clock id quality) d

/-- Take the connection out of the slot, or open one.  `connect_with_backoff`
    retries until it succeeds, so its error arms are never taken. -/
def takeOrConnect (d : DriverState ξ σ) : Nat × DriverState ξ σ :=
  match d.conn with
  | some c => (c, { d with conn := none })
  | none => (d.opened, { d with opened := d.opened + 1 })

/-- Put a connection into the slot, or empty it. -/
def putBack (d : DriverState ξ σ) (conn : Option Nat) : DriverState ξ σ := { d with conn := conn }

-- ============================================================================
-- What a client sees of a tag
-- ============================================================================

/-- Value and quality of a tag. -/
def view (d : DriverState ξ σ) (id : String) : Option (TagValue × TagQuality) :=
  (d.registry.tag? id).map fun t => (t.value, t.quality)

/-- The registered data type of a tag. -/
def dataType? (d : DriverState ξ σ) (id : String) : Option TagDataType := d.registry.dataType? id

/-- The tag exists, with data type `dt`. -/
def Registered (d : DriverState ξ σ) (id : String) (dt : TagDataType) : Prop :=
  d.dataType? id = some dt ∧ (d.view id).isSome

variable {clock}

theorem view_setTagQuality (d : DriverState ξ σ) (id : String) (q : TagQuality) (id' : String) :
    (d.setTagQuality clock id q).view id' =
      if id' = id then (d.view id).map fun p => (p.1, q) else d.view id' := by
  unfold view setTagQuality
  rw [TagRegistry.tag?_setTagQuality]
  by_cases hid : id' = id
  · rw [if_pos hid, if_pos hid, Option.map_map, Option.map_map]
    rfl
  · rw [if_neg hid, if_neg hid]

theorem view_updateTagValue (d : DriverState ξ σ) (id : String) (v : TagValue) (q : TagQuality)
    (id' : String) :
    (d.updateTagValue clock id v q).view id' =
      if id' = id ∧ d.dataType? id = some v.dataType then (d.view id).map fun _ => (v, q)
      else d.view id' := by
  unfold view updateTagValue dataType?
  rw [TagRegistry.tag?_updateTagValue]
  by_cases hid : id' = id ∧ d.registry.dataType? id = some v.dataType
  · rw [if_pos hid, if_pos hid, Option.map_map, Option.map_map]
    rfl
  · rw [if_neg hid, if_neg hid]

theorem view_setTagQuality_self (d : DriverState ξ σ) (id : String) (q : TagQuality) :
    (d.setTagQuality clock id q).view id = (d.view id).map fun p => (p.1, q) := by
  rw [view_setTagQuality, if_pos rfl]

theorem view_setTagQuality_ne (d : DriverState ξ σ) {id id' : String} (q : TagQuality)
    (h : id' ≠ id) : (d.setTagQuality clock id q).view id' = d.view id' := by
  rw [view_setTagQuality, if_neg h]

theorem view_updateTagValue_ne (d : DriverState ξ σ) {id id' : String} (v : TagValue)
    (q : TagQuality) (h : id' ≠ id) : (d.updateTagValue clock id v q).view id' = d.view id' := by
  rw [view_updateTagValue, if_neg (fun h' => h h'.1)]

@[simp] theorem dataType?_setTagQuality (d : DriverState ξ σ) (id : String) (q : TagQuality)
    (id' : String) : (d.setTagQuality clock id q).dataType? id' = d.dataType? id' := rfl

@[simp] theorem dataType?_updateTagValue (d : DriverState ξ σ) (id : String) (v : TagValue)
    (q : TagQuality) (id' : String) :
    (d.updateTagValue clock id v q).dataType? id' = d.dataType? id' :=
  TagRegistry.dataType?_updateTagValue ..

@[simp] theorem view_sendReply (d : DriverState ξ σ) (req : WriteRequest)
    (r : Except String Unit) (id : String) : (d.sendReply req r).view id = d.view id := rfl

@[simp] theorem view_record (d : DriverState ξ σ) (x : ξ) (id : String) :
    (d.record x).view id = d.view id := rfl

@[simp] theorem view_putBack (d : DriverState ξ σ) (c : Option Nat) (id : String) :
    (d.putBack c).view id = d.view id := rfl

@[simp] theorem dataType?_sendReply (d : DriverState ξ σ) (req : WriteRequest)
    (r : Except String Unit) (id : String) : (d.sendReply req r).dataType? id = d.dataType? id := rfl

@[simp] theorem dataType?_record (d : DriverState ξ σ) (x : ξ) (id : String) :
    (d.record x).dataType? id = d.dataType? id := rfl

@[simp] theorem dataType?_putBack (d : DriverState ξ σ) (c : Option Nat) (id : String) :
    (d.putBack c).dataType? id = d.dataType? id := rfl

/-- Marking a group sets the quality of its tags and of no other. -/
theorem view_markAll (d : DriverState ξ σ) (ids : List String) (q : TagQuality) (id' : String) :
    (d.markAll clock ids q).view id' =
      if id' ∈ ids then (d.view id').map fun p => (p.1, q) else d.view id' := by
  induction ids generalizing d with
  | nil => rfl
  | cons id ids ih =>
      show (markAll clock (d.setTagQuality clock id q) ids q).view id' = _
      rw [ih, view_setTagQuality]
      by_cases hid : id' = id
      · subst hid
        rw [if_pos rfl, if_pos (List.mem_cons_self ..), Option.map_map]
        split <;> rfl
      · rw [if_neg hid]
        simp only [List.mem_cons, hid, false_or]

@[simp] theorem dataType?_markAll (d : DriverState ξ σ) (ids : List String) (q : TagQuality)
    (id' : String) : (d.markAll clock ids q).dataType? id' = d.dataType? id' := by
  induction ids generalizing d with
  | nil => rfl
  | cons id ids ih => exact ih (d.setTagQuality clock id q)

/-- The tag does not show a value as Good. -/
def NotGood (d : DriverState ξ σ) (id : String) : Prop := ∀ p, d.view id = some p → p.2 ≠ .good

theorem NotGood.congr {d d' : DriverState ξ σ} {id : String} (h : d.NotGood id)
    (hview : d'.view id = d.view id) : d'.NotGood id := by
  intro p hp
  exact h p (hview.symm.trans hp)

theorem notGood_setTagQuality (d : DriverState ξ σ) (id : String) {q : TagQuality}
    (hq : q ≠ .good) : (d.setTagQuality clock id q).NotGood id := by
  intro p hp
  rw [view_setTagQuality_self, Option.map_eq_some_iff] at hp
  obtain ⟨old, -, rfl⟩ := hp
  exact hq

theorem notGood_markAll (d : DriverState ξ σ) {ids : List String} {id : String} (hid : id ∈ ids)
    {q : TagQuality} (hq : q ≠ .good) : (d.markAll clock ids q).NotGood id := by
  intro p hp
  rw [view_markAll, if_pos hid, Option.map_eq_some_iff] at hp
  obtain ⟨old, -, rfl⟩ := hp
  exact hq

-- ============================================================================
-- What registry updates leave alone
-- ============================================================================

/-- Everything but the registry and the clock is the same. -/
structure SameIo (d d' : DriverState ξ σ) : Prop where
  queue : d'.queue = d.queue
  replies : d'.replies = d.replies
  conn : d'.conn = d.conn
  opened : d'.opened = d.opened
  session : d'.session = d.session
  trace : d'.trace = d.trace
  definitions : d'.registry.definitions = d.registry.definitions

theorem SameIo.refl (d : DriverState ξ σ) : SameIo d d := ⟨rfl, rfl, rfl, rfl, rfl, rfl, rfl⟩

theorem SameIo.trans {d₁ d₂ d₃ : DriverState ξ σ} (h : SameIo d₁ d₂) (h' : SameIo d₂ d₃) :
    SameIo d₁ d₃ :=
  ⟨h'.queue.trans h.queue, h'.replies.trans h.replies, h'.conn.trans h.conn,
    h'.opened.trans h.opened, h'.session.trans h.session, h'.trace.trans h.trace,
    h'.definitions.trans h.definitions⟩

theorem SameIo.dataType? {d d' : DriverState ξ σ} (h : SameIo d d') (id : String) :
    d'.dataType? id = d.dataType? id := by
  unfold DriverState.dataType? TagRegistry.dataType?
  rw [h.definitions]

theorem sameIo_setTagQuality (d : DriverState ξ σ) (id : String) (q : TagQuality) :
    SameIo d (d.setTagQuality clock id q) := ⟨rfl, rfl, rfl, rfl, rfl, rfl, rfl⟩

theorem sameIo_updateTagValue (d : DriverState ξ σ) (id : String) (v : TagValue) (q : TagQuality) :
    SameIo d (d.updateTagValue clock id v q) :=
  ⟨rfl, rfl, rfl, rfl, rfl, rfl, TagRegistry.definitions_updateTagValue ..⟩

theorem sameIo_tick (d : DriverState ξ σ) : SameIo d d.tick := ⟨rfl, rfl, rfl, rfl, rfl, rfl, rfl⟩

theorem sameIo_markAll (d : DriverState ξ σ) (ids : List String) (q : TagQuality) :
    SameIo d (d.markAll clock ids q) := by
  induction ids generalizing d with
  | nil => exact SameIo.refl d
  | cons id ids ih => exact (sameIo_setTagQuality d id q).trans (ih (d.setTagQuality clock id q))

-- ============================================================================
-- What a driver never does
-- ============================================================================

/-- `d'` comes after `d`: the registry was changed by its update methods only,
    and exchanges were only appended. -/
structure Extends (d d' : DriverState ξ σ) : Prop where
  registry : ∃ ops, d'.registry = d.registry.run ops
  trace : d.trace <+: d'.trace

namespace Extends

theorem refl (d : DriverState ξ σ) : Extends d d := ⟨⟨[], rfl⟩, List.prefix_refl _⟩

theorem trans {d₁ d₂ d₃ : DriverState ξ σ} (h : Extends d₁ d₂) (h' : Extends d₂ d₃) :
    Extends d₁ d₃ := by
  obtain ⟨ops, hops⟩ := h.registry
  obtain ⟨ops', hops'⟩ := h'.registry
  exact ⟨⟨ops ++ ops', by rw [hops', hops, TagRegistry.run_append]⟩, h.trace.trans h'.trace⟩

theorem dataType?_eq {d d' : DriverState ξ σ} (h : Extends d d') : d'.dataType? = d.dataType? := by
  obtain ⟨ops, hops⟩ := h.registry
  funext id
  rw [dataType?, TagRegistry.dataType?, hops, TagRegistry.definitions_run]
  rfl

/-- Tags are neither added nor removed nor retyped. -/
theorem registered {d d' : DriverState ξ σ} (h : Extends d d') {id : String} {dt : TagDataType}
    (hr : d.Registered id dt) : d'.Registered id dt := by
  obtain ⟨ops, hops⟩ := h.registry
  obtain ⟨hdt, hview⟩ := hr
  refine ⟨?_, ?_⟩
  · rw [h.dataType?_eq]
    exact hdt
  · rw [view, Option.isSome_map] at hview ⊢
    rw [hops, TagRegistry.isSome_tag?_run]
    exact hview

end Extends

/-- Every exchange between `d` and `d'` satisfies `P`. -/
def AllNew (P : ξ → Prop) (d d' : DriverState ξ σ) : Prop :=
  ∀ xs, d'.trace = d.trace ++ xs → ∀ x ∈ xs, P x

/-- An intermediate state splits the exchanges. -/
theorem AllNew.split {P : ξ → Prop} {d d₁ d₂ : DriverState ξ σ} (h₁ : Extends d d₁)
    (h₂ : Extends d₁ d₂) (h : AllNew P d d₂) : AllNew P d d₁ ∧ AllNew P d₁ d₂ := by
  obtain ⟨ys, hys⟩ := h₁.trace
  obtain ⟨zs, hzs⟩ := h₂.trace
  have hall : ∀ x ∈ ys ++ zs, P x := by
    apply h
    rw [← List.append_assoc, hys, hzs]
  refine ⟨?_, ?_⟩
  · intro xs hxs x hx
    rw [← hys] at hxs
    obtain rfl := List.append_cancel_left hxs
    exact hall x (List.mem_append_left zs hx)
  · intro xs hxs x hx
    rw [← hzs] at hxs
    obtain rfl := List.append_cancel_left hxs
    exact hall x (List.mem_append_right ys hx)

theorem AllNew.join {P : ξ → Prop} {d d₁ d₂ : DriverState ξ σ} (h₁ : Extends d d₁)
    (h₂ : Extends d₁ d₂) (hleft : AllNew P d d₁) (hright : AllNew P d₁ d₂) : AllNew P d d₂ := by
  obtain ⟨ys, hys⟩ := h₁.trace
  obtain ⟨zs, hzs⟩ := h₂.trace
  intro xs hxs x hx
  rw [← hzs, ← hys, List.append_assoc] at hxs
  obtain rfl := List.append_cancel_left hxs
  rcases List.mem_append.mp hx with hx | hx
  · exact hleft ys hys.symm x hx
  · exact hright zs hzs.symm x hx

theorem AllNew.of_trace_eq {P : ξ → Prop} {d d' : DriverState ξ σ} (h : d'.trace = d.trace) :
    AllNew P d d' := by
  intro xs hxs x hx
  rw [h] at hxs
  obtain rfl := List.self_eq_append_right.mp hxs
  exact absurd hx (List.not_mem_nil)

theorem AllNew.of_singleton {P : ξ → Prop} {d d' : DriverState ξ σ} {x : ξ}
    (htrace : d'.trace = d.trace ++ [x]) (h : P x) : AllNew P d d' := by
  intro xs hxs y hy
  rw [htrace] at hxs
  obtain rfl := List.append_cancel_left hxs
  rw [List.mem_singleton.mp hy]
  exact h

theorem AllNew.singleton {P : ξ → Prop} {d d' : DriverState ξ σ} {x : ξ}
    (htrace : d'.trace = d.trace ++ [x]) (h : AllNew P d d') : P x :=
  h [x] htrace x (List.mem_singleton_self x)

/-- The exchanges between two states. -/
def exchanges (d d' : DriverState ξ σ) : List ξ := d'.trace.drop d.trace.length

theorem trace_eq_append_exchanges {d d' : DriverState ξ σ} (h : Extends d d') :
    d'.trace = d.trace ++ d.exchanges d' := by
  obtain ⟨xs, hxs⟩ := h.trace
  rw [exchanges, ← hxs, List.drop_left]

theorem allNew_iff {P : ξ → Prop} {d d' : DriverState ξ σ} (h : Extends d d') :
    AllNew P d d' ↔ ∀ x ∈ d.exchanges d', P x := by
  refine ⟨fun hall => hall _ (trace_eq_append_exchanges h), ?_⟩
  intro hall xs hxs
  rw [trace_eq_append_exchanges h] at hxs
  obtain rfl := List.append_cancel_left hxs
  exact hall

theorem exchanges_eq {d d' : DriverState ξ σ} {xs : List ξ} (h : d'.trace = d.trace ++ xs) :
    d.exchanges d' = xs := by
  rw [exchanges, h, List.drop_left]

/-- The exchanges between two states are those of the later one from a place
    on. -/
theorem mem_exchanges_iff {d d' : DriverState ξ σ} {x : ξ} :
    x ∈ d.exchanges d' ↔ ∃ n, d.trace.length ≤ n ∧ d'.trace[n]? = some x := by
  rw [exchanges, List.mem_iff_getElem?]
  simp only [List.getElem?_drop]
  constructor
  · rintro ⟨k, hk⟩
    exact ⟨d.trace.length + k, by omega, hk⟩
  · rintro ⟨n, hn, hx⟩
    exact ⟨n - d.trace.length, by rw [Nat.add_sub_cancel' hn]; exact hx⟩

/-- Going on adds exchanges and keeps those made. -/
theorem exchanges_trans {d d₁ d₂ : DriverState ξ σ} (h₁ : Extends d d₁) (h₂ : Extends d₁ d₂) :
    d.exchanges d₂ = d.exchanges d₁ ++ d₁.exchanges d₂ := by
  apply exchanges_eq
  rw [trace_eq_append_exchanges h₂, trace_eq_append_exchanges h₁, List.append_assoc]

theorem mem_exchanges_trans {d d₁ d₂ : DriverState ξ σ} (h₁ : Extends d d₁) (h₂ : Extends d₁ d₂)
    {x : ξ} : x ∈ d.exchanges d₂ ↔ x ∈ d.exchanges d₁ ∨ x ∈ d₁.exchanges d₂ := by
  rw [exchanges_trans h₁ h₂, List.mem_append]

theorem extends_setTagQuality (d : DriverState ξ σ) (id : String) (q : TagQuality) :
    Extends d (d.setTagQuality clock id q) :=
  ⟨⟨[.setQuality id q (clock d.ticks)], rfl⟩, List.prefix_refl _⟩

theorem extends_updateTagValue (d : DriverState ξ σ) (id : String) (v : TagValue) (q : TagQuality) :
    Extends d (d.updateTagValue clock id v q) :=
  ⟨⟨[.update id v q (clock d.ticks) (clock (d.ticks + 1))], rfl⟩, List.prefix_refl _⟩

theorem extends_tick (d : DriverState ξ σ) : Extends d d.tick :=
  ⟨⟨[], rfl⟩, List.prefix_refl _⟩

theorem extends_markAll (d : DriverState ξ σ) (ids : List String) (q : TagQuality) :
    Extends d (d.markAll clock ids q) := by
  induction ids generalizing d with
  | nil => exact Extends.refl d
  | cons id ids ih => exact (extends_setTagQuality d id q).trans (ih (d.setTagQuality clock id q))

theorem extends_sendReply (d : DriverState ξ σ) (req : WriteRequest) (r : Except String Unit) :
    Extends d (d.sendReply req r) := ⟨⟨[], rfl⟩, List.prefix_refl _⟩

theorem extends_putBack (d : DriverState ξ σ) (c : Option Nat) : Extends d (d.putBack c) :=
  ⟨⟨[], rfl⟩, List.prefix_refl _⟩

theorem extends_record (d : DriverState ξ σ) (x : ξ) : Extends d (d.record x) :=
  ⟨⟨[], rfl⟩, List.prefix_append _ _⟩

theorem extends_takeOrConnect (d : DriverState ξ σ) : Extends d d.takeOrConnect.2 := by
  unfold takeOrConnect
  split <;> exact ⟨⟨[], rfl⟩, List.prefix_refl _⟩

theorem view_takeOrConnect (d : DriverState ξ σ) (id : String) :
    d.takeOrConnect.2.view id = d.view id := by
  unfold takeOrConnect
  split <;> rfl

theorem session_takeOrConnect (d : DriverState ξ σ) : d.takeOrConnect.2.session = d.session := by
  unfold takeOrConnect
  split <;> rfl

theorem trace_takeOrConnect (d : DriverState ξ σ) : d.takeOrConnect.2.trace = d.trace := by
  unfold takeOrConnect
  split <;> rfl

theorem queue_takeOrConnect (d : DriverState ξ σ) : d.takeOrConnect.2.queue = d.queue := by
  unfold takeOrConnect
  split <;> rfl

theorem replies_takeOrConnect (d : DriverState ξ σ) : d.takeOrConnect.2.replies = d.replies := by
  unfold takeOrConnect
  split <;> rfl

end DriverState

end PlcBridge
