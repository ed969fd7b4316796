/-
  PlcBridge.Bridge.System

  The way of a write through the bridge: the clients' calls
  (`TagDataSource::write`), the channel to the write-bridge thread, the thread
  itself (the loop in `start_native_server` and, inside it,
  `RuntimeWriteHandler::handle_write`), and the drivers.

  A scheduler picks who moves.  Channels deliver in order and at most once;
  every wait may end by its timeout at any time.  A call is known by its number,
  which is also that of its reply channel; the oneshot channels of the handler
  are numbered as they are made.
-/
import PlcBridge.Bridge.Drivers
import PlcBridge.Opcua.DataSource
import PlcBridge.Runtime.WriteHandler

namespace PlcBridge.Bridge

open PlcBridge.Lib PlcBridge.Opcua PlcBridge.Runtime

-- ============================================================================
-- The parties
-- ============================================================================

/-- A call of `TagDataSource::write`. -/
structure ClientCall where
  tagId : String
  mode : WriteMode
  /-- The value given to the bridge, if the call got that far. -/
  value : Option TagValue
  /-- What was sent on its reply channel. -/
  mailbox : Option (Except String Unit)
  /-- Whether it returned `Ok(())`, once it has returned. -/
  result : Option Bool

/-- A write on its way from the server to the bridge thread. -/
structure BridgeWrite where
  /-- The call it comes from. -/
  call : Nat
  tagId : String
  value : TagValue
  reply : Option Nat

/-- Where the bridge thread stands. -/
inductive Thread where
  | idle
  /-- The write is checked and routed, and waits for room in the channel of a
      driver. -/
  | sending (bw : BridgeWrite) (driver : Nat) (oneshot : Nat)
  | confirming (bw : BridgeWrite) (oneshot : Nat)
  | finished (bw : BridgeWrite) (result : Except ServerError Unit)
  | stopped

structure Sys where
  registry : TagRegistry
  calls : List ClientCall
  /-- Calls whose write the bridge channel received, oldest first. -/
  received : List Nat
  bridge : List BridgeWrite
  thread : Thread
  /-- The call each oneshot channel was made for. -/
  owners : List Nat
  drivers : List Driver

/-- Capacity of a driver's write channel. -/
def writeChannelCapacity : Nat := 256

def Sys.init (registry : TagRegistry) (drivers : List Driver) : Sys where
  registry := registry
  calls := []
  received := []
  bridge := []
  thread := .idle
  owners := []
  drivers := drivers

inductive Event where
  | call (tagId : String) (mode : WriteMode) (value : Option Variant)
  | collect (n : Nat)
  /-- `recv_timeout` ends without a reply. -/
  | giveUp (n : Nat)
  | receive
  | enqueue
  | enqueueTimeout
  | enqueueClosed
  | confirm
  | confirmTimeout
  | confirmClosed
  | answer
  | stop
  | turn (i : Nat) (t : Turn)
  /-- Some other thread updates the registry. -/
  | update (op : TagRegistry.Op)

-- ============================================================================
-- Steps
-- ============================================================================

namespace Sys

variable (s : Sys)

/-- `TagDataSource::write` up to the wait for the reply. -/
def submit (tagId : String) (mode : WriteMode) (value : Option Variant) : Sys :=
  match valueToWrite s.registry tagId value, s.thread with
  | some v, .idle | some v, .sending .. | some v, .confirming .. | some v, .finished .. =>
      { s with
        calls := s.calls ++ [⟨tagId, mode, some v, none, if mode = .queuedAck then some true else none⟩]
        received := s.received ++ [s.calls.length]
        bridge := s.bridge ++
          [⟨s.calls.length, tagId, v, if mode = .confirmedAck then some s.calls.length else none⟩] }
  -- No value to write, or nobody at the other end of the channel.
  | _, _ => { s with calls := s.calls ++ [⟨tagId, mode, none, none, some false⟩] }

/-- Call `n` returns. -/
def finishCall (n : Nat) (ok : Bool) : Sys :=
  { s with calls := s.calls.modify n fun c => { c with result := some ok } }

/-- `handle_write` up to the send into the driver's channel. -/
def dispatch (routing : String → Option Nat) (bw : BridgeWrite) (rest : List BridgeWrite) : Sys :=
  match validateWrite s.registry bw.tagId bw.value with
  | .error e => { s with bridge := rest, thread := .finished bw (.error e) }
  | .ok () =>
      match routing bw.tagId with
      | none =>
          { s with
            bridge := rest
            thread := .finished bw (.error (.other ("No driver route for tag " ++ bw.tagId))) }
      | some i =>
          { s with
            bridge := rest
            thread := .sending bw i s.owners.length
            owners := s.owners ++ [bw.call] }

/-- The handler returns an error. -/
def failWrite (bw : BridgeWrite) (msg : String) : Sys :=
  { s with thread := .finished bw (.error (.other msg)) }

/-- The protocol of a route, for error texts. -/
def protocolOf (i : Nat) : String := ((s.drivers[i]?).map Driver.protocol).getD ""

/-- The reply on oneshot channel `k`. -/
def replyOn (k : Nat) : Option (Except String Unit) :=
  ((s.drivers.flatMap Driver.replies).find? (·.1 = k)).map Prod.snd

/-- `tx.send(res.map_err(|e| format!("{}", e)))`, if there is a channel. -/
def deliverResult (bw : BridgeWrite) (result : Except ServerError Unit) : List ClientCall :=
  match bw.reply with
  | none => s.calls
  | some n => s.calls.modify n fun c => { c with mailbox := some (result.mapError ServerError.display) }

end Sys

def step (routing : String → Option Nat) (s : Sys) : Event → Option Sys
  | .call tagId mode value => some (s.submit tagId mode value)
  | .collect n =>
      match s.calls[n]? with
      | some c =>
          match c.result, c.mailbox with
          | none, some (.ok ()) => some (s.finishCall n true)
          | none, some (.error _) => some (s.finishCall n false)
          | _, _ => none
      | none => none
  | .giveUp n =>
      match s.calls[n]? with
      | some c => if c.result.isNone then some (s.finishCall n false) else none
      | none => none
  | .receive =>
      match s.thread, s.bridge with
      | .idle, bw :: rest => some (s.dispatch routing bw rest)
      | _, _ => none
  | .enqueue =>
      match s.thread with
      | .sending bw i k =>
          match s.drivers[i]? with
          | some d =>
              if d.queue.length < writeChannelCapacity then
                some { s with
                  drivers := s.drivers.set i (d.enqueue ⟨bw.tagId, bw.value, some k⟩)
                  thread := .confirming bw k }
              else none
          | none => none
      | _ => none
  | .enqueueTimeout =>
      match s.thread with
      | .sending bw i _ => some (s.failWrite bw ("Timed out enqueuing " ++ s.protocolOf i ++ " write"))
      | _ => none
  | .enqueueClosed =>
      match s.thread with
      | .sending bw i _ =>
          some (s.failWrite bw ("Failed to enqueue " ++ s.protocolOf i ++ " write: channel closed"))
      | _ => none
  | .confirm =>
      match s.thread with
      | .confirming bw k =>
          match s.replyOn k with
          | some (.ok ()) => some { s with thread := .finished bw (.ok ()) }
          | some (.error msg) => some (s.failWrite bw ("Driver reported write failure: " ++ msg))
          | none => none
      | _ => none
  | .confirmTimeout =>
      match s.thread with
      | .confirming bw _ => some (s.failWrite bw "Write confirmation timed out")
      | _ => none
  | .confirmClosed =>
      match s.thread with
      | .confirming bw _ => some (s.failWrite bw "Write confirmation channel closed")
      | _ => none
  | .answer =>
      match s.thread with
      | .finished bw result => some { s with calls := s.deliverResult bw result, thread := .idle }
      | _ => none
  | .stop =>
      match s.thread with
      | .idle => some { s with bridge := [], thread := .stopped }
      | _ => none
  | .turn i t =>
      match s.drivers[i]? with
      | some d =>
          match d.turn s.registry t with
          | some d' => some { s with registry := d'.registry, drivers := s.drivers.set i d' }
          | none => none
      | none => none
  | .update op => some { s with registry := (s.registry.call op).2 }

-- ============================================================================
-- What a step does
-- ============================================================================

/-- The steps of the system, by what they do; `ok` holds of the turns drivers
    take. -/
inductive Moves (ok : Nat → Turn → Prop) (routing : String → Option Nat) (s : Sys) : Sys → Prop
  | refuse {tagId mode} :
      Moves ok routing s { s with calls := s.calls ++ [⟨tagId, mode, none, none, some false⟩] }
  | submit {tagId mode v} :
      Moves ok routing s
        { s with
          calls := s.calls ++
            [⟨tagId, mode, some v, none, if mode = .queuedAck then some true else none⟩]
          received := s.received ++ [s.calls.length]
          bridge := s.bridge ++
            [⟨s.calls.length, tagId, v, if mode = .confirmedAck then some s.calls.length else none⟩] }
  | succeed {n c} : s.calls[n]? = some c → c.mailbox = some (.ok ()) →
      Moves ok routing s (s.finishCall n true)
  | giveUp {n c} : s.calls[n]? = some c → Moves ok routing s (s.finishCall n false)
  | reject {bw rest e} : s.thread = .idle → s.bridge = bw :: rest →
      Moves ok routing s { s with bridge := rest, thread := .finished bw (.error e) }
  | route {bw rest i} : s.thread = .idle → s.bridge = bw :: rest →
      validateWrite s.registry bw.tagId bw.value = .ok () → routing bw.tagId = some i →
      Moves ok routing s
        { s with
          bridge := rest
          thread := .sending bw i s.owners.length
          owners := s.owners ++ [bw.call] }
  | enqueue {bw i k d} : s.thread = .sending bw i k → s.drivers[i]? = some d →
      Moves ok routing s
        { s with
          drivers := s.drivers.set i (d.enqueue ⟨bw.tagId, bw.value, some k⟩)
          thread := .confirming bw k }
  | failSend {bw i k msg} : s.thread = .sending bw i k → Moves ok routing s (s.failWrite bw msg)
  | failConfirm {bw k msg} : s.thread = .confirming bw k → Moves ok routing s (s.failWrite bw msg)
  | confirm {bw k d} : s.thread = .confirming bw k → d ∈ s.drivers → (k, .ok ()) ∈ d.replies →
      Moves ok routing s { s with thread := .finished bw (.ok ()) }
  | answer {bw result} : s.thread = .finished bw result →
      Moves ok routing s { s with calls := s.deliverResult bw result, thread := .idle }
  | stop : s.thread = .idle → Moves ok routing s { s with bridge := [], thread := .stopped }
  | turn {i d d'} (t : Turn) : ok i t → s.drivers[i]? = some d → d.turn s.registry t = some d' →
      Moves ok routing s { s with registry := d'.registry, drivers := s.drivers.set i d' }
  | update (op : TagRegistry.Op) : Moves ok routing s { s with registry := (s.registry.call op).2 }

variable {ok : Nat → Turn → Prop} {routing : String → Option Nat} {s s' : Sys}

theorem moves_submit (tagId : String) (mode : WriteMode) (value : Option Variant) :
    Moves ok routing s (s.submit tagId mode value) := by
  unfold Sys.submit
  split
  · exact .submit
  · exact .submit
  · exact .submit
  · exact .submit
  · exact .refuse

theorem moves_dispatch {bw : BridgeWrite} {rest : List BridgeWrite} (hidle : s.thread = .idle)
    (hbridge : s.bridge = bw :: rest) : Moves ok routing s (s.dispatch routing bw rest) := by
  unfold Sys.dispatch
  split
  · exact .reject hidle hbridge
  · rename_i hvalid
    split
    · exact .reject hidle hbridge
    · rename_i i hroute
      exact .route hidle hbridge hvalid hroute

theorem mem_replies_of_replyOn {k : Nat} {r : Except String Unit} (h : s.replyOn k = some r) :
    ∃ d ∈ s.drivers, (k, r) ∈ d.replies := by
  obtain ⟨⟨k', r'⟩, hfind, rfl⟩ := Option.map_eq_some_iff.mp h
  have hk : k' = k := by simpa using List.find?_some hfind
  obtain ⟨d, hd, hmem⟩ := List.mem_flatMap.mp (List.mem_of_find?_eq_some hfind)
  exact ⟨d, hd, hk ▸ hmem⟩

theorem moves_of_step {e : Event} (h : step routing s e = some s') :
    Moves (fun i t => e = .turn i t) routing s s' := by
  cases e with
  | call tagId mode value =>
      obtain rfl := Option.some.inj h
      exact moves_submit tagId mode value
  | collect n =>
      simp only [step] at h
      split at h
      · rename_i c hc
        split at h
        · rename_i hmail
          obtain rfl := Option.some.inj h
          exact .succeed hc hmail
        · obtain rfl := Option.some.inj h
          exact .giveUp hc
        · exact absurd h (by simp)
      · exact absurd h (by simp)
  | giveUp n =>
      simp only [step] at h
      split at h
      · rename_i c hc
        split at h
        · obtain rfl := Option.some.inj h
          exact .giveUp hc
        · exact absurd h (by simp)
      · exact absurd h (by simp)
  | receive =>
      simp only [step] at h
      split at h
      · rename_i bw rest hidle hbridge
        obtain rfl := Option.some.inj h
        exact moves_dispatch hidle hbridge
      · exact absurd h (by simp)
  | enqueue =>
      simp only [step] at h
      split at h
      · rename_i bw i k hsending
        split at h
        · rename_i d hd
          split at h
          · obtain rfl := Option.some.inj h
            exact .enqueue hsending hd
          · exact absurd h (by simp)
        · exact absurd h (by simp)
      · exact absurd h (by simp)
  | enqueueTimeout =>
      simp only [step] at h
      split at h
      · rename_i hsending
        obtain rfl := Option.some.inj h
        exact .failSend hsending
      · exact absurd h (by simp)
  | enqueueClosed =>
      simp only [step] at h
      split at h
      · rename_i hsending
        obtain rfl := Option.some.inj h
        exact .failSend hsending
      · exact absurd h (by simp)
  | confirm =>
      simp only [step] at h
      split at h
      · rename_i bw k hconfirming
        split at h
        · rename_i hreply
          obtain ⟨d, hd, hmem⟩ := mem_replies_of_replyOn hreply
          obtain rfl := Option.some.inj h
          exact .confirm hconfirming hd hmem
        · obtain rfl := Option.some.inj h
          exact .failConfirm hconfirming
        · exact absurd h (by simp)
      · exact absurd h (by simp)
  | confirmTimeout =>
      simp only [step] at h
      split at h
      · rename_i hconfirming
        obtain rfl := Option.some.inj h
        exact .failConfirm hconfirming
      · exact absurd h (by simp)
  | confirmClosed =>
      simp only [step] at h
      split at h
      · rename_i hconfirming
        obtain rfl := Option.some.inj h
        exact .failConfirm hconfirming
      · exact absurd h (by simp)
  | answer =>
      simp only [step] at h
      split at h
      · rename_i hfinished
        obtain rfl := Option.some.inj h
        exact .answer hfinished
      · exact absurd h (by simp)
  | stop =>
      simp only [step] at h
      split at h
      · rename_i hidle
        obtain rfl := Option.some.inj h
        exact .stop hidle
      · exact absurd h (by simp)
  | turn i t =>
      simp only [step] at h
      split at h
      · rename_i d hd
        split at h
        · rename_i d' hturn
          obtain rfl := Option.some.inj h
          exact .turn t rfl hd hturn
        · exact absurd h (by simp)
      · exact absurd h (by simp)
  | update op =>
      obtain rfl := Option.some.inj h
      exact .update op

end PlcBridge.Bridge
