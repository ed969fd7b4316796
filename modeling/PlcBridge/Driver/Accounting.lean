/-
  PlcBridge.Driver.Accounting

  Bookkeeping for the write queue of a driver.  Between two states some
  requests were taken from the front of the queue; each was sent to the device
  or not, and each got one result, which went to its reply channel if it has
  one.  `Accounts` says this of a step, and steps chain.
-/
import PlcBridge.Driver.State

namespace PlcBridge

/-- How the write requests of a protocol show in its record of exchanges. -/
structure WriteLog (ξ : Type) where
  isWrite : ξ → Bool
  /-- The exchange asks the device to store the request's value in the range
      its tag is mapped to. -/
  carries : ξ → WriteRequest → Prop
  /-- The device answered that it did. -/
  acknowledged : ξ → Prop

/-- A request taken from the queue: the exchange made for it, if any, and its
    result. -/
structure Served (ξ : Type) where
  req : WriteRequest
  sent : Option ξ
  result : Except String Unit

/-- What went to the reply channel. -/
def Served.replies {ξ : Type} (s : Served ξ) : List (Nat × Except String Unit) :=
  s.req.reply.toList.map fun ch => (ch, s.result)

/-- From `d` to `d'` exactly the requests of `served` were taken from the queue
    and answered, in order, and a request succeeded exactly when the device
    acknowledged the exchange made for it. -/
structure Accounts {ξ σ : Type} (log : WriteLog ξ) (d d' : DriverState ξ σ)
    (served : List (Served ξ)) : Prop where
  queue : d.queue = served.map Served.req ++ d'.queue
  replies : d'.replies = d.replies ++ served.flatMap Served.replies
  writes : d'.trace.filter log.isWrite = d.trace.filter log.isWrite ++ served.filterMap Served.sent
  own : ∀ s ∈ served, ∀ x, s.sent = some x → log.carries x s.req
  success : ∀ s ∈ served, s.result = .ok () ↔ ∃ x, s.sent = some x ∧ log.acknowledged x

namespace Accounts

variable {ξ σ : Type} {log : WriteLog ξ} {d d₁ d₂ : DriverState ξ σ} {served served' : List (Served ξ)}

theorem refl (log : WriteLog ξ) (d : DriverState ξ σ) : Accounts log d d [] where
  queue := rfl
  replies := (List.append_nil _).symm
  writes := (List.append_nil _).symm
  own := fun _ h => absurd h (List.not_mem_nil)
  success := fun _ h => absurd h (List.not_mem_nil)

theorem trans (h : Accounts log d d₁ served) (h' : Accounts log d₁ d₂ served') :
    Accounts log d d₂ (served ++ served') where
  queue := by rw [h.queue, h'.queue, List.map_append, List.append_assoc]
  replies := by rw [h'.replies, h.replies, List.flatMap_append, List.append_assoc]
  writes := by rw [h'.writes, h.writes, List.filterMap_append, List.append_assoc]
  own := fun s hs => (List.mem_append.mp hs).elim (h.own s) (h'.own s)
  success := fun s hs => (List.mem_append.mp hs).elim (h.success s) (h'.success s)

/-- A step that leaves the queue alone, sends no reply and makes no write. -/
theorem of_quiet (hqueue : d₁.queue = d.queue) (hreplies : d₁.replies = d.replies)
    (hwrites : d₁.trace.filter log.isWrite = d.trace.filter log.isWrite) : Accounts log d d₁ [] where
  queue := hqueue.symm
  replies := by rw [hreplies, List.flatMap_nil, List.append_nil]
  writes := by rw [hwrites, List.filterMap_nil, List.append_nil]
  own := fun _ h => absurd h (List.not_mem_nil)
  success := fun _ h => absurd h (List.not_mem_nil)

theorem of_sameIo (h : DriverState.SameIo d d₁) : Accounts log d d₁ [] :=
  of_quiet h.queue h.replies (by rw [h.trace])

theorem of_takeOrConnect (log : WriteLog ξ) (d : DriverState ξ σ) :
    Accounts log d d.takeOrConnect.2 [] :=
  of_quiet (DriverState.queue_takeOrConnect d) (DriverState.replies_takeOrConnect d)
    (by rw [DriverState.trace_takeOrConnect])

theorem of_putBack (log : WriteLog ξ) (d : DriverState ξ σ) (c : Option Nat) :
    Accounts log d (d.putBack c) [] := of_quiet rfl rfl rfl

/-- Reads are no writes. -/
theorem of_record {x : ξ} (hx : log.isWrite x = false) (d : DriverState ξ σ) :
    Accounts log d (d.record x) [] :=
  of_quiet rfl rfl (by simp [DriverState.record, hx])

/-- Quiet steps around others. -/
theorem trans_quiet (h : Accounts log d d₁ served) (h' : Accounts log d₁ d₂ []) :
    Accounts log d d₂ served := by
  have := h.trans h'
  rwa [List.append_nil] at this

/-- A step that finishes one request, taken from the queue before, with one
    reply. -/
theorem of_finished {s : Served ξ} (hqueue : d₁.queue = d.queue)
    (hreplies : d₁.replies = d.replies ++ s.replies)
    (hwrites : d₁.trace.filter log.isWrite = d.trace.filter log.isWrite ++ s.sent.toList)
    (hown : ∀ x, s.sent = some x → log.carries x s.req)
    (hsuccess : s.result = .ok () ↔ ∃ x, s.sent = some x ∧ log.acknowledged x) :
    Accounts log { d with queue := s.req :: d.queue } d₁ [s] where
  queue := by rw [hqueue]; rfl
  replies := by rw [hreplies, List.flatMap_cons, List.flatMap_nil, List.append_nil]
  writes := by
    rw [hwrites]
    cases hsent : s.sent <;> simp [hsent]
  own := by simpa using hown
  success := by simpa using hsuccess

/-- The request was refused without contacting the device. -/
theorem of_refused {req : WriteRequest} {msg : String} (hqueue : d₁.queue = d.queue)
    (hreplies : d₁.replies = d.replies ++ req.reply.toList.map fun ch => (ch, .error msg))
    (htrace : d₁.trace = d.trace) :
    Accounts log { d with queue := req :: d.queue } d₁ [⟨req, none, .error msg⟩] := by
  refine of_finished (s := ⟨req, none, .error msg⟩) hqueue hreplies ?_ ?_ ?_
  · rw [htrace, Option.toList_none, List.append_nil]
  · intro x hx
    exact absurd hx (by simp)
  · simp

/-- The request was sent, and its result is the device's. -/
theorem of_sent {req : WriteRequest} {x : ξ} {result : Except String Unit} (hqueue : d₁.queue = d.queue)
    (hreplies : d₁.replies = d.replies ++ req.reply.toList.map fun ch => (ch, result))
    (htrace : d₁.trace = d.trace ++ [x]) (hwrite : log.isWrite x = true) (hcarries : log.carries x req)
    (hsuccess : result = .ok () ↔ log.acknowledged x) :
    Accounts log { d with queue := req :: d.queue } d₁ [⟨req, some x, result⟩] := by
  refine of_finished (s := ⟨req, some x, result⟩) hqueue hreplies ?_ ?_ ?_
  · rw [htrace, List.filter_append, List.filter_cons_of_pos hwrite]
    rfl
  · rintro y hy
    obtain rfl := Option.some.inj hy
    exact hcarries
  · simpa using hsuccess

end Accounts

end PlcBridge
