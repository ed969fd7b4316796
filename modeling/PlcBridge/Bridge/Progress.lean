/-
  PlcBridge.Bridge.Progress

  No write is forgotten by the bridge thread.  What the channel received is, in
  order, what has been dealt with, what the thread holds and what still waits
  (`Accounted`); each step of the thread brings it nearer to the end of every
  write that waits, and as long as there is one the thread can move, since each
  of its waits has a timeout.
-/
import PlcBridge.Bridge.Confirmed
import PlcBridge.Lib.Ranking

namespace PlcBridge.Bridge

open PlcBridge.Lib PlcBridge.Opcua PlcBridge.Runtime

-- ============================================================================
-- The thread's steps
-- ============================================================================

/-- A step of the bridge thread, other than its end. -/
def Event.ofThread : Event → Bool
  | .receive | .enqueue | .enqueueTimeout | .enqueueClosed | .confirm | .confirmTimeout | .confirmClosed
  | .answer => true
  | _ => false

/-- The write the thread is working on. -/
def Thread.held : Thread → List BridgeWrite
  | .idle | .stopped => []
  | .sending bw _ _ | .confirming bw _ | .finished bw _ => [bw]

/-- How many steps it takes at most to be idle, and for an idle one to be idle
    again. -/
def Thread.rank : Thread → Nat
  | .idle => 4
  | .sending .. => 3
  | .confirming .. => 2
  | .finished .. => 1
  | .stopped => 0

namespace Sys

/-- Received, and not yet dealt with. -/
def pending (s : Sys) : List BridgeWrite := s.thread.held ++ s.bridge

/-- How many of the writes received have been dealt with. -/
def servedCount (s : Sys) : Nat := s.received.length - s.pending.length

end Sys

/-- What a step keeps of the calls: their modes, and that they are answered or
    have returned.  A call that is new has returned. -/
structure CallsKept (s s' : Sys) : Prop where
  length : s.calls.length ≤ s'.calls.length
  kept : ∀ (n : Nat) (c' : ClientCall), s'.calls[n]? = some c' →
    (s.calls.length ≤ n ∧ c'.result.isSome) ∨
    ∃ c, s.calls[n]? = some c ∧ c'.mode = c.mode ∧ (c.mailbox.isSome → c'.mailbox.isSome) ∧
      (c.result.isSome → c'.result.isSome)

/-- The steps of the system, by what they do to the thread and its channel. -/
inductive Attends (s s' : Sys) : Event → Prop
  | others {e} : e.ofThread = false → e ≠ .stop → s'.thread = s.thread → s'.bridge = s.bridge →
      s'.received = s.received → CallsKept s s' → Attends s s' e
  | submit {tagId mode value v} : s.thread ≠ .stopped → s'.thread = s.thread →
      s'.calls = s.calls ++ [⟨tagId, mode, some v, none, if mode = .queuedAck then some true else none⟩] →
      s'.received = s.received ++ [s.calls.length] →
      s'.bridge = s.bridge ++
        [⟨s.calls.length, tagId, v, if mode = .confirmedAck then some s.calls.length else none⟩] →
      Attends s s' (.call tagId mode value)
  | receive {bw rest} : s.thread = .idle → s.bridge = bw :: rest → s'.thread.held = [bw] →
      s'.thread.rank < 4 → s'.bridge = rest → s'.received = s.received → s'.calls = s.calls →
      Attends s s' .receive
  | handle {e bw} : e.ofThread = true → s.thread.held = [bw] → s'.thread.held = [bw] →
      s'.thread.rank < s.thread.rank → s'.bridge = s.bridge → s'.received = s.received →
      s'.calls = s.calls → Attends s s' e
  | answer {bw result} : s.thread = .finished bw result → s'.thread = .idle → s'.bridge = s.bridge →
      s'.received = s.received → s'.calls = s.deliverResult bw result → Attends s s' .answer
  | stop : s.thread = .idle → s'.thread = .stopped → s'.calls = s.calls → Attends s s' .stop

variable {routing : String → Option Nat} {s s' : Sys} {e : Event}

theorem CallsKept.of_eq (h : s'.calls = s.calls) : CallsKept s s' where
  length := by rw [h]
  kept := by
    intro n c' hc'
    rw [h] at hc'
    exact .inr ⟨c', hc', rfl, id, id⟩

theorem callsKept_concat {c : ClientCall} (h : s'.calls = s.calls ++ [c]) (hc : c.result.isSome) :
    CallsKept s s' where
  length := by
    rw [h, List.length_append]
    exact Nat.le_add_right _ _
  kept := by
    intro n c' hc'
    rw [h] at hc'
    rcases getElem?_concat_cases hc' with hold | ⟨rfl, rfl⟩
    · exact .inr ⟨c', hold, rfl, id, id⟩
    · exact .inl ⟨Nat.le_refl _, hc⟩

theorem callsKept_modify {n : Nat} {f : ClientCall → ClientCall} (h : s'.calls = s.calls.modify n f)
    (hf : ∀ c, (f c).mode = c.mode ∧ (c.mailbox.isSome → (f c).mailbox.isSome) ∧
      (c.result.isSome → (f c).result.isSome)) : CallsKept s s' where
  length := by rw [h, List.length_modify]
  kept := by
    intro m c' hc'
    rw [h] at hc'
    rcases getElem?_modify_cases hc' with hold | ⟨c, hc, -, rfl⟩
    · exact .inr ⟨c', hold, rfl, id, id⟩
    · exact .inr ⟨c, hc, hf c⟩

theorem callsKept_finishCall (n : Nat) (ok : Bool) : CallsKept s (s.finishCall n ok) :=
  callsKept_modify rfl fun _ => ⟨rfl, id, fun _ => rfl⟩

theorem callsKept_deliverResult (bw : BridgeWrite) (result : Except ServerError Unit)
    (h : s'.calls = s.deliverResult bw result) : CallsKept s s' := by
  unfold Sys.deliverResult at h
  split at h
  · exact .of_eq h
  · exact callsKept_modify h fun _ => ⟨rfl, fun _ => rfl, id⟩

theorem attends_submit (tagId : String) (mode : WriteMode) (value : Option Variant) :
    Attends s (s.submit tagId mode value) (.call tagId mode value) := by
  unfold Sys.submit
  split
  · rename_i hthread
    exact .submit (by simp [hthread]) rfl rfl rfl rfl
  · rename_i hthread
    exact .submit (by simp [hthread]) rfl rfl rfl rfl
  · rename_i hthread
    exact .submit (by simp [hthread]) rfl rfl rfl rfl
  · rename_i hthread
    exact .submit (by simp [hthread]) rfl rfl rfl rfl
  · exact .others rfl (by simp) rfl rfl rfl (callsKept_concat rfl rfl)

theorem attends_dispatch {bw : BridgeWrite} {rest : List BridgeWrite} (hidle : s.thread = .idle)
    (hbridge : s.bridge = bw :: rest) : Attends s (s.dispatch routing bw rest) .receive := by
  unfold Sys.dispatch
  split
  · exact .receive hidle hbridge rfl (by simp [Thread.rank]) rfl rfl rfl
  · split
    · exact .receive hidle hbridge rfl (by simp [Thread.rank]) rfl rfl rfl
    · exact .receive hidle hbridge rfl (by simp [Thread.rank]) rfl rfl rfl

theorem attends_failWrite {bw : BridgeWrite} (msg : String) (he : e.ofThread = true)
    (hheld : s.thread.held = [bw]) (hrank : 1 < s.thread.rank) : Attends s (s.failWrite bw msg) e :=
  .handle he hheld rfl hrank rfl rfl rfl

theorem attends_of_step (h : step routing s e = some s') : Attends s s' e := by
  cases e with
  | call tagId mode value =>
      obtain rfl := Option.some.inj h
      exact attends_submit tagId mode value
  | collect n =>
      simp only [step] at h
      split at h
      · split at h
        · obtain rfl := Option.some.inj h
          exact .others rfl (by simp) rfl rfl rfl (callsKept_finishCall n true)
        · obtain rfl := Option.some.inj h
          exact .others rfl (by simp) rfl rfl rfl (callsKept_finishCall n false)
        · exact absurd h (by simp)
      · exact absurd h (by simp)
  | giveUp n =>
      simp only [step] at h
      split at h
      · split at h
        · obtain rfl := Option.some.inj h
          exact .others rfl (by simp) rfl rfl rfl (callsKept_finishCall n false)
        · exact absurd h (by simp)
      · exact absurd h (by simp)
  | receive =>
      simp only [step] at h
      split at h
      · rename_i bw rest hidle hbridge
        obtain rfl := Option.some.inj h
        exact attends_dispatch hidle hbridge
      · exact absurd h (by simp)
  | enqueue =>
      simp only [step] at h
      split at h
      · rename_i bw i k hthread
        split at h
        · split at h
          · obtain rfl := Option.some.inj h
            have hheld : s.thread.held = [bw] := by rw [hthread]; rfl
            refine .handle rfl hheld rfl ?_ rfl rfl rfl
            rw [hthread]
            exact Nat.lt_succ_self _
          · exact absurd h (by simp)
        · exact absurd h (by simp)
      · exact absurd h (by simp)
  | enqueueTimeout | enqueueClosed =>
      simp only [step] at h
      split at h
      · rename_i bw i k hthread
        obtain rfl := Option.some.inj h
        exact attends_failWrite _ rfl (by rw [hthread]; rfl) (by simp [hthread, Thread.rank])
      · exact absurd h (by simp)
  | confirm =>
      simp only [step] at h
      split at h
      · rename_i bw k hthread
        have hheld : s.thread.held = [bw] := by rw [hthread]; rfl
        have hrank : 1 < s.thread.rank := by simp [hthread, Thread.rank]
        split at h
        · obtain rfl := Option.some.inj h
          exact .handle rfl hheld rfl hrank rfl rfl rfl
        · obtain rfl := Option.some.inj h
          exact attends_failWrite _ rfl hheld hrank
        · exact absurd h (by simp)
      · exact absurd h (by simp)
  | confirmTimeout | confirmClosed =>
      simp only [step] at h
      split at h
      · rename_i bw k hthread
        obtain rfl := Option.some.inj h
        exact attends_failWrite _ rfl (by rw [hthread]; rfl) (by simp [hthread, Thread.rank])
      · exact absurd h (by simp)
  | answer =>
      simp only [step] at h
      split at h
      · rename_i bw result hthread
        obtain rfl := Option.some.inj h
        exact .answer hthread rfl rfl rfl rfl
      · exact absurd h (by simp)
  | stop =>
      simp only [step] at h
      split at h
      · rename_i hthread
        obtain rfl := Option.some.inj h
        exact .stop hthread rfl rfl
      · exact absurd h (by simp)
  | turn i t =>
      simp only [step] at h
      split at h
      · split at h
        · obtain rfl := Option.some.inj h
          exact .others rfl (by simp) rfl rfl rfl (.of_eq rfl)
        · exact absurd h (by simp)
      · exact absurd h (by simp)
  | update op =>
      obtain rfl := Option.some.inj h
      exact .others rfl (by simp) rfl rfl rfl (.of_eq rfl)

-- ============================================================================
-- What the channel received
-- ============================================================================

/-- The calls received are those that were served and those that are pending, in
    this order.  Who is served has a reply, if the call waits for one. -/
structure Accounted (s : Sys) : Prop where
  ledger : ∃ served, s.received = served ++ s.pending.map BridgeWrite.call ∧
    ∀ n ∈ served, ∀ c, s.calls[n]? = some c → c.mode = .confirmedAck → c.mailbox.isSome
  replies : ∀ bw ∈ s.pending, ∀ c, s.calls[bw.call]? = some c → c.mode = .confirmedAck →
    bw.reply = some bw.call
  known : ∀ n ∈ s.received, n < s.calls.length

theorem accounted_init (registry : TagRegistry) (drivers : List Driver) :
    Accounted (.init registry drivers) where
  ledger := ⟨[], rfl, by simp⟩
  replies := fun bw hbw => absurd hbw (by simp [Sys.init, Sys.pending, Thread.held])
  known := fun n hn => absurd hn (by simp [Sys.init])

/-- Same writes, and the calls have lost nothing. -/
theorem Accounted.of_pending (h : Accounted s) (hpending : s'.pending = s.pending)
    (hreceived : s'.received = s.received) (hcalls : CallsKept s s') : Accounted s' where
  ledger := by
    obtain ⟨served, hserved, hreply⟩ := h.ledger
    refine ⟨served, by rw [hreceived, hpending, hserved], ?_⟩
    intro n hn c' hc' hmode
    have hlt : n < s.calls.length := h.known n (by rw [hserved]; exact List.mem_append_left _ hn)
    rcases hcalls.kept n c' hc' with ⟨hge, -⟩ | ⟨c, hc, hsame, hmail, -⟩
    · exact absurd hlt (Nat.not_lt.mpr hge)
    · exact hmail (hreply n hn c hc (hsame ▸ hmode))
  replies := by
    intro bw hbw c' hc' hmode
    rw [hpending] at hbw
    have hlt : bw.call < s.calls.length := by
      obtain ⟨served, hserved, -⟩ := h.ledger
      exact h.known _ (by rw [hserved]; exact List.mem_append_right _ (List.mem_map_of_mem hbw))
    rcases hcalls.kept bw.call c' hc' with ⟨hge, -⟩ | ⟨c, hc, hsame, -⟩
    · exact absurd hlt (Nat.not_lt.mpr hge)
    · exact h.replies bw hbw c hc (hsame ▸ hmode)
  known := by
    intro n hn
    rw [hreceived] at hn
    exact Nat.lt_of_lt_of_le (h.known n hn) hcalls.length

/-- A new write goes to the end. -/
theorem Accounted.submit (h : Accounted s) {c : ClientCall} {bw : BridgeWrite}
    (hpending : s'.pending = s.pending ++ [bw]) (hcall : bw.call = s.calls.length)
    (hreply : c.mode = .confirmedAck → bw.reply = some bw.call) (hcalls : s'.calls = s.calls ++ [c])
    (hreceived : s'.received = s.received ++ [bw.call]) : Accounted s' := by
  obtain ⟨served, hserved, hmail⟩ := h.ledger
  have hold : ∀ {n c'}, n < s.calls.length → s'.calls[n]? = some c' → s.calls[n]? = some c' := by
    intro n c' hlt hc'
    rw [hcalls, List.getElem?_append_left hlt] at hc'
    exact hc'
  refine ⟨⟨served, ?_, ?_⟩, ?_, ?_⟩
  · rw [hreceived, hserved, hpending, List.map_append, List.append_assoc]
    rfl
  · intro n hn c' hc'
    have hlt := h.known n (by rw [hserved]; exact List.mem_append_left _ hn)
    exact hmail n hn c' (hold hlt hc')
  · intro bw' hbw' c' hc' hmode
    rw [hpending, List.mem_append, List.mem_singleton] at hbw'
    rcases hbw' with hbw' | rfl
    · have hlt := h.known bw'.call
        (by rw [hserved]; exact List.mem_append_right _ (List.mem_map_of_mem hbw'))
      exact h.replies bw' hbw' c' (hold hlt hc') hmode
    · rw [hcalls, hcall, List.getElem?_concat_length] at hc'
      obtain rfl := Option.some.inj hc'
      exact hreply hmode
  · intro n hn
    rw [hreceived, List.mem_append, List.mem_singleton] at hn
    rw [hcalls, List.length_append]
    rcases hn with hn | rfl
    · exact Nat.lt_add_right _ (h.known n hn)
    · rw [hcall]
      exact Nat.lt_succ_self _

/-- The first one is answered. -/
theorem Accounted.answer (h : Accounted s) {bw : BridgeWrite} {result : Except ServerError Unit}
    (hpending : s.pending = bw :: s'.pending) (hreceived : s'.received = s.received)
    (hcalls : s'.calls = s.deliverResult bw result) : Accounted s' := by
  obtain ⟨served, hserved, hmail⟩ := h.ledger
  have hkept : CallsKept s s' := callsKept_deliverResult bw result hcalls
  have hfirst : ∀ {n c'}, n < s.calls.length → s'.calls[n]? = some c' → ∃ c, s.calls[n]? = some c ∧
      c'.mode = c.mode ∧ (c.mailbox.isSome → c'.mailbox.isSome) := by
    intro n c' hlt hc'
    rcases hkept.kept n c' hc' with ⟨hge, -⟩ | ⟨c, hc, hmode, hbox, -⟩
    · exact absurd hlt (Nat.not_lt.mpr hge)
    · exact ⟨c, hc, hmode, hbox⟩
  have hbw : bw ∈ s.pending := by
    rw [hpending]
    exact List.mem_cons_self
  refine ⟨⟨served ++ [bw.call], ?_, ?_⟩, ?_, ?_⟩
  · rw [hreceived, hserved, hpending, List.map_cons, List.append_assoc]
    rfl
  · intro n hn c' hc' hmode
    have hlt : n < s.calls.length := by
      refine h.known n ?_
      rw [hserved, hpending, List.map_cons]
      rcases List.mem_append.mp hn with hn | hn
      · exact List.mem_append_left _ hn
      · rw [List.mem_singleton.mp hn]
        exact List.mem_append_right _ List.mem_cons_self
    obtain ⟨c, hc, hsame, hbox⟩ := hfirst hlt hc'
    rcases List.mem_append.mp hn with hn | hn
    · exact hbox (hmail n hn c hc (hsame ▸ hmode))
    · obtain rfl := List.mem_singleton.mp hn
      have hreply := h.replies bw hbw c hc (hsame ▸ hmode)
      simp only [hcalls, Sys.deliverResult, hreply, List.getElem?_modify] at hc'
      obtain ⟨c₁, -, rfl⟩ := Option.map_eq_some_iff.mp hc'
      rw [if_pos trivial]
      rfl
  · intro bw' hbw' c' hc' hmode
    have hmem : bw' ∈ s.pending := by
      rw [hpending]
      exact List.mem_cons_of_mem _ hbw'
    have hlt := h.known bw'.call
      (by rw [hserved]; exact List.mem_append_right _ (List.mem_map_of_mem hmem))
    obtain ⟨c, hc, hsame, -⟩ := hfirst hlt hc'
    exact h.replies bw' hmem c hc (hsame ▸ hmode)
  · intro n hn
    rw [hreceived] at hn
    exact Nat.lt_of_lt_of_le (h.known n hn) hkept.length

theorem Accounted.of_attends (h : Accounted s) (hstep : Attends s s' e) (he : e ≠ .stop) : Accounted s' := by
  cases hstep with
  | others _ _ hthread hbridge hreceived hcalls =>
      exact h.of_pending (by rw [Sys.pending, Sys.pending, hthread, hbridge]) hreceived hcalls
  | @submit tagId mode value v _ hthread hcalls hreceived hbridge =>
      have hpending : s'.pending = s.pending ++ [⟨s.calls.length, tagId, v,
          if mode = .confirmedAck then some s.calls.length else none⟩] := by
        rw [Sys.pending, Sys.pending, hthread, hbridge, List.append_assoc]
      exact h.submit hpending rfl (fun hmode => if_pos hmode) hcalls hreceived
  | receive hidle hbridge hheld _ hrest hreceived hcalls =>
      refine h.of_pending ?_ hreceived (.of_eq hcalls)
      rw [Sys.pending, Sys.pending, hheld, hrest, hidle, hbridge]
      rfl
  | handle _ hheld hheld' _ hbridge hreceived hcalls =>
      refine h.of_pending ?_ hreceived (.of_eq hcalls)
      rw [Sys.pending, Sys.pending, hheld, hheld', hbridge]
  | answer hthread hidle hbridge hreceived hcalls =>
      refine h.answer ?_ hreceived hcalls
      rw [Sys.pending, Sys.pending, hthread, hidle, hbridge]
      rfl
  | stop _ _ _ => exact absurd rfl he

-- ============================================================================
-- Getting there
-- ============================================================================

/-- Every event but the thread's end. -/
def Event.goesOn : Event → Bool
  | .stop => false
  | _ => true

theorem ne_stop_of_goesOn (h : e.goesOn = true) : e ≠ .stop := by
  rintro rfl
  exact absurd h (by decide)

theorem Accounted.length (h : Accounted s) : s.received.length = s.servedCount + s.pending.length := by
  obtain ⟨served, hserved, -⟩ := h.ledger
  have hlength := congrArg List.length hserved
  rw [List.length_append, List.length_map] at hlength
  rw [Sys.servedCount]
  omega

/-- Call `n`, received as number `m`, is among those served. -/
theorem Accounted.mailbox (h : Accounted s) {m n : Nat} (hm : s.received[m]? = some n)
    (hserved : m < s.servedCount) {c : ClientCall} (hc : s.calls[n]? = some c)
    (hmode : c.mode = .confirmedAck) : c.mailbox.isSome := by
  have hlength := h.length
  obtain ⟨served, heq, hmail⟩ := h.ledger
  have hlt : m < served.length := by
    have hlength' := congrArg List.length heq
    rw [List.length_append, List.length_map] at hlength'
    omega
  rw [heq, List.getElem?_append_left hlt] at hm
  exact hmail n (List.mem_of_getElem? hm) c hc hmode

/-- The steps to the end of write `m`: those left for what the thread holds, and
    four for every other before it. -/
def Sys.distance (m : Nat) (s : Sys) : Nat := s.thread.rank + 4 * (m - s.servedCount)

/-- The number of writes served, and of the steps ahead. -/
theorem counts_of_attends (h : Accounted s) (hstep : Attends s s' e) (he : e ≠ .stop) :
    (s'.servedCount = s.servedCount ∧ s'.thread.rank ≤ s.thread.rank ∧
      (e.ofThread = true → s'.thread.rank < s.thread.rank)) ∨
    (s'.servedCount = s.servedCount + 1 ∧ s.thread.rank = 1 ∧ s'.thread.rank = 4) := by
  have hlength := h.length
  cases hstep with
  | others hother _ hthread hbridge hreceived _ =>
      refine .inl ⟨?_, by rw [hthread], ?_⟩
      · rw [Sys.servedCount, Sys.servedCount, Sys.pending, Sys.pending, hthread, hbridge, hreceived]
      · intro hmine
        exact absurd (hother.symm.trans hmine) (by decide)
  | submit _ hthread _ hreceived hbridge =>
      refine .inl ⟨?_, by rw [hthread], fun hmine => absurd hmine (by simp [Event.ofThread])⟩
      rw [Sys.servedCount, Sys.servedCount, Sys.pending, Sys.pending, hthread, hbridge, hreceived]
      simp only [List.length_append, List.length_singleton]
      omega
  | receive hidle hbridge hheld hrank hrest hreceived _ =>
      refine .inl ⟨?_, ?_, ?_⟩
      · rw [Sys.servedCount, Sys.servedCount, Sys.pending, Sys.pending, hheld, hrest, hidle, hbridge,
          hreceived]
        rfl
      · rw [hidle]
        exact Nat.le_of_lt hrank
      · intro _
        rw [hidle]
        exact hrank
  | handle _ hheld hheld' hrank hbridge hreceived _ =>
      refine .inl ⟨?_, Nat.le_of_lt hrank, fun _ => hrank⟩
      rw [Sys.servedCount, Sys.servedCount, Sys.pending, Sys.pending, hheld, hheld', hbridge, hreceived]
  | answer hthread hidle hbridge hreceived _ =>
      refine .inr ⟨?_, by rw [hthread]; rfl, by rw [hidle]; rfl⟩
      have hless : s'.pending.length + 1 = s.pending.length := by
        simp only [Sys.pending, hthread, hidle, hbridge, Thread.held, List.nil_append, List.cons_append,
          List.length_cons]
      rw [Sys.servedCount, Sys.servedCount, hreceived]
      omega
  | stop _ _ _ => exact absurd rfl he

theorem received_of_attends (hstep : Attends s s' e) (he : e ≠ .stop) {m n : Nat}
    (hm : s.received[m]? = some n) : s'.received[m]? = some n := by
  cases hstep with
  | others _ _ _ _ hreceived _ => rw [hreceived]; exact hm
  | submit _ _ _ hreceived _ =>
      rw [hreceived, List.getElem?_append_left (List.getElem?_eq_some_iff.mp hm).1]
      exact hm
  | receive _ _ _ _ _ hreceived _ => rw [hreceived]; exact hm
  | handle _ _ _ _ _ hreceived _ => rw [hreceived]; exact hm
  | answer _ _ _ hreceived _ => rw [hreceived]; exact hm
  | stop _ _ _ => exact absurd rfl he

/-- Only its end stops the thread. -/
theorem thread_of_attends (hstep : Attends s s' e) (he : e ≠ .stop) (hstopped : s'.thread = .stopped) :
    s.thread = .stopped := by
  cases hstep with
  | others _ _ hthread _ _ _ => exact hthread.symm.trans hstopped
  | submit _ hthread _ _ _ => exact hthread.symm.trans hstopped
  | receive _ _ hheld _ _ _ _ =>
      rw [hstopped] at hheld
      exact absurd hheld (by simp [Thread.held])
  | handle _ _ hheld _ _ _ _ =>
      rw [hstopped] at hheld
      exact absurd hheld (by simp [Thread.held])
  | answer _ hidle _ _ _ => exact absurd (hidle.symm.trans hstopped) (by simp)
  | stop _ _ _ => exact absurd rfl he

/-- A thread that has ended stays so. -/
theorem stopped_of_attends (hstep : Attends s s' e) (hstopped : s.thread = .stopped) :
    s'.thread = .stopped := by
  cases hstep with
  | others _ _ hthread _ _ _ => exact hthread.trans hstopped
  | submit hthread _ _ _ _ => exact absurd hstopped hthread
  | receive hidle _ _ _ _ _ _ => exact absurd (hidle.symm.trans hstopped) (by simp)
  | handle _ hheld _ _ _ _ _ =>
      rw [hstopped] at hheld
      exact absurd hheld (by simp [Thread.held])
  | answer hthread _ _ _ _ => exact absurd (hthread.symm.trans hstopped) (by simp)
  | stop _ hthread _ => exact hthread

/-- An idle thread only receives. -/
theorem idle_of_attends (hstep : Attends s s' e) (hidle : s.thread = .idle) (hreceive : e ≠ .receive)
    (he : e ≠ .stop) : s'.thread = .idle := by
  cases hstep with
  | others _ _ hthread _ _ _ => exact hthread.trans hidle
  | submit _ hthread _ _ _ => exact hthread.trans hidle
  | receive _ _ _ _ _ _ _ => exact absurd rfl hreceive
  | handle _ hheld _ _ _ _ _ =>
      rw [hidle] at hheld
      exact absurd hheld (by simp [Thread.held])
  | answer _ hidle _ _ _ => exact hidle
  | stop _ _ _ => exact absurd rfl he

/-- Without new calls, none that has returned waits again. -/
theorem returned_of_attends (hstep : Attends s s' e) (hcall : ∀ tagId mode value, e ≠ .call tagId mode value)
    (h : ∀ c ∈ s.calls, c.result.isSome) : ∀ c ∈ s'.calls, c.result.isSome := by
  have hkept : CallsKept s s' := by
    cases hstep with
    | others _ _ _ _ _ hkept => exact hkept
    | submit _ _ _ _ _ => exact absurd rfl (hcall _ _ _)
    | receive _ _ _ _ _ _ hcalls => exact .of_eq hcalls
    | handle _ _ _ _ _ _ hcalls => exact .of_eq hcalls
    | answer _ _ _ _ hcalls => exact callsKept_deliverResult _ _ hcalls
    | stop _ _ hcalls => exact .of_eq hcalls
  intro c' hc'
  obtain ⟨n, hn⟩ := List.mem_iff_getElem?.mp hc'
  rcases hkept.kept n c' hn with ⟨-, hnew⟩ | ⟨c, hc, -, -, hreturned⟩
  · exact hnew
  · exact hreturned (h c (List.mem_of_getElem? hc))

/-- While a write is pending the thread can move. -/
theorem exists_thread_step (routing : String → Option Nat) (hthread : s.thread ≠ .stopped)
    (hpending : s.pending ≠ []) :
    ∃ e : Event, e.ofThread = true ∧ e.goesOn = true ∧ (step routing s e).isSome := by
  cases ht : s.thread with
  | idle =>
      cases hb : s.bridge with
      | nil => exact absurd (by rw [Sys.pending, ht, hb]; rfl) hpending
      | cons bw rest => exact ⟨.receive, rfl, rfl, by simp only [step, ht, hb, Option.isSome_some]⟩
  | sending bw i k => exact ⟨.enqueueTimeout, rfl, rfl, by simp only [step, ht, Option.isSome_some]⟩
  | confirming bw k => exact ⟨.confirmTimeout, rfl, rfl, by simp only [step, ht, Option.isSome_some]⟩
  | finished bw result => exact ⟨.answer, rfl, rfl, by simp only [step, ht, Option.isSome_some]⟩
  | stopped => exact absurd ht hthread

/-- The thread approaches the end of write `m`. -/
theorem ranked_served (routing : String → Option Nat) (m n : Nat) :
    Ranked (step routing) (fun _ e => e.goesOn = true) Event.ofThread
      (fun s => Accounted s ∧ s.thread ≠ .stopped ∧ s.received[m]? = some n)
      (fun s => m < s.servedCount) (Sys.distance m) where
  keeps := by
    intro s e s' hs hok hstep
    obtain ⟨haccounted, hthread, hm⟩ := hs
    have hattends := attends_of_step hstep
    have he := ne_stop_of_goesOn hok
    exact ⟨haccounted.of_attends hattends he, fun h => hthread (thread_of_attends hattends he h),
      received_of_attends hattends he hm⟩
  stable := by
    intro s e s' hs hgoal hok hstep
    rcases counts_of_attends hs.1 (attends_of_step hstep) (ne_stop_of_goesOn hok) with
      ⟨hcount, -⟩ | ⟨hcount, -⟩ <;> omega
  others := by
    intro s e s' hs hgoal hok hstep
    rw [Sys.distance, Sys.distance]
    rcases counts_of_attends hs.1 (attends_of_step hstep) (ne_stop_of_goesOn hok) with
      ⟨hcount, hrank, -⟩ | ⟨hcount, hrank, hrank'⟩ <;> omega
  helps := by
    intro s e s' hs hgoal hfair hok hstep
    rw [Sys.distance, Sys.distance]
    rcases counts_of_attends hs.1 (attends_of_step hstep) (ne_stop_of_goesOn hok) with
      ⟨hcount, -, hrank⟩ | ⟨hcount, hrank, hrank'⟩
    · have hless := hrank hfair
      omega
    · omega
  enabled := by
    intro s hs hgoal
    have hlength := hs.1.length
    have hlt := (List.getElem?_eq_some_iff.mp hs.2.2).1
    refine exists_thread_step routing hs.2.1 ?_
    intro hnil
    rw [hnil, List.length_nil] at hlength
    omega
  positive := by
    intro s hs hgoal
    have hrank : 0 < s.thread.rank := by
      cases ht : s.thread with
      | stopped => exact absurd ht hs.2.1
      | _ => exact Nat.succ_pos _
    rw [Sys.distance]
    omega

/-- From any state of the running system: the write received as number `m` is
    dealt with within four steps of the bridge thread for each write before it
    and those for itself, whatever clients and drivers do in between, and a call
    that waits for it then has its reply.  Until then the thread can always
    move. -/
theorem write_served_within {registry : TagRegistry} {drivers : List Driver}
    (hreach : Reaches (step routing) (fun _ e => e.goesOn = true) (.init registry drivers) s) {m n : Nat}
    (hm : s.received[m]? = some n) {es : List Event}
    (hrun : runEvents (step routing) (fun _ e => e.goesOn = true) es s = some s') :
    (s.thread.rank + 4 * (m - s.servedCount) ≤ es.countP Event.ofThread →
      m < s'.servedCount ∧ ∀ c, s'.calls[n]? = some c → c.mode = .confirmedAck → c.mailbox.isSome) ∧
    (s'.servedCount ≤ m → ∃ e : Event, e.ofThread = true ∧ (step routing s' e).isSome) := by
  have hs : Accounted s ∧ s.thread ≠ .stopped := by
    refine hreach.invariant (I := fun s => Accounted s ∧ s.thread ≠ .stopped)
      ⟨accounted_init registry drivers, by simp [Sys.init]⟩ ?_
    intro s₁ e s₂ h₁ hok hstep
    have hattends := attends_of_step hstep
    have he := ne_stop_of_goesOn hok
    exact ⟨h₁.1.of_attends hattends he, fun h => h₁.2 (thread_of_attends hattends he h)⟩
  have hranked := ranked_served routing m n
  obtain ⟨hs', -⟩ := hranked.along ⟨hs.1, hs.2, hm⟩ hrun
  obtain ⟨hreached, henabled⟩ := hranked.reached ⟨hs.1, hs.2, hm⟩ hrun
  refine ⟨?_, ?_⟩
  · intro hmany
    have hserved := hreached hmany
    exact ⟨hserved, fun c hc hmode => hs'.1.mailbox hs'.2.2 hserved hc hmode⟩
  · intro hwaiting
    obtain ⟨e, hfair, -, hsome⟩ := henabled (Nat.not_lt.mpr hwaiting)
    exact ⟨e, hfair, hsome⟩

/-- Two writes, the second with a call that waits. -/
def tankCalls : List Event :=
  [.call "tank" .queuedAck (some (.uint16 5)), .call "tank" .confirmedAck (some (.uint16 6))]

/-- The driver never answers. -/
def tankTimeouts : List Event :=
  [.receive, .enqueue, .confirmTimeout, .answer, .receive, .enqueue, .confirmTimeout, .answer]

def tankAfter (es : List Event) : Sys :=
  (runEvents (step tankRoute) (fun _ e => e.goesOn = true) es (.init tankRegistry [tankDriver])).getD
    (.init tankRegistry [])

theorem write_served_within_tank :
    (tankAfter tankCalls).servedCount = 0 ∧ 1 < (tankAfter (tankCalls ++ tankTimeouts)).servedCount ∧
    ∀ c, (tankAfter (tankCalls ++ tankTimeouts)).calls[1]? = some c → c.mode = .confirmedAck →
      c.mailbox.isSome := by
  have hreach : Reaches (step tankRoute) (fun _ e => e.goesOn = true) (.init tankRegistry [tankDriver])
      (tankAfter tankCalls) := Reaches.refl.runEvents tankCalls rfl
  have hrun : runEvents (step tankRoute) (fun _ e => e.goesOn = true) tankTimeouts (tankAfter tankCalls) =
      some (tankAfter (tankCalls ++ tankTimeouts)) := rfl
  exact ⟨rfl, (write_served_within hreach rfl hrun).1 (by decide +kernel)⟩

end PlcBridge.Bridge
