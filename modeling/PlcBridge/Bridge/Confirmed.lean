/-
  PlcBridge.Bridge.Confirmed

  Confirmed writes are confirmed by the device, and no call is carried out
  twice.

  The invariant follows a write on its way.  Oneshot channels are made in the
  order writes leave the bridge channel; the requests a driver holds carry
  increasing channel numbers, each below what has been issued; a positive reply
  on a channel means that the device acknowledged the request that carries it.
  So whatever wait expires, a reply can only be that of the call itself.
-/
import PlcBridge.Bridge.Growth
import PlcBridge.Runtime.WritableTags

namespace PlcBridge.Bridge

open PlcBridge.Lib PlcBridge.Runtime

/-- The number of a request's reply channel. -/
def token (req : WriteRequest) : Nat := req.reply.getD 0

namespace Sys

/-- The write speaks for its call. -/
def SpeaksFor (s : Sys) (bw : BridgeWrite) : Prop :=
  s.Asks bw.call bw.tagId bw.value ∧ ∀ n, bw.reply = some n → n = bw.call

/-- Channels whose request may be with a driver. -/
def issued (s : Sys) : Nat :=
  match s.thread with
  | .sending _ _ k => k
  | _ => s.owners.length

/-- Request of driver `i`: made for a call that asked for it, and permitted. -/
def Origin (s : Sys) (routing : String → Option Nat) (i : Nat) (req : WriteRequest) : Prop :=
  ∃ k n, req.reply = some k ∧ s.owners[k]? = some n ∧ s.Asks n req.tagId req.value ∧
    routing req.tagId = some i ∧ Permitted s.registry req.tagId req.value

/-- A device acknowledged the request made for call `n`. -/
def Confirmed (s : Sys) (n : Nat) : Prop :=
  ∃ (i : Nat) (d : Driver) (req : WriteRequest) (k : Nat), s.drivers[i]? = some d ∧ d.Delivered req ∧
    req.reply = some k ∧ s.owners[k]? = some n

end Sys

-- ============================================================================
-- The invariant
-- ============================================================================

/-- Writes leave the bridge channel in the order they came. -/
structure Arrivals (s : Sys) : Prop where
  arrived : (s.owners ++ s.bridge.map BridgeWrite.call).Sublist s.received
  increasing : s.received.Pairwise (· < ·)
  known : ∀ n ∈ s.received, n < s.calls.length
  asked : ∀ bw ∈ s.bridge, s.SpeaksFor bw

/-- What the thread holds belongs to its write. -/
def ThreadSound (routing : String → Option Nat) (s : Sys) : Prop :=
  match s.thread with
  | .idle => True
  | .sending bw i k => s.SpeaksFor bw ∧ k + 1 = s.owners.length ∧ s.owners[k]? = some bw.call ∧
      routing bw.tagId = some i ∧ Permitted s.registry bw.tagId bw.value
  | .confirming bw k => s.SpeaksFor bw ∧ s.owners[k]? = some bw.call
  | .finished bw result => s.SpeaksFor bw ∧ (result = .ok () → s.Confirmed bw.call)
  | .stopped => True

/-- A driver's requests are in order and have their origin, its positive
    replies are for delivered requests. -/
structure DriverSound (routing : String → Option Nat) (s : Sys) (i : Nat) (d : Driver) : Prop where
  ordered : d.pipeline.Pairwise fun a b => token a < token b
  origin : ∀ req ∈ d.pipeline, s.Origin routing i req
  issued : ∀ req ∈ d.pipeline, token req < s.issued
  replies : ∀ k, (k, .ok ()) ∈ d.replies → ∃ req, req.reply = some k ∧ d.Delivered req

structure Sound (routing : String → Option Nat) (s : Sys) : Prop where
  consistent : s.registry.Consistent
  arrivals : Arrivals s
  thread : ThreadSound routing s
  drivers : ∀ {i : Nat} {d : Driver}, s.drivers[i]? = some d → DriverSound routing s i d
  mailbox : ∀ {n : Nat} {c : ClientCall}, s.calls[n]? = some c → c.mailbox = some (.ok ()) → s.Confirmed n
  result : ∀ {n : Nat} {c : ClientCall}, s.calls[n]? = some c → c.mode = .confirmedAck →
    c.result = some true → s.Confirmed n

variable {ok : Nat → Turn → Prop} {routing : String → Option Nat} {s s' : Sys}

-- ----------------------------------------------------------------------------
-- What stays true
-- ----------------------------------------------------------------------------

theorem Grows.speaksFor (h : Grows s s') {bw : BridgeWrite} (hbw : s.SpeaksFor bw) : s'.SpeaksFor bw :=
  ⟨h.asks hbw.1, hbw.2⟩

theorem Grows.origin (h : Grows s s') {i : Nat} {req : WriteRequest} (hreq : s.Origin routing i req) :
    s'.Origin routing i req := by
  obtain ⟨k, n, hreply, howner, hasks, hroute, hpermitted⟩ := hreq
  exact ⟨k, n, hreply, h.owner howner, h.asks hasks, hroute, h.permitted hpermitted⟩

theorem Grows.confirmed (h : Grows s s') {n : Nat} (hn : s.Confirmed n) : s'.Confirmed n := by
  obtain ⟨i, d, req, k, hd, hdelivered, hreply, howner⟩ := hn
  obtain ⟨d', hd', hlater⟩ := h.drivers hd
  exact ⟨i, d', req, k, hd', hlater req hdelivered, hreply, h.owner howner⟩

theorem ThreadSound.grows (h : ThreadSound routing s) (hgrows : Grows s s')
    (hthread : s'.thread = s.thread) (howners : s'.owners = s.owners) : ThreadSound routing s' := by
  unfold ThreadSound at h ⊢
  rw [hthread]
  split at h
  · trivial
  · obtain ⟨hspeaks, hk, howner, hroute, hpermitted⟩ := h
    exact ⟨hgrows.speaksFor hspeaks, by rw [howners, hk], hgrows.owner howner, hroute,
      hgrows.permitted hpermitted⟩
  · exact ⟨hgrows.speaksFor h.1, hgrows.owner h.2⟩
  · exact ⟨hgrows.speaksFor h.1, fun hok => hgrows.confirmed (h.2 hok)⟩
  · trivial

theorem DriverSound.grows {i : Nat} {d : Driver} (h : DriverSound routing s i d) (hgrows : Grows s s')
    (hissued : s.issued ≤ s'.issued) : DriverSound routing s' i d where
  ordered := h.ordered
  origin := fun req hreq => hgrows.origin (h.origin req hreq)
  issued := fun req hreq => (h.issued req hreq).trans_le hissued
  replies := h.replies

/-- A turn drops requests or moves them on. -/
theorem DriverSound.advances {i : Nat} {d d' : Driver} (h : DriverSound routing s i d)
    (hadv : Driver.Advances s.registry d d') : DriverSound routing s i d' where
  ordered := h.ordered.sublist hadv.pipeline
  origin := fun req hreq => h.origin req (hadv.pipeline.subset hreq)
  issued := fun req hreq => h.issued req (hadv.pipeline.subset hreq)
  replies := by
    intro k hk
    obtain ⟨new, hreplies, hnew⟩ := hadv.replies
    rw [hreplies, List.mem_append] at hk
    rcases hk with hold | hk
    · obtain ⟨req, hreq, hdelivered⟩ := h.replies k hold
      exact ⟨req, hreq, hadv.delivered req hdelivered⟩
    · exact hnew k hk

-- ============================================================================
-- Steps
-- ============================================================================

/-- Nothing arrives, and what waits may be dropped. -/
theorem Arrivals.quiet (h : Arrivals s) (hgrows : Grows s s') (howners : s'.owners = s.owners)
    (hreceived : s'.received = s.received) (hbridge : s'.bridge.Sublist s.bridge)
    (hcalls : s.calls.length ≤ s'.calls.length) : Arrivals s' where
  arrived := by
    rw [howners, hreceived]
    exact ((List.Sublist.refl _).append (hbridge.map _)).trans h.arrived
  increasing := by
    rw [hreceived]
    exact h.increasing
  known := by
    intro n hn
    rw [hreceived] at hn
    exact (h.known n hn).trans_le hcalls
  asked := fun bw hbw => hgrows.speaksFor (h.asked bw (hbridge.subset hbw))

/-- A new call is the last to arrive. -/
theorem Arrivals.submit (h : Arrivals s) (hgrows : Grows s s') {tagId : String} {mode : Opcua.WriteMode}
    {v : TagValue} {result : Option Bool} {reply : Option Nat}
    (hcalls : s'.calls = s.calls ++ [⟨tagId, mode, some v, none, result⟩])
    (howners : s'.owners = s.owners) (hreceived : s'.received = s.received ++ [s.calls.length])
    (hbridge : s'.bridge = s.bridge ++ [⟨s.calls.length, tagId, v, reply⟩])
    (hreply : ∀ n, reply = some n → n = s.calls.length) : Arrivals s' where
  arrived := by
    rw [howners, hreceived, hbridge, List.map_append, ← List.append_assoc]
    exact h.arrived.append (List.Sublist.refl _)
  increasing := by
    rw [hreceived, List.pairwise_append]
    refine ⟨h.increasing, List.pairwise_singleton _ _, ?_⟩
    intro n hn m hm
    rw [List.mem_singleton.mp hm]
    exact h.known n hn
  known := by
    intro n hn
    rw [hcalls, List.length_append]
    rw [hreceived, List.mem_append, List.mem_singleton] at hn
    rcases hn with hn | rfl
    · exact Nat.lt_add_right _ (h.known n hn)
    · exact Nat.lt_succ_self _
  asked := by
    intro bw hbw
    rw [hbridge, List.mem_append, List.mem_singleton] at hbw
    rcases hbw with hbw | rfl
    · exact hgrows.speaksFor (h.asked bw hbw)
    · exact ⟨⟨_, by rw [hcalls]; exact List.getElem?_concat_length, rfl, rfl⟩, hreply⟩

/-- The bridge channel is first in, first out. -/
theorem Arrivals.step (h : Arrivals s) (hmove : Moves ok routing s s') : Arrivals s' := by
  have hgrows := Grows.of_moves hmove
  have hsame := List.Sublist.refl s.bridge
  cases hmove with
  | refuse => exact h.quiet hgrows rfl rfl hsame (by simp)
  | submit =>
      refine h.submit hgrows rfl rfl rfl rfl ?_
      intro n hn
      split at hn
      · exact (Option.some.inj hn).symm
      · exact absurd hn (by simp)
  | succeed _ _ => exact h.quiet hgrows rfl rfl hsame (by simp [Sys.finishCall])
  | giveUp _ => exact h.quiet hgrows rfl rfl hsame (by simp [Sys.finishCall])
  | reject _ hbridge =>
      refine h.quiet hgrows rfl rfl ?_ le_rfl
      rw [hbridge]
      exact List.sublist_cons_self _ _
  | route _ hbridge _ _ =>
      have harrived := h.arrived
      rw [hbridge, List.map_cons] at harrived
      refine ⟨?_, h.increasing, h.known, ?_⟩
      · rw [List.append_assoc]
        exact harrived
      · intro bw hbw
        exact hgrows.speaksFor (h.asked bw (by rw [hbridge]; exact List.mem_cons_of_mem _ hbw))
  | answer _ =>
      refine h.quiet hgrows rfl rfl hsame ?_
      unfold Sys.deliverResult
      split <;> simp
  | stop _ => exact h.quiet hgrows rfl rfl (List.nil_sublist _) le_rfl
  | enqueue _ _ => exact h.quiet hgrows rfl rfl hsame le_rfl
  | failSend _ => exact h.quiet hgrows rfl rfl hsame le_rfl
  | failConfirm _ => exact h.quiet hgrows rfl rfl hsame le_rfl
  | confirm _ _ _ => exact h.quiet hgrows rfl rfl hsame le_rfl
  | turn _ _ _ _ => exact h.quiet hgrows rfl rfl hsame le_rfl
  | update _ => exact h.quiet hgrows rfl rfl hsame le_rfl

/-- The thread passes on what it has, and only a driver's reply makes a write
    succeed. -/
theorem Sound.thread_step (h : Sound routing s) (hmove : Moves ok routing s s') : ThreadSound routing s' := by
  have hgrows := Grows.of_moves hmove
  have hthread := h.thread
  cases hmove with
  | reject _ hbridge =>
      refine ⟨h.arrivals.asked _ (by rw [hbridge]; exact List.mem_cons_self ..), ?_⟩
      intro hok
      exact absurd hok (by simp)
  | route _ hbridge hvalid hroute =>
      refine ⟨h.arrivals.asked _ (by rw [hbridge]; exact List.mem_cons_self ..), ?_, ?_, hroute,
        (validateWrite_eq_ok h.consistent).mp hvalid⟩
      · simp
      · exact List.getElem?_concat_length
  | enqueue hsending _ =>
      rw [ThreadSound, hsending] at hthread
      exact ⟨hthread.1, hthread.2.2.1⟩
  | failSend hsending =>
      rw [ThreadSound, hsending] at hthread
      exact ⟨hthread.1, fun hok => absurd hok (by simp)⟩
  | failConfirm hconfirming =>
      rw [ThreadSound, hconfirming] at hthread
      exact ⟨hthread.1, fun hok => absurd hok (by simp)⟩
  | @confirm bw k d hconfirming hd hreply =>
      rw [ThreadSound, hconfirming] at hthread
      refine ⟨hthread.1, fun _ => ?_⟩
      obtain ⟨i, hi⟩ := List.mem_iff_getElem?.mp hd
      obtain ⟨req, hreq, hdelivered⟩ := (h.drivers hi).replies k hreply
      exact ⟨i, d, req, k, hi, hdelivered, hreq, hthread.2⟩
  | answer _ => trivial
  | stop _ => trivial
  | refuse => exact hthread.grows hgrows rfl rfl
  | submit => exact hthread.grows hgrows rfl rfl
  | succeed _ _ => exact hthread.grows hgrows rfl rfl
  | giveUp _ => exact hthread.grows hgrows rfl rfl
  | turn _ _ _ _ => exact hthread.grows hgrows rfl rfl
  | update _ => exact hthread.grows hgrows rfl rfl

theorem issued_of_idle (h : s.thread = .idle) : s.issued = s.owners.length := by
  rw [Sys.issued, h]

theorem Sound.issued_mono (h : Sound routing s) (hmove : Moves ok routing s s') : s.issued ≤ s'.issued := by
  have hthread := h.thread
  cases hmove with
  | reject hidle _ => rw [issued_of_idle hidle]; exact le_rfl
  | route hidle _ _ _ => rw [issued_of_idle hidle]; exact le_rfl
  | stop hidle => rw [issued_of_idle hidle]; exact le_rfl
  | enqueue hsending _ =>
      rw [ThreadSound, hsending] at hthread
      rw [Sys.issued, hsending]
      exact Nat.le_of_succ_le hthread.2.1.le
  | failSend hsending =>
      rw [ThreadSound, hsending] at hthread
      rw [Sys.issued, hsending]
      exact Nat.le_of_succ_le hthread.2.1.le
  | failConfirm hconfirming => rw [Sys.issued, hconfirming]; exact le_rfl
  | confirm hconfirming _ _ => rw [Sys.issued, hconfirming]; exact le_rfl
  | answer hfinished => rw [Sys.issued, hfinished]; exact le_rfl
  | _ => exact le_rfl

theorem pipeline_enqueue (d : Driver) (req : WriteRequest) :
    (d.enqueue req).pipeline = d.pipeline ++ [req] := by
  cases d <;> exact (List.append_assoc _ _ _).symm

/-- The thread's request goes behind all that were issued before. -/
theorem Sound.driver_enqueue (h : Sound routing s) {bw : BridgeWrite} {i k : Nat} {d : Driver}
    (hsending : s.thread = .sending bw i k) (hd : s.drivers[i]? = some d)
    (hgrows : Grows s s') (hissued : s'.issued = s.owners.length) :
    DriverSound routing s' i (d.enqueue ⟨bw.tagId, bw.value, some k⟩) := by
  have hsound := h.drivers hd
  have hthread := h.thread
  rw [ThreadSound, hsending] at hthread
  obtain ⟨hspeaks, hk, howner, hroute, hpermitted⟩ := hthread
  have hbelow : ∀ req ∈ d.pipeline, token req < k := by
    intro req hreq
    have := hsound.issued req hreq
    rwa [Sys.issued, hsending] at this
  refine ⟨?_, ?_, ?_, ?_⟩
  · rw [pipeline_enqueue, List.pairwise_append]
    refine ⟨hsound.ordered, List.pairwise_singleton _ _, ?_⟩
    intro req hreq new hnew
    rw [List.mem_singleton.mp hnew]
    exact hbelow req hreq
  · intro req hreq
    rw [pipeline_enqueue, List.mem_append, List.mem_singleton] at hreq
    rcases hreq with hreq | rfl
    · exact hgrows.origin (hsound.origin req hreq)
    · exact ⟨k, bw.call, rfl, hgrows.owner howner, hgrows.asks hspeaks.1, hroute,
        hgrows.permitted hpermitted⟩
  · intro req hreq
    rw [hissued, ← hk]
    rw [pipeline_enqueue, List.mem_append, List.mem_singleton] at hreq
    rcases hreq with hreq | rfl
    · exact (hbelow req hreq).trans (Nat.lt_succ_self k)
    · exact Nat.lt_succ_self k
  · intro k' hk'
    obtain ⟨req, hreq, hdelivered⟩ := hsound.replies k' (by cases d <;> exact hk')
    exact ⟨req, hreq, (Grows.delivered_enqueue d _ req).mpr hdelivered⟩

theorem Sound.drivers_step (h : Sound routing s) (hmove : Moves ok routing s s') {j : Nat} {d : Driver}
    (hj : s'.drivers[j]? = some d) : DriverSound routing s' j d := by
  have hgrows := Grows.of_moves hmove
  have hissued := h.issued_mono hmove
  -- Only two kinds of steps touch a driver.
  cases hmove with
  | enqueue hsending hd =>
      rcases getElem?_set_cases hd hj with ⟨rfl, rfl⟩ | hj
      · exact h.driver_enqueue hsending hd hgrows rfl
      · exact (h.drivers hj).grows hgrows hissued
  | turn t _ hd hturn =>
      rcases getElem?_set_cases hd hj with ⟨rfl, rfl⟩ | hj
      · exact ((h.drivers hd).advances (Driver.advances_turn hturn)).grows hgrows hissued
      · exact (h.drivers hj).grows hgrows hissued
  | _ => exact (h.drivers hj).grows hgrows hissued

/-- A call gets a positive reply, and returns success, only if its write was
    confirmed. -/
theorem Sound.calls_step (h : Sound routing s) (hmove : Moves ok routing s s') {n : Nat} {c : ClientCall}
    (hc : s'.calls[n]? = some c) :
    (c.mailbox = some (.ok ()) → s'.Confirmed n) ∧
    (c.mode = .confirmedAck → c.result = some true → s'.Confirmed n) := by
  have hgrows := Grows.of_moves hmove
  have hold : ∀ {c}, s.calls[n]? = some c → (c.mailbox = some (.ok ()) → s'.Confirmed n) ∧
      (c.mode = .confirmedAck → c.result = some true → s'.Confirmed n) := fun hc =>
    ⟨fun hmail => hgrows.confirmed (h.mailbox hc hmail),
      fun hmode hres => hgrows.confirmed (h.result hc hmode hres)⟩
  cases hmove with
  | refuse =>
      rcases getElem?_concat_cases hc with hc | ⟨-, rfl⟩
      · exact hold hc
      · simp
  | submit =>
      rcases getElem?_concat_cases hc with hc | ⟨-, rfl⟩
      · exact hold hc
      · refine ⟨by simp, ?_⟩
        intro hmode hres
        simp only at hmode hres
        rw [hmode] at hres
        exact absurd hres (by simp)
  | succeed hm hmail =>
      rcases getElem?_modify_cases hc with hc | ⟨c₁, hc₁, rfl, rfl⟩
      · exact hold hc
      · rw [hm] at hc₁
        obtain rfl := Option.some.inj hc₁
        exact ⟨fun _ => hgrows.confirmed (h.mailbox hm hmail),
          fun _ _ => hgrows.confirmed (h.mailbox hm hmail)⟩
  | giveUp _ =>
      rcases getElem?_modify_cases hc with hc | ⟨c₁, hc₁, -, rfl⟩
      · exact hold hc
      · refine ⟨(hold hc₁).1, ?_⟩
        intro _ hres
        exact absurd hres (by simp)
  | @answer bw result hfinished =>
      have hthread := h.thread
      rw [ThreadSound, hfinished] at hthread
      obtain ⟨hspeaks, hconfirmed⟩ := hthread
      simp only [Sys.deliverResult] at hc
      split at hc
      · exact hold hc
      · rename_i m hreply
        rcases getElem?_modify_cases hc with hc | ⟨c₁, hc₁, hmn, rfl⟩
        · exact hold hc
        · refine ⟨?_, (hold hc₁).2⟩
          intro hmail
          have hok : result = .ok () := by
            cases result with
            | ok u => rfl
            | error e => exact absurd hmail (by simp [Except.mapError])
          rw [← hmn, hspeaks.2 m hreply]
          exact hgrows.confirmed (hconfirmed hok)
  | _ => exact hold hc

theorem Sound.step (h : Sound routing s) (hmove : Moves ok routing s s') : Sound routing s' where
  consistent := by
    obtain ⟨ops, hops⟩ := (Grows.of_moves hmove).registry
    rw [hops]
    exact h.consistent.run ops
  arrivals := h.arrivals.step hmove
  thread := h.thread_step hmove
  drivers := h.drivers_step hmove
  mailbox := fun hc => (h.calls_step hmove hc).1
  result := fun hc => (h.calls_step hmove hc).2

-- ============================================================================
-- Whole runs
-- ============================================================================

/-- Nothing has gone through the driver. -/
def Driver.Fresh (d : Driver) : Prop := d.pipeline = [] ∧ d.replies = []

theorem sound_init {registry : TagRegistry} (hregistry : registry.Consistent) {drivers : List Driver}
    (hfresh : ∀ d ∈ drivers, d.Fresh) : Sound routing (.init registry drivers) where
  consistent := hregistry
  arrivals := ⟨List.Sublist.refl _, List.Pairwise.nil, by simp [Sys.init], by simp [Sys.init]⟩
  thread := trivial
  drivers := by
    intro i d hd
    obtain ⟨hpipeline, hreplies⟩ := hfresh d (List.mem_of_getElem? hd)
    refine ⟨?_, ?_, ?_, ?_⟩
    · rw [hpipeline]
      exact List.Pairwise.nil
    · simp [hpipeline]
    · simp [hpipeline]
    · simp [hreplies]
  mailbox := by simp [Sys.init]
  result := by simp [Sys.init]

theorem sound_of_reaches {clock : Nat → DateTime} {defs : List TagDefinition} {r₀ : TagRegistry}
    (hregistry : TagRegistry.fromDefinitions clock defs = .ok r₀) {drivers : List Driver}
    (hfresh : ∀ d ∈ drivers, d.Fresh)
    (hrun : Reaches (step routing) (fun _ _ => True) (.init r₀ drivers) s) : Sound routing s :=
  hrun.invariant (sound_init (TagRegistry.consistent_fromDefinitions hregistry) hfresh)
    fun _ _ _ h _ hstep => h.step (moves_of_step hstep)

/-- The call a driver's request was made for. -/
def Sys.callOf (s : Sys) (req : WriteRequest) : Option Nat := req.reply.bind (s.owners[·]?)

theorem Driver.mem_pipeline_of_sent {d : Driver} {req : WriteRequest} (h : req ∈ d.sent) :
    req ∈ d.pipeline := List.mem_append_left _ (List.mem_append_left _ h)

theorem Driver.sent_sublist (d : Driver) : d.sent.Sublist d.pipeline :=
  (List.sublist_append_left _ _).trans (List.sublist_append_left _ _)

namespace Sound

variable {i : Nat} {d : Driver} {req : WriteRequest}

theorem origin (h : Sound routing s) (hd : s.drivers[i]? = some d) (hreq : req ∈ d.sent) :
    s.Origin routing i req := (h.drivers hd).origin req (Driver.mem_pipeline_of_sent hreq)

theorem owners_increasing (h : Sound routing s) : s.owners.Pairwise (· < ·) :=
  h.arrivals.increasing.sublist ((List.sublist_append_left _ _).trans h.arrivals.arrived)

/-- A call has one channel. -/
theorem token_unique (h : Sound routing s) {k k' n : Nat} (hk : s.owners[k]? = some n)
    (hk' : s.owners[k']? = some n) : k = k' :=
  (List.getElem?_inj (List.getElem?_eq_some_iff.mp hk).1 h.owners_increasing.nodup).mp
    (hk.trans hk'.symm)

theorem callOf_eq_some {n : Nat} : s.callOf req = some n ↔ ∃ k, req.reply = some k ∧ s.owners[k]? = some n :=
  Option.bind_eq_some_iff

/-- Requests of one call: the same driver sent them, at the same place. -/
theorem sent_unique (h : Sound routing s) {j a b n : Nat} {d' : Driver} {req' : WriteRequest}
    (hd : s.drivers[i]? = some d) (hd' : s.drivers[j]? = some d') (ha : d.sent[a]? = some req)
    (hb : d'.sent[b]? = some req') (hreq : s.callOf req = some n) (hreq' : s.callOf req' = some n) :
    i = j ∧ a = b := by
  obtain ⟨k, m, hk, hm, ⟨c, hc, htag, -⟩, hroute, -⟩ := h.origin hd (List.mem_of_getElem? ha)
  obtain ⟨k', m', hk', hm', ⟨c', hc', htag', -⟩, hroute', -⟩ := h.origin hd' (List.mem_of_getElem? hb)
  rw [Sys.callOf, hk, Option.bind_some, hm] at hreq
  rw [Sys.callOf, hk', Option.bind_some, hm'] at hreq'
  obtain rfl := Option.some.inj hreq
  obtain rfl := Option.some.inj hreq'
  -- One call asks for one tag, and a tag has one route.
  rw [hc] at hc'
  obtain rfl := Option.some.inj hc'
  rw [← htag, htag', hroute'] at hroute
  obtain rfl := Option.some.inj hroute
  refine ⟨rfl, ?_⟩
  rw [hd] at hd'
  obtain rfl := Option.some.inj hd'
  -- Channel numbers increase along what was sent.
  have hsame : token req = token req' := by rw [token, token, hk, hk', h.token_unique hm hm']
  have hordered := (h.drivers hd).ordered.sublist d.sent_sublist
  rw [List.pairwise_iff_getElem] at hordered
  obtain ⟨halt, hareq⟩ := List.getElem?_eq_some_iff.mp ha
  obtain ⟨hblt, hbreq⟩ := List.getElem?_eq_some_iff.mp hb
  rcases Nat.lt_trichotomy a b with hab | hab | hab
  · have := hordered a b halt hblt hab
    rw [hareq, hbreq, hsame] at this
    exact absurd this (lt_irrefl _)
  · exact hab
  · have := hordered b a hblt halt hab
    rw [hareq, hbreq, hsame] at this
    exact absurd this (lt_irrefl _)

end Sound

/-- However calls, the bridge thread, drivers and timeouts interleave: a
    confirmed call returns success only if a device acknowledged the request
    made for it, with its tag's mapping and its value; each call leads to at
    most one request sent to a device; and every request sent stems from a call
    for a writable tag with a value of the tag's type. -/
theorem confirmed_writes {clock : Nat → DateTime} {defs : List TagDefinition} {r₀ : TagRegistry}
    (hregistry : TagRegistry.fromDefinitions clock defs = .ok r₀) {drivers : List Driver}
    (hfresh : ∀ d ∈ drivers, d.Fresh)
    (hrun : Reaches (step routing) (fun _ _ => True) (.init r₀ drivers) s) :
    (∀ (n : Nat) (c : ClientCall), s.calls[n]? = some c → c.mode = .confirmedAck → c.result = some true →
      ∃ d ∈ s.drivers, ∃ req, d.Delivered req ∧ s.callOf req = some n ∧ req.tagId = c.tagId ∧
        c.value = some req.value) ∧
    (∀ (n i j a b : Nat) (d d' : Driver) (req req' : WriteRequest), s.drivers[i]? = some d →
      s.drivers[j]? = some d' → d.sent[a]? = some req → d'.sent[b]? = some req' →
      s.callOf req = some n → s.callOf req' = some n → i = j ∧ a = b) ∧
    ∀ d ∈ s.drivers, ∀ req ∈ d.sent, ∃ n c, s.callOf req = some n ∧ s.calls[n]? = some c ∧
      c.tagId = req.tagId ∧ c.value = some req.value ∧ Permitted s.registry req.tagId req.value := by
  have h : Sound routing s := sound_of_reaches hregistry hfresh hrun
  refine ⟨?_, fun n i j a b d d' req req' => h.sent_unique, ?_⟩
  · intro n c hc hmode hres
    obtain ⟨i, d, req, k, hd, hdelivered, hreply, howner⟩ := h.result hc hmode hres
    obtain ⟨k', m, hk', hm, ⟨c', hc', htag, hvalue⟩, -⟩ :=
      h.origin hd (Driver.mem_sent_of_delivered hdelivered)
    rw [hreply] at hk'
    obtain rfl := Option.some.inj hk'
    rw [howner] at hm
    obtain rfl := Option.some.inj hm
    rw [hc] at hc'
    obtain rfl := Option.some.inj hc'
    exact ⟨d, List.mem_of_getElem? hd, req, hdelivered, Sound.callOf_eq_some.mpr ⟨k, hreply, howner⟩,
      htag.symm, hvalue⟩
  · intro d hd req hreq
    obtain ⟨i, hi⟩ := List.mem_iff_getElem?.mp hd
    obtain ⟨k, n, hk, hn, ⟨c, hc, htag, hvalue⟩, -, hpermitted⟩ := h.origin hi hreq
    exact ⟨n, c, Sound.callOf_eq_some.mpr ⟨k, hk, hn⟩, hc, htag, hvalue, hpermitted⟩

/-- A writable tag, its mapping, and a driver whose device accepts writes. -/
def tankDefinition : TagDefinition := { TagDefinition.new "tank" "tank" "7" .uint16 "plc" with writable := true }

def tankRegistry : TagRegistry := .ofDefinitions [tankDefinition]

def tankMapping : Modbus.ModbusMapping := ⟨"tank", .uint16, 7, 1, .holdingRegisters, 0, true, .ABCD⟩

def tankDriver : Driver := .modbus acceptingDevice [tankMapping] none (.new tankRegistry () [])

def tankRoute (tagId : String) : Option Nat := if tagId = "tank" then some 0 else none

/-- A confirmed write of 5, all the way. -/
def tankEvents : List Event :=
  [.call "tank" .confirmedAck (some (.uint16 5)), .receive, .enqueue, .turn 0 .take, .turn 0 .write,
   .confirm, .answer, .collect 0]

/-- The system after those events. -/
def tankEnd : Sys :=
  (runEvents (step tankRoute) (fun _ _ => True) tankEvents (.init tankRegistry [tankDriver])).getD
    (.init tankRegistry [])

theorem reaches_tankEnd :
    Reaches (step tankRoute) (fun _ _ => True) (.init tankRegistry [tankDriver]) tankEnd :=
  Reaches.refl.runEvents tankEvents rfl

theorem tankDriver_fresh : ∀ d ∈ [tankDriver], d.Fresh := by
  intro d hd
  rw [List.mem_singleton.mp hd]
  exact ⟨rfl, rfl⟩

theorem confirmed_writes_tank :
    tankEnd.calls = [⟨"tank", .confirmedAck, some (.uint16 5), some (.ok ()), some true⟩] ∧
    ∃ d ∈ tankEnd.drivers, ∃ req, d.Delivered req ∧ tankEnd.callOf req = some 0 ∧
      req.tagId = "tank" ∧ some (.uint16 5) = some req.value := by
  have hregistry : TagRegistry.fromDefinitions (fun _ => .unixEpoch) [tankDefinition] = .ok tankRegistry :=
    rfl
  exact ⟨rfl, (confirmed_writes hregistry tankDriver_fresh reaches_tankEnd).1 0 _ rfl rfl rfl⟩

end PlcBridge.Bridge
