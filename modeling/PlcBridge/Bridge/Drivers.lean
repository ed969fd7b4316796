/-
  PlcBridge.Bridge.Drivers

  A running driver as the rest of the bridge meets it.  The cycle is cut where
  other threads can come between: taking a request from the write channel,
  carrying it out, one read, and handling the connection slot.  The registry is
  shared, so each of these turns starts from the registry it finds.

  `Driver.Advances` says all that the rest needs to know of a turn;
  `turns_modbus_cycle` and `turns_fins_cycle` that a cycle is a sequence of
  turns whose reads are those of the driver's plan.
-/
import PlcBridge.Lib.Transitions
import PlcBridge.WriteQueues

namespace PlcBridge.Bridge

open PlcBridge.Lib

/-- A driver instance, with the request it has taken from its channel and not
    yet answered. -/
inductive Driver where
  | modbus (env : Modbus.Env) (mappings : List Modbus.ModbusMapping) (taken : Option WriteRequest)
      (state : Modbus.State)
  | fins (env : Fins.Env) (drv : Fins.FinsDriver) (taken : Option WriteRequest) (state : Fins.State)

/-- What a driver does without being interrupted. -/
inductive Turn where
  | take
  | write
  | readChunk (ctx : Nat) (r : Modbus.ReadRequest)
  | readGroup (g : Fins.ReadGroup)
  | takeOrConnect
  | putBack (conn : Option Nat)

namespace Driver

def taken : Driver → Option WriteRequest
  | .modbus _ _ taken _ => taken
  | .fins _ _ taken _ => taken

def queue : Driver → List WriteRequest
  | .modbus _ _ _ d => d.queue
  | .fins _ _ _ d => d.queue

def replies : Driver → List (Nat × Except String Unit)
  | .modbus _ _ _ d => d.replies
  | .fins _ _ _ d => d.replies

def registry : Driver → TagRegistry
  | .modbus _ _ _ d => d.registry
  | .fins _ _ _ d => d.registry

/-- The protocol's name in error texts. -/
def protocol : Driver → String
  | .modbus .. => "Modbus"
  | .fins .. => "FINS"

/-- The driver's end of its write channel. -/
def enqueue (req : WriteRequest) : Driver → Driver
  | .modbus env mappings taken d => .modbus env mappings taken { d with queue := d.queue ++ [req] }
  | .fins env drv taken d => .fins env drv taken { d with queue := d.queue ++ [req] }

/-- One turn, on the registry as it is. -/
def turn (registry : TagRegistry) : Driver → Turn → Option Driver
  | .modbus env mappings none d, .take =>
      match d.queue with
      | [] => none
      | req :: rest => some (.modbus env mappings (some req) { d with registry := registry, queue := rest })
  | .modbus env mappings (some req) d, .write =>
      some (.modbus env mappings none (Modbus.processWrite env mappings req { d with registry := registry }).2)
  | .modbus env mappings none d, .readChunk ctx r =>
      some (.modbus env mappings none (Modbus.readStep env ctx r { d with registry := registry }).2)
  | .modbus env mappings none d, .takeOrConnect =>
      some (.modbus env mappings none { d with registry := registry }.takeOrConnect.2)
  | .modbus env mappings none d, .putBack conn =>
      some (.modbus env mappings none ({ d with registry := registry }.putBack conn))
  | .fins env drv none d, .take =>
      match d.queue with
      | [] => none
      | req :: rest => some (.fins env drv (some req) { d with registry := registry, queue := rest })
  | .fins env drv (some req) d, .write =>
      some (.fins env drv none (Fins.processWrite env drv.mappings req { d with registry := registry }))
  | .fins env drv none d, .readGroup g =>
      some (.fins env drv none (Fins.readStep env g { d with registry := registry }).2)
  | .fins env drv none d, .takeOrConnect =>
      some (.fins env drv none { d with registry := registry }.takeOrConnect.2)
  | .fins env drv none d, .putBack conn =>
      some (.fins env drv none ({ d with registry := registry }.putBack conn))
  | _, _ => none

/-- The turns of either driver, by what they do. -/
inductive Turned (registry : TagRegistry) : Driver → Turn → Driver → Prop
  | modbusTake {env mappings req rest} {d : Modbus.State} : d.queue = req :: rest →
      Turned registry (.modbus env mappings none d) .take
        (.modbus env mappings (some req) { d with registry := registry, queue := rest })
  | modbusWrite {env mappings req d} :
      Turned registry (.modbus env mappings (some req) d) .write
        (.modbus env mappings none (Modbus.processWrite env mappings req { d with registry := registry }).2)
  | modbusRead {env mappings ctx r d} :
      Turned registry (.modbus env mappings none d) (.readChunk ctx r)
        (.modbus env mappings none (Modbus.readStep env ctx r { d with registry := registry }).2)
  | modbusConnect {env mappings d} :
      Turned registry (.modbus env mappings none d) .takeOrConnect
        (.modbus env mappings none { d with registry := registry }.takeOrConnect.2)
  | modbusPutBack {env mappings conn d} :
      Turned registry (.modbus env mappings none d) (.putBack conn)
        (.modbus env mappings none ({ d with registry := registry }.putBack conn))
  | finsTake {env drv req rest} {d : Fins.State} : d.queue = req :: rest →
      Turned registry (.fins env drv none d) .take
        (.fins env drv (some req) { d with registry := registry, queue := rest })
  | finsWrite {env drv req d} :
      Turned registry (.fins env drv (some req) d) .write
        (.fins env drv none (Fins.processWrite env drv.mappings req { d with registry := registry }))
  | finsRead {env drv g d} :
      Turned registry (.fins env drv none d) (.readGroup g)
        (.fins env drv none (Fins.readStep env g { d with registry := registry }).2)
  | finsConnect {env drv d} :
      Turned registry (.fins env drv none d) .takeOrConnect
        (.fins env drv none { d with registry := registry }.takeOrConnect.2)
  | finsPutBack {env drv conn d} :
      Turned registry (.fins env drv none d) (.putBack conn)
        (.fins env drv none ({ d with registry := registry }.putBack conn))

theorem turned_of_turn {registry : TagRegistry} {d d' : Driver} {t : Turn}
    (h : d.turn registry t = some d') : Turned registry d t d' := by
  unfold turn at h
  split at h
  · split at h
    · exact absurd h (by simp)
    · rename_i hqueue
      obtain rfl := Option.some.inj h
      exact .modbusTake hqueue
  · obtain rfl := Option.some.inj h
    exact .modbusWrite
  · obtain rfl := Option.some.inj h
    exact .modbusRead
  · obtain rfl := Option.some.inj h
    exact .modbusConnect
  · obtain rfl := Option.some.inj h
    exact .modbusPutBack
  · split at h
    · exact absurd h (by simp)
    · rename_i hqueue
      obtain rfl := Option.some.inj h
      exact .finsTake hqueue
  · obtain rfl := Option.some.inj h
    exact .finsWrite
  · obtain rfl := Option.some.inj h
    exact .finsRead
  · obtain rfl := Option.some.inj h
    exact .finsConnect
  · obtain rfl := Option.some.inj h
    exact .finsPutBack
  · exact absurd h (by simp)

end Driver

-- ============================================================================
-- What was sent
-- ============================================================================

section

variable {ξ σ : Type} (log : WriteLog ξ) (request? : ξ → Option WriteRequest)

/-- The device acknowledged a write that carries the request: its value, to the
    range its tag is mapped to. -/
def DeliveredIn (d : DriverState ξ σ) (req : WriteRequest) : Prop :=
  ∃ x ∈ d.trace, log.carries x req ∧ log.acknowledged x

/-- Requests in the order they reach the device: sent, taken, queued. -/
def pipelineOf (taken : Option WriteRequest) (d : DriverState ξ σ) : List WriteRequest :=
  d.trace.filterMap request? ++ taken.toList ++ d.queue

/-- What a turn can do to requests: they move on or are dropped, and who gets a
    positive reply had its request acknowledged by the device. -/
structure AdvancesIn (taken : Option WriteRequest) (d : DriverState ξ σ)
    (taken' : Option WriteRequest) (d' : DriverState ξ σ) : Prop where
  pipeline : (pipelineOf request? taken' d').Sublist (pipelineOf request? taken d)
  delivered : ∀ req, DeliveredIn log d req → DeliveredIn log d' req
  replies : ∃ new, d'.replies = d.replies ++ new ∧
    ∀ k, (k, .ok ()) ∈ new → ∃ req, req.reply = some k ∧ DeliveredIn log d' req

variable {log request?} {taken : Option WriteRequest} {d d' : DriverState ξ σ}

theorem DeliveredIn.mono {req : WriteRequest} (h : DeliveredIn log d req) (htrace : d.trace <+: d'.trace) :
    DeliveredIn log d' req := by
  obtain ⟨x, hx, hlog⟩ := h
  exact ⟨x, htrace.subset hx, hlog⟩

/-- Only writes carry requests. -/
theorem filterMap_filter_isWrite (hread : ∀ x, log.isWrite x = false → request? x = none) (l : List ξ) :
    (l.filter log.isWrite).filterMap request? = l.filterMap request? := by
  induction l with
  | nil => rfl
  | cons x xs ih =>
      cases hx : log.isWrite x with
      | true => rw [List.filter_cons_of_pos hx, List.filterMap_cons, List.filterMap_cons, ih]
      | false =>
          rw [List.filter_cons_of_neg (by simp [hx]), ih, List.filterMap_cons_none (hread x hx)]

/-- A turn that serves no request. -/
theorem advancesIn_quiet (hread : ∀ x, log.isWrite x = false → request? x = none)
    (hacc : Accounts log d d' []) (htrace : d.trace <+: d'.trace) :
    AdvancesIn log request? taken d taken d' where
  pipeline := by
    have hwrites : d'.trace.filter log.isWrite = d.trace.filter log.isWrite := by
      rw [hacc.writes, List.filterMap_nil, List.append_nil]
    have hqueue : d.queue = d'.queue := hacc.queue
    rw [pipelineOf, pipelineOf, ← filterMap_filter_isWrite hread d'.trace, hwrites,
      filterMap_filter_isWrite hread, hqueue]
  delivered := fun req h => h.mono htrace
  replies := ⟨[], hacc.replies, fun k hk => absurd hk (List.not_mem_nil)⟩

/-- The request taken is sent or dropped. -/
theorem advancesIn_served (hread : ∀ x, log.isWrite x = false → request? x = none)
    (hcarries : ∀ x req, log.carries x req → request? x = some req) {s : Served ξ}
    (hacc : Accounts log { d with queue := s.req :: d.queue } d' [s]) (htrace : d.trace <+: d'.trace) :
    AdvancesIn log request? (some s.req) d none d' where
  pipeline := by
    have hqueue : d'.queue = d.queue := (List.cons.inj hacc.queue).2.symm
    have hsent : d'.trace.filterMap request? =
        d.trace.filterMap request? ++ s.sent.toList.filterMap request? := by
      rw [← filterMap_filter_isWrite hread d'.trace, hacc.writes, List.filterMap_append,
        filterMap_filter_isWrite hread]
      cases hs : s.sent <;> simp [hs]
    have hown : (s.sent.toList.filterMap request?).Sublist [s.req] := by
      cases hx : s.sent with
      | none => exact List.nil_sublist _
      | some x =>
          rw [Option.toList_some, List.filterMap_cons_some (hcarries x s.req
            (hacc.own s (List.mem_singleton_self s) x hx))]
          exact List.Sublist.refl _
    rw [pipelineOf, pipelineOf, hqueue, hsent, Option.toList_none, List.append_nil, Option.toList_some]
    exact ((List.Sublist.refl _).append hown).append (List.Sublist.refl _)
  delivered := fun req h => h.mono htrace
  replies := by
    refine ⟨s.replies, by simpa using hacc.replies, ?_⟩
    intro k hk
    obtain ⟨ch, hch, heq⟩ := List.mem_map.mp hk
    obtain ⟨rfl, hresult⟩ := Prod.mk.inj heq
    obtain ⟨x, hx, hack⟩ := (hacc.success s (List.mem_singleton_self s)).mp hresult
    have hmem : x ∈ d'.trace.filter log.isWrite := by
      rw [hacc.writes, List.filterMap_cons_some hx]
      exact List.mem_append_right _ (List.mem_cons_self ..)
    exact ⟨s.req, Option.mem_toList.mp hch, x, List.mem_of_mem_filter hmem,
      hacc.own s (List.mem_singleton_self s) x hx, hack⟩

/-- A request taken from the channel is next. -/
theorem advancesIn_take {req : WriteRequest} {rest : List WriteRequest} (hqueue : d.queue = req :: rest) :
    AdvancesIn log request? none d (some req) { d with queue := rest } where
  pipeline := by
    rw [pipelineOf, pipelineOf, hqueue]
    simp
  delivered := fun req h => h
  replies := ⟨[], (List.append_nil _).symm, fun k hk => absurd hk (List.not_mem_nil)⟩

end

/-- The queued request an exchange carries out. -/
def modbusRequest? : Modbus.Exchange → Option WriteRequest
  | .read .. => none
  | .write _ req _ _ _ => some req

def finsRequest? : Fins.Exchange → Option WriteRequest
  | .read .. => none
  | .write _ _ req _ _ _ => some req

namespace Driver

/-- The write requests sent to the device, oldest first. -/
def sent : Driver → List WriteRequest
  | .modbus _ _ _ d => d.trace.filterMap modbusRequest?
  | .fins _ _ _ d => d.trace.filterMap finsRequest?

def Delivered (req : WriteRequest) : Driver → Prop
  | .modbus _ mappings _ d => DeliveredIn (Modbus.writeLog mappings) d req
  | .fins _ drv _ d => DeliveredIn (Fins.writeLog drv.mappings) d req

def pipeline (d : Driver) : List WriteRequest := d.sent ++ d.taken.toList ++ d.queue

/-- `AdvancesIn` for either protocol; and the registry only sees its update
    methods. -/
structure Advances (registry : TagRegistry) (d d' : Driver) : Prop where
  registry : ∃ ops, d'.registry = registry.run ops
  pipeline : d'.pipeline.Sublist d.pipeline
  sent : d.sent <+: d'.sent
  delivered : ∀ req, d.Delivered req → d'.Delivered req
  replies : ∃ new, d'.replies = d.replies ++ new ∧
    ∀ k, (k, .ok ()) ∈ new → ∃ req, req.reply = some k ∧ d'.Delivered req

/-- A delivered request was sent. -/
theorem mem_sent_of_delivered {d : Driver} {req : WriteRequest} (h : d.Delivered req) : req ∈ d.sent := by
  cases d with
  | modbus env mappings taken d =>
      obtain ⟨x, hx, ⟨m, ctx, result, -, -, rfl⟩, -⟩ := h
      exact List.mem_filterMap.mpr ⟨_, hx, rfl⟩
  | fins env drv taken d =>
      obtain ⟨x, hx, ⟨m, ctx, sid, result, -, -, rfl⟩, -⟩ := h
      exact List.mem_filterMap.mpr ⟨_, hx, rfl⟩

theorem advances_modbus {env : Modbus.Env} {mappings : List Modbus.ModbusMapping}
    {taken taken' : Option WriteRequest} {registry : TagRegistry} {d d' : Modbus.State}
    (hext : DriverState.Extends { d with registry := registry } d')
    (h : AdvancesIn (Modbus.writeLog mappings) modbusRequest? taken { d with registry := registry }
      taken' d') :
    Advances registry (.modbus env mappings taken d) (.modbus env mappings taken' d') :=
  ⟨hext.registry, h.pipeline, hext.trace.filterMap _, h.delivered, h.replies⟩

theorem advances_fins {env : Fins.Env} {drv : Fins.FinsDriver}
    {taken taken' : Option WriteRequest} {registry : TagRegistry} {d d' : Fins.State}
    (hext : DriverState.Extends { d with registry := registry } d')
    (h : AdvancesIn (Fins.writeLog drv.mappings) finsRequest? taken { d with registry := registry }
      taken' d') :
    Advances registry (.fins env drv taken d) (.fins env drv taken' d') :=
  ⟨hext.registry, h.pipeline, hext.trace.filterMap _, h.delivered, h.replies⟩

theorem modbusRequest?_read (mappings : List Modbus.ModbusMapping) (x : Modbus.Exchange)
    (h : (Modbus.writeLog mappings).isWrite x = false) : modbusRequest? x = none := by
  cases x with
  | read => rfl
  | write => exact absurd h (by simp [Modbus.writeLog])

theorem finsRequest?_read (mappings : List Fins.TagMapping) (x : Fins.Exchange)
    (h : (Fins.writeLog mappings).isWrite x = false) : finsRequest? x = none := by
  cases x with
  | read => rfl
  | write => exact absurd h (by simp [Fins.writeLog])

/-- A turn, whatever it is. -/
theorem advances_turn {registry : TagRegistry} {d d' : Driver} {t : Turn}
    (h : d.turn registry t = some d') : Advances registry d d' := by
  cases turned_of_turn h with
  | modbusTake hqueue => exact advances_modbus ⟨⟨[], rfl⟩, List.prefix_refl _⟩ (advancesIn_take hqueue)
  | @modbusWrite env mappings req d =>
      have hext := Modbus.extends_processWrite env mappings req { d with registry := registry }
      obtain ⟨s, rfl, hacc⟩ := Modbus.accounts_processWrite env mappings req { d with registry := registry }
      refine advances_modbus hext (advancesIn_served (modbusRequest?_read mappings) ?_ hacc hext.trace)
      rintro x req ⟨m, ctx, result, -, -, rfl⟩
      rfl
  | @modbusRead env mappings ctx r d =>
      have hext := Modbus.extends_readStep env ctx r { d with registry := registry }
      exact advances_modbus hext (advancesIn_quiet (modbusRequest?_read mappings)
        (Modbus.accounts_readStep env mappings ctx r _) hext.trace)
  | @modbusConnect env mappings d =>
      have hext := DriverState.extends_takeOrConnect { d with registry := registry }
      exact advances_modbus hext (advancesIn_quiet (modbusRequest?_read mappings)
        (Accounts.of_takeOrConnect _ _) hext.trace)
  | @modbusPutBack env mappings conn d =>
      have hext := DriverState.extends_putBack { d with registry := registry } conn
      exact advances_modbus hext (advancesIn_quiet (modbusRequest?_read mappings)
        (Accounts.of_putBack _ _ conn) hext.trace)
  | finsTake hqueue => exact advances_fins ⟨⟨[], rfl⟩, List.prefix_refl _⟩ (advancesIn_take hqueue)
  | @finsWrite env drv req d =>
      have hext := Fins.extends_processWrite env drv.mappings req { d with registry := registry }
      obtain ⟨s, rfl, hacc⟩ :=
        Fins.accounts_processWrite env drv.mappings req { d with registry := registry }
      refine advances_fins hext (advancesIn_served (finsRequest?_read drv.mappings) ?_ hacc hext.trace)
      rintro x req ⟨m, ctx, sid, result, -, -, rfl⟩
      rfl
  | @finsRead env drv g d =>
      have hext := Fins.extends_readStep env g { d with registry := registry }
      exact advances_fins hext (advancesIn_quiet (finsRequest?_read drv.mappings)
        (Fins.accounts_readStep env drv.mappings g _) hext.trace)
  | @finsConnect env drv d =>
      have hext := DriverState.extends_takeOrConnect { d with registry := registry }
      exact advances_fins hext (advancesIn_quiet (finsRequest?_read drv.mappings)
        (Accounts.of_takeOrConnect _ _) hext.trace)
  | @finsPutBack env drv conn d =>
      have hext := DriverState.extends_putBack { d with registry := registry } conn
      exact advances_fins hext (advancesIn_quiet (finsRequest?_read drv.mappings)
        (Accounts.of_putBack _ _ conn) hext.trace)

-- ============================================================================
-- Cycles are turns
-- ============================================================================

/-- Reads are those of the driver's plan. -/
def Planned : Driver → Turn → Prop
  | .modbus env mappings _ _, .readChunk _ r => r ∈ Modbus.readPlan env.order mappings
  | .fins _ drv _ _, .readGroup g => g ∈ drv.readGroups
  | _, _ => True

instance : (d : Driver) → (t : Turn) → Decidable (d.Planned t)
  | .modbus env mappings _ _, .readChunk _ r =>
      inferInstanceAs (Decidable (r ∈ Modbus.readPlan env.order mappings))
  | .fins _ drv _ _, .readGroup g => inferInstanceAs (Decidable (g ∈ drv.readGroups))
  | .modbus .., .take | .modbus .., .write | .modbus .., .readGroup _ | .modbus .., .takeOrConnect
  | .modbus .., .putBack _ | .fins .., .take | .fins .., .write | .fins .., .readChunk ..
  | .fins .., .takeOrConnect | .fins .., .putBack _ => isTrue trivial

/-- Turns with nobody in between. -/
def Turns (d d' : Driver) : Prop := Reaches (fun d t => d.turn d.registry t) Planned d d'

theorem Turns.refl (d : Driver) : Turns d d := Reaches.refl

theorem Turns.trans {d d₁ d₂ : Driver} (h : Turns d d₁) (h' : Turns d₁ d₂) : Turns d d₂ :=
  Reaches.trans h h'

theorem Turns.of_turn {d d' : Driver} (t : Turn) (hplan : d.Planned t) (h : d.turn d.registry t = some d') :
    Turns d d' := Reaches.refl.next (e := t) hplan h

section

variable (env : Modbus.Env) (mappings : List Modbus.ModbusMapping)

theorem turns_modbus_write {req : WriteRequest} {rest : List WriteRequest} {d : Modbus.State}
    (hqueue : d.queue = req :: rest) :
    Turns (.modbus env mappings none d)
      (.modbus env mappings none (Modbus.processWrite env mappings req { d with queue := rest }).2) := by
  have htake : Turns (.modbus env mappings none d)
      (.modbus env mappings (some req) { d with queue := rest }) := by
    refine .of_turn .take trivial ?_
    simp only [turn, hqueue]
    rfl
  exact htake.trans (.of_turn .write trivial rfl)

theorem turns_modbus_drain (n : Nat) (d : Modbus.State) :
    Turns (.modbus env mappings none d)
      (.modbus env mappings none (Modbus.drainWrites env mappings n d).2) := by
  induction n generalizing d with
  | zero => exact .refl _
  | succ n ih =>
      rw [Modbus.drainWrites]
      cases hqueue : d.queue with
      | nil => exact .refl _
      | cons req rest =>
          have hwrite := turns_modbus_write env mappings hqueue
          simp only
          rcases except_cases (Modbus.processWrite env mappings req { d with queue := rest })
            with ⟨d', h⟩ | ⟨e, d', h⟩
          · rw [h] at hwrite ⊢
            exact hwrite.trans (ih d')
          · rw [h] at hwrite ⊢
            exact hwrite

theorem turns_modbus_reads (ctx : Nat) (d : Modbus.State) :
    Turns (.modbus env mappings none d)
      (.modbus env mappings none
        (runList (Modbus.readStep env ctx) (Modbus.readPlan env.order mappings) d).2) :=
  runList_rel (R := fun d d' : Modbus.State =>
      Turns (.modbus env mappings none d) (.modbus env mappings none d'))
    (fun _ => .refl _) Turns.trans (fun r hr _ => .of_turn (.readChunk ctx r) hr rfl) d

/-- A cycle of the Modbus driver. -/
theorem turns_modbus_cycle (d : Modbus.State) :
    Turns (.modbus env mappings none d)
      (.modbus env mappings none (Modbus.runReadCycleImpl env mappings d).2) := by
  have hdrain := turns_modbus_drain env mappings 64 d
  rw [Modbus.runReadCycleImpl]
  rcases except_cases (Modbus.drainWrites env mappings 64 d) with ⟨d₁, h⟩ | ⟨e, d₁, h⟩
  · rw [h] at hdrain
    simp only [h]
    have hconnect : Turns (.modbus env mappings none d₁) (.modbus env mappings none d₁.takeOrConnect.2) :=
      .of_turn .takeOrConnect trivial rfl
    have hreads := (hdrain.trans hconnect).trans
      (turns_modbus_reads env mappings d₁.takeOrConnect.1 d₁.takeOrConnect.2)
    rw [Modbus.readPhase]
    rcases except_cases (runList (Modbus.readStep env d₁.takeOrConnect.1)
      (Modbus.readPlan env.order mappings) d₁.takeOrConnect.2) with ⟨d₂, h₂⟩ | ⟨e, d₂, h₂⟩
    · rw [h₂] at hreads
      simp only [h₂]
      exact hreads.trans (.of_turn (.putBack (some d₁.takeOrConnect.1)) trivial rfl)
    · rw [h₂] at hreads
      simp only [h₂]
      exact hreads
  · rw [h] at hdrain
    simp only [h]
    exact hdrain

end

section

variable (env : Fins.Env) (drv : Fins.FinsDriver)

theorem turns_fins_write {req : WriteRequest} {rest : List WriteRequest} {d : Fins.State}
    (hqueue : d.queue = req :: rest) :
    Turns (.fins env drv none d)
      (.fins env drv none (Fins.processWrite env drv.mappings req { d with queue := rest })) := by
  have htake : Turns (.fins env drv none d) (.fins env drv (some req) { d with queue := rest }) := by
    refine .of_turn .take trivial ?_
    simp only [turn, hqueue]
    rfl
  exact htake.trans (.of_turn .write trivial rfl)

theorem turns_fins_drain (n : Nat) (d : Fins.State) :
    Turns (.fins env drv none d) (.fins env drv none (Fins.drainWrites env drv.mappings n d)) := by
  induction n generalizing d with
  | zero => exact .refl _
  | succ n ih =>
      rw [Fins.drainWrites]
      cases hqueue : d.queue with
      | nil => exact .refl _
      | cons req rest => exact (turns_fins_write env drv hqueue).trans (ih _)

/-- A cycle of the FINS driver, also one that panics. -/
theorem turns_fins_cycle (d : Fins.State) :
    Turns (.fins env drv none d) (.fins env drv none (Fins.runReadCycleImpl env drv d).2) := by
  have htake : Turns (.fins env drv none d) (.fins env drv none d.takeOrConnect.2) :=
    .of_turn .takeOrConnect trivial rfl
  have hconnect : Turns (.fins env drv none d) (.fins env drv none (Fins.ensureConnected d)) :=
    htake.trans (.of_turn (.putBack (some d.takeOrConnect.1)) trivial rfl)
  have hreads : ∀ d, Turns (.fins env drv none d)
      (.fins env drv none (runList (Fins.readStep env) drv.readGroups d).2) :=
    runList_rel (R := fun d d' : Fins.State => Turns (.fins env drv none d) (.fins env drv none d'))
      (fun _ => .refl _) Turns.trans (fun g hg _ => .of_turn (.readGroup g) hg rfl)
  rw [(Fins.runReadCycleImpl_eq env drv d).1]
  exact (hconnect.trans (turns_fins_drain env drv 64 _)).trans (hreads _)

end

end Driver

end PlcBridge.Bridge
