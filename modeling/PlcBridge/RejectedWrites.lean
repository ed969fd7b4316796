/-
  PlcBridge.RejectedWrites

  Write requests that never reach the wire: what the local rejections of both
  drivers (the `continue` branches in the write phase of
  `run_read_cycle_impl`) leave behind in the registry.

  The FINS driver only answers such a request.  The Modbus driver does the
  same for an unknown or read-only tag, but marks the tag `CommLost` when the
  mapping's function cannot be written.
-/
import PlcBridge.Modbus.Staleness
import PlcBridge.WriteQueues

namespace PlcBridge

open PlcBridge.Lib

-- ============================================================================
-- The requests of a write phase
-- ============================================================================

/-- A request taken from the queue, with the states around its processing. -/
structure DrainedWrite (ξ σ : Type) where
  req : WriteRequest
  before : DriverState ξ σ
  after : DriverState ξ σ

section Drained

variable {ξ σ : Type}

/-- The requests a write phase takes, up to `n`; `process` also says whether
    the phase goes on. -/
def drainedBy (process : WriteRequest → DriverState ξ σ → Bool × DriverState ξ σ) :
    ℕ → DriverState ξ σ → List (DrainedWrite ξ σ)
  | 0, _ => []
  | n + 1, d =>
      match d.queue with
      | [] => []
      | req :: rest =>
          let r := process req { d with queue := rest }
          ⟨req, { d with queue := rest }, r.2⟩ :: if r.1 then drainedBy process n r.2 else []

/-- The state the last request leaves. -/
def lastAfter (d : DriverState ξ σ) : List (DrainedWrite ξ σ) → DriverState ξ σ
  | [] => d
  | s :: steps => lastAfter s.after steps

end Drained

-- ============================================================================
-- Modbus
-- ============================================================================

namespace Modbus

/-- The requests of a Modbus write phase. -/
def drainedWrites (env : Env) (mappings : List ModbusMapping) (n : ℕ) (d : State) :
    List (DrainedWrite Exchange Unit) :=
  drainedBy (fun req d =>
    ((processWrite env mappings req d).1.isOk, (processWrite env mappings req d).2)) n d

/-- They are what `drainWrites` goes through. -/
theorem drainWrites_eq_lastAfter (env : Env) (mappings : List ModbusMapping) (n : ℕ) (d : State) :
    (drainWrites env mappings n d).2 = lastAfter d (drainedWrites env mappings n d) := by
  induction n generalizing d with
  | zero => rfl
  | succ n ih =>
      rw [drainWrites, drainedWrites, drainedBy]
      cases hq : d.queue with
      | nil => rfl
      | cons req rest =>
          simp only [lastAfter]
          rcases except_cases (processWrite env mappings req { d with queue := rest })
            with ⟨d', h⟩ | ⟨e, d', h⟩
          · rw [h]
            exact ih d'
          · rw [h]
            rfl

/-- Carrying the rejection out changes no tag: the request finds no writable
    mapping, or one whose function can be written, or a tag that already shows
    `CommLost` with the present instant (or no tag at all). -/
def Harmless (env : Env) (mappings : List ModbusMapping) (req : WriteRequest) (d : State) : Prop :=
  ∀ m : ModbusMapping, mappings.find? (fun m => m.tagId = req.tagId) = some m → m.writable →
    m.function = .holdingRegisters ∨ ∀ t : Tag, d.registry.tag? m.tagId = some t →
      t.quality = .commLost ∧ t.serverTimestamp = env.clock d.ticks

end Modbus

-- ============================================================================
-- FINS
-- ============================================================================

namespace Fins

/-- The requests of a FINS write phase. -/
def drainedWrites (env : Env) (mappings : List TagMapping) (n : ℕ) (d : State) :
    List (DrainedWrite Exchange UInt8) :=
  drainedBy (fun req d => (true, processWrite env mappings req d)) n d

/-- They are what `drainWrites` goes through. -/
theorem drainWrites_eq_lastAfter (env : Env) (mappings : List TagMapping) (n : ℕ) (d : State) :
    drainWrites env mappings n d = lastAfter d (drainedWrites env mappings n d) := by
  induction n generalizing d with
  | zero => rfl
  | succ n ih =>
      rw [drainWrites, drainedWrites, drainedBy]
      cases hq : d.queue with
      | nil => rfl
      | cons req rest =>
          simp only [lastAfter]
          exact ih _

end Fins

-- ============================================================================
-- Both drivers
-- ============================================================================

namespace Modbus

end Modbus

end PlcBridge
