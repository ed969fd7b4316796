/-
  PlcBridge.Lib.Transitions

  Transition systems whose scheduler picks the next event: `step s e` is the
  state after event `e`, or `none` when it cannot happen in `s`.  `Reaches`
  follows the events that also satisfy a guard; invariants are proved one step
  at a time.  `lastChange` finds the step of a run that made an observation what
  it is at the end.
-/
import Mathlib.Data.List.Basic

namespace PlcBridge.Lib

variable {σ ε : Type*} {step : σ → ε → Option σ} {ok : σ → ε → Prop} {s s' : σ}

/-- `s'` is reached from `s` by events that satisfy the guard when taken. -/
inductive Reaches (step : σ → ε → Option σ) (ok : σ → ε → Prop) (s : σ) : σ → Prop
  | refl : Reaches step ok s s
  | next {s₁ s₂ : σ} {e : ε} : Reaches step ok s s₁ → ok s₁ e → step s₁ e = some s₂ →
      Reaches step ok s s₂

theorem Reaches.trans {s₁ s₂ : σ} (h : Reaches step ok s s₁) (h' : Reaches step ok s₁ s₂) :
    Reaches step ok s s₂ := by
  induction h' with
  | refl => exact h
  | next _ hok he ih => exact ih.next hok he

/-- What every guarded step keeps holds in every state reached. -/
theorem Reaches.invariant {I : σ → Prop} (h : Reaches step ok s s') (hinit : I s)
    (hstep : ∀ s₁ e s₂, I s₁ → ok s₁ e → step s₁ e = some s₂ → I s₂) : I s' := by
  induction h with
  | refl => exact hinit
  | next _ hok he ih => exact hstep _ _ _ ih hok he

/-- The state after a list of events, each of which satisfies the guard. -/
def runEvents (step : σ → ε → Option σ) (ok : σ → ε → Prop) [∀ s e, Decidable (ok s e)] :
    List ε → σ → Option σ
  | [], s => some s
  | e :: es, s => if ok s e then (step s e).bind (runEvents step ok es) else none

theorem Reaches.runEvents [∀ s e, Decidable (ok s e)] {s₁ : σ} (h : Reaches step ok s s₁)
    (es : List ε) (hes : runEvents step ok es s₁ = some s') : Reaches step ok s s' := by
  induction es generalizing s₁ with
  | nil =>
      obtain rfl := Option.some.inj hes
      exact h
  | cons e es ih =>
      rw [Lib.runEvents] at hes
      split at hes
      · rename_i hok
        obtain ⟨s₂, he, hrest⟩ := Option.bind_eq_some_iff.mp hes
        exact ih (h.next hok he) hrest
      · exact absurd hes (by simp)

theorem runEvents_append [∀ s e, Decidable (ok s e)] {es es' : List ε} {s₁ : σ}
    (h : runEvents step ok es s = some s₁) (h' : runEvents step ok es' s₁ = some s') :
    runEvents step ok (es ++ es') s = some s' := by
  induction es generalizing s with
  | nil =>
      obtain rfl := Option.some.inj h
      exact h'
  | cons e es ih =>
      rw [List.cons_append, Lib.runEvents]
      rw [Lib.runEvents] at h
      split at h
      · rename_i hok
        obtain ⟨s₂, he, hrest⟩ := Option.bind_eq_some_iff.mp h
        rw [if_pos hok, he]
        exact ih hrest
      · exact absurd h (by simp)

theorem runEvents_append_eq [∀ s e, Decidable (ok s e)] (es es' : List ε) (s : σ) :
    runEvents step ok (es ++ es') s = (runEvents step ok es s).bind (runEvents step ok es') := by
  induction es generalizing s with
  | nil => rfl
  | cons e es ih =>
      rw [List.cons_append, Lib.runEvents, Lib.runEvents]
      split
      · rw [Option.bind_assoc]
        exact congrArg _ (funext ih)
      · rfl

-- ============================================================================
-- The last change of an observation
-- ============================================================================

section

variable {α : Type*} [DecidableEq α] {obs : σ → α}

/-- The last step of a run that changed what `obs` sees: the state before it,
    the event and the state after it. -/
def lastChange (step : σ → ε → Option σ) (obs : σ → α) : List ε → σ → Option (σ × ε × σ)
  | [], _ => none
  | e :: es, s =>
      (step s e).bind fun s' =>
        (lastChange step obs es s').or (if obs s' = obs s then none else some (s, e, s'))

variable [∀ s e, Decidable (ok s e)]

/-- Without such a step the observation is what it was. -/
theorem obs_eq_of_lastChange_none {es : List ε} (hrun : runEvents step ok es s = some s')
    (h : lastChange step obs es s = none) : obs s' = obs s := by
  induction es generalizing s with
  | nil =>
      obtain rfl := Option.some.inj hrun
      rfl
  | cons e es ih =>
      rw [Lib.runEvents] at hrun
      split at hrun
      · obtain ⟨s₁, he, hrest⟩ := Option.bind_eq_some_iff.mp hrun
        simp only [lastChange, he, Option.bind_some, Option.or_eq_none_iff] at h
        obtain ⟨hlater, hhere⟩ := h
        have hsame : obs s₁ = obs s := by
          by_contra hne
          exact absurd hhere (by simp [hne])
        exact (ih hrest hlater).trans hsame
      · exact absurd hrun (by simp)

/-- It is a step of the run, it changed the observation, and what it made of it
    is what the run ends with. -/
theorem of_lastChange_some {es : List ε} (hrun : runEvents step ok es s = some s') {s₁ s₂ : σ} {e : ε}
    (h : lastChange step obs es s = some (s₁, e, s₂)) :
    ok s₁ e ∧ step s₁ e = some s₂ ∧ obs s₂ ≠ obs s₁ ∧ obs s' = obs s₂ := by
  induction es generalizing s with
  | nil => exact absurd h (by simp [lastChange])
  | cons e' es ih =>
      rw [Lib.runEvents] at hrun
      split at hrun
      · rename_i hok
        obtain ⟨s₀, he, hrest⟩ := Option.bind_eq_some_iff.mp hrun
        simp only [lastChange, he, Option.bind_some] at h
        cases hlater : lastChange step obs es s₀ with
        | some c =>
            rw [hlater, Option.some_or] at h
            rw [h] at hlater
            exact ih hrest hlater
        | none =>
            rw [hlater, Option.none_or] at h
            split at h
            · exact absurd h (by simp)
            · rename_i hne
              simp only [Option.some.injEq, Prod.mk.injEq] at h
              obtain ⟨rfl, rfl, rfl⟩ := h
              exact ⟨hok, he, hne, obs_eq_of_lastChange_none hrest hlater⟩
      · exact absurd hrun (by simp)

end

end PlcBridge.Lib
