/-
  PlcBridge.Lib.Ranking

  Bounded progress in a transition system.  Some of the events are `fair`: as
  long as the goal is not reached one of them can happen, and each that happens
  lowers a rank that the others do not raise.  Then the goal is reached within
  as many fair events as the rank says, whatever happens in between.
-/
import PlcBridge.Lib.Transitions

namespace PlcBridge.Lib

variable {σ ε : Type*}

structure Ranked (step : σ → ε → Option σ) (ok : σ → ε → Prop) (fair : ε → Bool) (I : σ → Prop)
    (goal : σ → Prop) (rank : σ → Nat) : Prop where
  keeps : ∀ {s e s'}, I s → ok s e → step s e = some s' → I s'
  stable : ∀ {s e s'}, I s → goal s → ok s e → step s e = some s' → goal s'
  others : ∀ {s e s'}, I s → ¬ goal s → ok s e → step s e = some s' → goal s' ∨ rank s' ≤ rank s
  helps : ∀ {s e s'}, I s → ¬ goal s → fair e = true → ok s e → step s e = some s' →
    goal s' ∨ rank s' < rank s
  enabled : ∀ {s}, I s → ¬ goal s → ∃ e, fair e = true ∧ ok s e ∧ (step s e).isSome
  positive : ∀ {s}, I s → ¬ goal s → 0 < rank s

namespace Ranked

variable {step : σ → ε → Option σ} {ok : σ → ε → Prop} [∀ s e, Decidable (ok s e)] {fair : ε → Bool}
  {I goal : σ → Prop} {rank : σ → Nat} {s s' : σ}

/-- Along a run the goal is reached, or the fair events have lowered the rank. -/
theorem along (h : Ranked step ok fair I goal rank) {es : List ε} (hs : I s)
    (hrun : runEvents step ok es s = some s') : I s' ∧ (goal s' ∨ rank s' + es.countP fair ≤ rank s) ∧
      (goal s → goal s') := by
  induction es generalizing s with
  | nil =>
      obtain rfl := Option.some.inj hrun
      exact ⟨hs, .inr (Nat.le_refl _), id⟩
  | cons e es ih =>
      rw [runEvents] at hrun
      split at hrun
      · rename_i hok
        obtain ⟨s₁, he, hrest⟩ := Option.bind_eq_some_iff.mp hrun
        obtain ⟨hs', hlater, hstable⟩ := ih (h.keeps hs hok he) hrest
        refine ⟨hs', ?_, fun hgoal => hstable (h.stable hs hgoal hok he)⟩
        by_cases hgoal : goal s
        · exact .inl (hstable (h.stable hs hgoal hok he))
        · rcases hlater with hdone | hrank
          · exact .inl hdone
          · cases hfair : fair e with
            | true =>
                rcases h.helps hs hgoal hfair hok he with hdone | hlt
                · exact .inl (hstable hdone)
                · rw [List.countP_cons_of_pos hfair]
                  exact .inr (by omega)
            | false =>
                rcases h.others hs hgoal hok he with hdone | hle
                · exact .inl (hstable hdone)
                · rw [List.countP_cons_of_neg (by simp [hfair])]
                  exact .inr (by omega)
      · exact absurd hrun (by simp)

/-- The goal is reached within as many fair events as the rank says; until then
    one can happen. -/
theorem reached (h : Ranked step ok fair I goal rank) {es : List ε} (hs : I s)
    (hrun : runEvents step ok es s = some s') :
    (rank s ≤ es.countP fair → goal s') ∧
    (¬ goal s' → ∃ e, fair e = true ∧ ok s' e ∧ (step s' e).isSome) := by
  obtain ⟨hs', hlater, -⟩ := h.along hs hrun
  refine ⟨?_, h.enabled hs'⟩
  intro hmany
  by_contra hgoal
  have hpos := h.positive hs' hgoal
  rcases hlater with hdone | hrank
  · exact hgoal hdone
  · omega

end Ranked

end PlcBridge.Lib
