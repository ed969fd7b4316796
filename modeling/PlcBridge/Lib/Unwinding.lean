/-
  PlcBridge.Lib.Unwinding

  Noninterference for transition systems: an observer who sees some of the
  events, and part of the state, cannot tell a run from the run without the
  other events.  As usual it is proved by unwinding: a hidden event leaves what
  the observer sees, and a visible one does the same from states that look the
  same.

  For a visible event that is a loop, it is enough to look at the loop's body
  (`alike_runList`, `related_foldl`).
-/
import PlcBridge.Lib.Runs
import PlcBridge.Lib.Transitions

namespace PlcBridge.Lib

section

variable {σ ε : Type*} {step : σ → ε → Option σ} {ok : σ → ε → Prop} {visible : ε → Prop}
  {I : σ → Prop} {agree : σ → σ → Prop}

/-- What one step has to satisfy: `I` holds along runs, and `agree` relates
    states the observer cannot tell apart. -/
structure Unwinding (step : σ → ε → Option σ) (ok : σ → ε → Prop) (visible : ε → Prop) (I : σ → Prop)
    (agree : σ → σ → Prop) : Prop where
  keeps : ∀ {s e s'}, I s → ok s e → step s e = some s' → I s'
  hidden : ∀ {s t e s'}, I s → agree s t → ok s e → ¬ visible e → step s e = some s' → agree s' t
  shown : ∀ {s t e s'}, I s → I t → agree s t → ok s e → visible e → step s e = some s' →
    ∃ t', ok t e ∧ step t e = some t' ∧ agree s' t'

/-- The visible events alone are a run, which ends in a state that looks the
    same. -/
theorem Unwinding.purge [∀ s e, Decidable (ok s e)] [DecidablePred visible]
    (h : Unwinding step ok visible I agree) {s t s' : σ} (hs : I s) (ht : I t) (hagree : agree s t)
    {es : List ε} (hrun : runEvents step ok es s = some s') :
    ∃ t', runEvents step ok (es.filter fun e => visible e) t = some t' ∧ agree s' t' := by
  induction es generalizing s t with
  | nil =>
      obtain rfl := Option.some.inj hrun
      exact ⟨t, rfl, hagree⟩
  | cons e es ih =>
      rw [runEvents] at hrun
      split at hrun
      · rename_i hok
        obtain ⟨s₁, he, hrest⟩ := Option.bind_eq_some_iff.mp hrun
        have hs₁ := h.keeps hs hok he
        by_cases hvis : visible e
        · obtain ⟨t₁, hok', he', hagree₁⟩ := h.shown hs ht hagree hok hvis he
          obtain ⟨t', hrun', hend⟩ := ih hs₁ (h.keeps ht hok' he') hagree₁ hrest
          refine ⟨t', ?_, hend⟩
          rw [List.filter_cons_of_pos (by simpa using hvis), runEvents, if_pos hok', he']
          exact hrun'
        · obtain ⟨t', hrun', hend⟩ := ih hs₁ ht (h.hidden hs hagree hok hvis he) hrest
          refine ⟨t', ?_, hend⟩
          rw [List.filter_cons_of_neg (by simpa using hvis)]
          exact hrun'
      · exact absurd hrun (by simp)

end

-- ============================================================================
-- Loops
-- ============================================================================

section

variable {α ε σ : Type*} {R : σ → σ → Prop} {l : List α}

/-- Related states give the same result and related states. -/
def Alike (R : σ → σ → Prop) (f : σ → Except ε Unit × σ) : Prop :=
  ∀ {s t}, R s t → (f s).1 = (f t).1 ∧ R (f s).2 (f t).2

theorem alike_runList {step : α → σ → Except ε Unit × σ} (h : ∀ a ∈ l, Alike R (step a)) :
    Alike R (runList step l) := by
  induction l with
  | nil => exact fun hst => ⟨rfl, hst⟩
  | cons a as ih =>
      intro s t hst
      obtain ⟨hhead, hrest⟩ := List.forall_mem_cons.mp h
      obtain ⟨hresult, hnext⟩ := hhead hst
      rcases except_cases (step a s) with ⟨s₁, hs⟩ | ⟨e, s₁, hs⟩
      · rw [hs] at hresult hnext
        have ht : step a t = (.ok (), (step a t).2) := Prod.ext hresult.symm rfl
        rw [runList_cons_ok hs, runList_cons_ok ht]
        exact ih hrest hnext
      · rw [hs] at hresult hnext
        have ht : step a t = (.error e, (step a t).2) := Prod.ext hresult.symm rfl
        rw [runList_cons_error hs, runList_cons_error ht]
        exact ⟨rfl, hnext⟩

theorem related_foldl {step : σ → α → σ} (h : ∀ a ∈ l, ∀ s t, R s t → R (step s a) (step t a))
    {s t : σ} (hst : R s t) : R (l.foldl step s) (l.foldl step t) := by
  induction l generalizing s t with
  | nil => exact hst
  | cons a as ih =>
      obtain ⟨hhead, hrest⟩ := List.forall_mem_cons.mp h
      exact ih hrest (hhead s t hst)

end

end PlcBridge.Lib
