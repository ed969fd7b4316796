/-
  PlcBridge.Driver.Loop

  The read loops of the drivers: each turn makes one exchange, touches the tags
  of one request only, and may end the loop.  What such a loop leaves alone and
  how its exchanges split is proved here once for both drivers.
-/
import PlcBridge.Driver.State
import PlcBridge.Lib.Runs

namespace PlcBridge

open PlcBridge.Lib

/-- One turn of a read loop, with the exchange it makes and the tags it may
    touch. -/
structure ReadLoop (ε α ξ σ : Type) where
  step : α → DriverState ξ σ → Except ε Unit × DriverState ξ σ
  exchange : α → DriverState ξ σ → ξ
  ids : α → List String
  extends_step : ∀ a d, DriverState.Extends d (step a d).2
  trace_step : ∀ a d, (step a d).2.trace = d.trace ++ [exchange a d]
  view_step_ne : ∀ {a d id}, id ∉ ids a → (step a d).2.view id = d.view id

namespace ReadLoop

open DriverState (Extends AllNew)

variable {ε α ξ σ : Type} (loop : ReadLoop ε α ξ σ) {l l₁ l₂ : List α} {a : α}
  {d d₁ : DriverState ξ σ} {P : ξ → Prop}

theorem extends_run (l : List α) (d : DriverState ξ σ) : Extends d (runList loop.step l d).2 :=
  runList_rel Extends.refl Extends.trans (fun a _ d => loop.extends_step a d) d

/-- Requests that do not mention a tag leave it alone. -/
theorem view_run_ne {id : String} (h : ∀ a ∈ l, id ∉ loop.ids a) :
    (runList loop.step l d).2.view id = d.view id := by
  refine runList_invariant (I := fun d' : DriverState ξ σ => d'.view id = d.view id) ?_ rfl
  intro a ha d' hd'
  rw [loop.view_step_ne (h a ha), hd']

/-- Requests that do not mention a tag may follow. -/
theorem view_run_append_ne {id : String} (h : ∀ a ∈ l₂, id ∉ loop.ids a) :
    (runList loop.step (l₁ ++ l₂) d).2.view id = (runList loop.step l₁ d).2.view id := by
  rcases except_cases (runList loop.step l₁ d) with ⟨d₁, hok⟩ | ⟨e, d₁, herr⟩
  · rw [runList_append_ok hok, hok, loop.view_run_ne h]
  · rw [runList_append_error herr, herr]

/-- The exchanges of a run, from an intermediate state on. -/
theorem allNew_append (hok : runList loop.step l₁ d = (.ok (), d₁))
    (h : AllNew P d (runList loop.step (l₁ ++ l₂) d).2) :
    AllNew P d d₁ ∧ AllNew P d₁ (runList loop.step l₂ d₁).2 := by
  have hext := loop.extends_run l₁ d
  rw [hok] at hext
  rw [runList_append_ok hok] at h
  exact h.split hext (loop.extends_run l₂ d₁)

theorem allNew_left (h : AllNew P d (runList loop.step (l₁ ++ l₂) d).2) :
    AllNew P d (runList loop.step l₁ d).2 := by
  rcases except_cases (runList loop.step l₁ d) with ⟨d₁, hok⟩ | ⟨e, d₁, herr⟩
  · rw [hok]
    exact (loop.allNew_append hok h).1
  · rw [runList_append_error herr] at h
    rw [herr]
    exact h

/-- What holds of every exchange of a run holds of its first. -/
theorem allNew_head (h : AllNew P d (runList loop.step (a :: l) d).2) : P (loop.exchange a d) := by
  have htrace := loop.trace_step a d
  have hext := loop.extends_step a d
  rcases except_cases (loop.step a d) with ⟨d₁, hok⟩ | ⟨e, d₁, herr⟩
  · rw [hok] at htrace hext
    rw [runList_cons_ok hok] at h
    exact (h.split hext (loop.extends_run l d₁)).1.singleton htrace
  · rw [herr] at htrace
    rw [runList_cons_error herr] at h
    exact h.singleton htrace

theorem allNew_tail (hok : loop.step a d = (.ok (), d₁))
    (h : AllNew P d (runList loop.step (a :: l) d).2) : AllNew P d₁ (runList loop.step l d₁).2 := by
  have hext := loop.extends_step a d
  rw [hok] at hext
  rw [runList_cons_ok hok] at h
  exact (h.split hext (loop.extends_run l d₁)).2

/-- What holds of the exchange of every request holds of all exchanges. -/
theorem allNew_run (h : ∀ a ∈ l, ∀ d, P (loop.exchange a d)) (d : DriverState ξ σ) :
    AllNew P d (runList loop.step l d).2 := by
  induction l generalizing d with
  | nil => exact AllNew.of_trace_eq rfl
  | cons a as ih =>
      have hstep : AllNew P d (loop.step a d).2 :=
        AllNew.of_singleton (loop.trace_step a d) (h a (List.mem_cons_self ..) d)
      have hext := loop.extends_step a d
      rcases except_cases (loop.step a d) with ⟨d₁, hok⟩ | ⟨e, d₁, herr⟩
      · rw [hok] at hstep hext
        rw [runList_cons_ok hok]
        exact hstep.join hext (loop.extends_run as d₁) (ih (fun b hb => h b (List.mem_cons_of_mem a hb)) d₁)
      · rw [herr] at hstep
        rw [runList_cons_error herr]
        exact hstep

/-- If every exchange lets the loop go on, it comes to its end. -/
theorem run_ok (hgo : ∀ a ∈ l, ∀ d, P (loop.exchange a d) → (loop.step a d).1 = .ok ())
    (h : AllNew P d (runList loop.step l d).2) : ∃ d', runList loop.step l d = (.ok (), d') := by
  rcases except_cases (runList loop.step l d) with ⟨d', hok⟩ | ⟨e, d', herr⟩
  · exact ⟨d', hok⟩
  · obtain ⟨l₁, a, l₂, d₁, rfl, hrun, hstep⟩ := exists_failed_step herr
    have hgoes := hgo a (by simp) d₁ (loop.allNew_head (loop.allNew_append hrun h).2)
    rw [hstep] at hgoes
    exact absurd hgoes (by simp)

/-- Steps that leave a tag alone, one after the other. -/
theorem view_run_kept {id : String}
    (hkeep : ∀ a ∈ l, ∀ d₁ d₂, P (loop.exchange a d₁) → loop.step a d₁ = (.ok (), d₂) →
      d₂.view id = d₁.view id)
    (h : AllNew P d (runList loop.step l d).2) {d' : DriverState ξ σ}
    (hok : runList loop.step l d = (.ok (), d')) : d'.view id = d.view id := by
  induction l generalizing d with
  | nil =>
      obtain rfl := congrArg Prod.snd hok
      rfl
  | cons a as ih =>
      rcases except_cases (loop.step a d) with ⟨d₁, hstep⟩ | ⟨e, d₁, herr⟩
      · have htail := loop.allNew_tail hstep h
        rw [runList_cons_ok hstep] at hok
        rw [ih (fun b hb => hkeep b (List.mem_cons_of_mem a hb)) htail hok]
        exact hkeep a (List.mem_cons_self ..) d d₁ (loop.allNew_head h) hstep
      · rw [runList_cons_error herr] at hok
        exact absurd (congrArg Prod.fst hok) (by simp)

/-- The last step that settles a tag decides what the loop leaves in it. -/
theorem run_decided {id : String} {Q : DriverState ξ σ → Prop}
    (hcongr : ∀ d₁ d₂ : DriverState ξ σ, d₂.view id = d₁.view id → Q d₁ → Q d₂)
    (hsettle : ∀ d₁ d₂, Extends d d₁ → P (loop.exchange a d₁) → loop.step a d₁ = (.ok (), d₂) → Q d₂)
    (hkeep : ∀ b ∈ l₂, ∀ d₁ d₂, P (loop.exchange b d₁) → loop.step b d₁ = (.ok (), d₂) →
      d₂.view id = d₁.view id)
    (h : AllNew P d (runList loop.step (l₁ ++ a :: l₂) d).2) {d' : DriverState ξ σ}
    (hok : runList loop.step (l₁ ++ a :: l₂) d = (.ok (), d')) : Q d' := by
  obtain ⟨d₁, d₂, hbefore, hstep, hafter⟩ := runList_at_ok hok
  have hext := loop.extends_run l₁ d
  rw [hbefore] at hext
  have hrest := (loop.allNew_append hbefore h).2
  exact hcongr d₂ d' (loop.view_run_kept hkeep (loop.allNew_tail hstep hrest) hafter)
    (hsettle d₁ d₂ hext (loop.allNew_head hrest) hstep)

/-- A step that does not mention a tag leaves it alone. -/
theorem view_step_kept {id : String} (hid : id ∉ loop.ids a) {d₁ d₂ : DriverState ξ σ}
    (h : loop.step a d₁ = (.ok (), d₂)) : d₂.view id = d₁.view id := by
  have hview := loop.view_step_ne (d := d₁) hid
  rwa [h] at hview

/-- A loop makes a request for every element exactly when no step before the
    last one ends it. -/
theorem requests_run_iff {request : ξ → Option α}
    (hreq : ∀ a d, request (loop.exchange a d) = some a) {I : DriverState ξ σ → Prop} {Good : ξ → Prop}
    (hinv : ∀ a d, I d → I (loop.step a d).2)
    (hgood : ∀ a d, I d → P (loop.exchange a d) →
      ((loop.step a d).1 = .ok () ↔ Good (loop.exchange a d)))
    (hd : I d) (hP : AllNew P d (runList loop.step l d).2) :
    (d.exchanges (runList loop.step l d).2).filterMap request = l ↔
      ∀ i x, (d.exchanges (runList loop.step l d).2)[i]? = some x → i + 1 < l.length → Good x := by
  induction l generalizing d with
  | nil => simp [runList, DriverState.exchanges]
  | cons a as ih =>
      have hhead := hgood a d hd (loop.allNew_head hP)
      have htrace := loop.trace_step a d
      have hnext := hinv a d hd
      rcases except_cases (loop.step a d) with ⟨d₁, hok⟩ | ⟨e, d₁, herr⟩
      · have hrec := ih (by rw [hok] at hnext; exact hnext) (loop.allNew_tail hok hP)
        have hext := loop.extends_run as d₁
        rw [hok] at htrace hhead
        have hxs : d.exchanges (runList loop.step (a :: as) d).2 =
            loop.exchange a d :: d₁.exchanges (runList loop.step as d₁).2 := by
          apply DriverState.exchanges_eq
          rw [runList_cons_ok hok, DriverState.trace_eq_append_exchanges hext, htrace,
            List.append_assoc]
          rfl
        rw [hxs, List.filterMap_cons_some (hreq a d), List.cons_inj_right, hrec]
        constructor
        · rintro h (_ | i) x hx hi
          · obtain rfl := Option.some.inj hx
            exact hhead.mp rfl
          · exact h i x hx (by simpa using hi)
        · intro h i x hx hi
          exact h (i + 1) x hx (by simpa using hi)
      · rw [herr] at htrace hhead
        have hxs : d.exchanges (runList loop.step (a :: as) d).2 = [loop.exchange a d] := by
          apply DriverState.exchanges_eq
          rw [runList_cons_error herr, htrace]
        have hbad : ¬ Good (loop.exchange a d) := fun h => by simpa using hhead.mpr h
        rw [hxs, List.filterMap_cons_some (hreq a d), List.cons_inj_right]
        constructor
        · rintro h (_ | i) x hx hi
          · rw [← h] at hi
            exact absurd hi (by simp)
          · exact absurd hx (by simp)
        · intro h
          cases as with
          | nil => rfl
          | cons b bs => exact absurd (h 0 _ rfl (by simp)) hbad

end ReadLoop

end PlcBridge
