/-
  PlcBridge.Lib.Runs

  Loops with an early exit: a step over a list that passes a state along and
  stops at the first failure, keeping the state reached there.  Rules for
  invariants, for what only grows, and for locating the step that stopped.
-/
import Mathlib.Data.List.Basic
import Mathlib.Data.List.Forall2
import Mathlib.Data.List.Nodup
import Mathlib.Data.List.Pairwise
import Mathlib.Data.List.Sort

namespace PlcBridge.Lib

variable {α σ ε : Type*}

/-- Run `step` over a list; the first failure ends the run. -/
def runList (step : α → σ → Except ε Unit × σ) : List α → σ → Except ε Unit × σ
  | [], s => (.ok (), s)
  | a :: as, s =>
      match step a s with
      | (.ok (), s') => runList step as s'
      | (.error e, s') => (.error e, s')

/-- A sequence succeeds when both parts do. -/
theorem bind_eq_ok {α β : Type} {x : Except ε α} {f : α → Except ε β} {b : β} :
    (x >>= f) = .ok b ↔ ∃ a, x = .ok a ∧ f a = .ok b := by
  cases x <;> simp [bind, Except.bind]

theorem mapError_eq_ok {α ε' : Type*} {x : Except ε α} {f : ε → ε'} {a : α} :
    x.mapError f = .ok a ↔ x = .ok a := by
  cases x <;> simp [Except.mapError]

/-- A traversal succeeds exactly when every item does. -/
theorem forM_eq_ok {f : α → Except ε Unit} {l : List α} :
    l.forM f = .ok () ↔ ∀ a ∈ l, f a = .ok () := by
  induction l with
  | nil => simp [pure, Except.pure]
  | cons a as ih =>
      show (f a >>= fun _ => as.forM f) = _ ↔ _
      rw [List.forall_mem_cons, ← ih]
      cases f a with
      | error e => simp [bind, Except.bind]
      | ok u => simp [bind, Except.bind]

/-- A conversion of a list succeeds when that of every item does. -/
theorem forall₂_of_mapM_eq_ok {α β : Type} {f : α → Except ε β} {l : List α} {r : List β}
    (h : l.mapM f = .ok r) : List.Forall₂ (fun a b => f a = .ok b) l r := by
  induction l generalizing r with
  | nil =>
      rw [List.mapM_nil] at h
      obtain rfl := Except.ok.inj h
      exact .nil
  | cons a as ih =>
      rw [List.mapM_cons] at h
      obtain ⟨b, hb, h⟩ := bind_eq_ok.mp h
      obtain ⟨bs, hbs, h⟩ := bind_eq_ok.mp h
      obtain rfl := Except.ok.inj h
      exact .cons hb (ih hbs)

/-- What each step of a fold establishes for one more item holds at its end. -/
theorem foldlM_invariant {α β : Type} {f : β → α → Except ε β} {I : List α → β → Prop}
    (hstep : ∀ done a b b', I done b → f b a = .ok b' → I (done ++ [a]) b') {l done : List α} {b b' : β}
    (hinit : I done b) (h : l.foldlM f b = .ok b') : I (done ++ l) b' := by
  induction l generalizing done b with
  | nil =>
      rw [List.foldlM_nil] at h
      obtain rfl := Except.ok.inj h
      rwa [List.append_nil]
  | cons a as ih =>
      rw [List.foldlM_cons] at h
      obtain ⟨b₁, hb₁, h⟩ := bind_eq_ok.mp h
      have hnext := ih (hstep done a b b₁ hinit hb₁) h
      rwa [List.append_assoc, List.singleton_append] at hnext

/-- Lists of labels without repetition: a label belongs to one item. -/
theorem index_unique_of_nodup {β : Type*} {labels : α → List β} {l : List α}
    (h : (l.flatMap labels).Nodup) {i j : Nat} {a b : α} (hi : l[i]? = some a) (hj : l[j]? = some b)
    {x : β} (ha : x ∈ labels a) (hb : x ∈ labels b) : i = j := by
  have hdisj := (List.nodup_flatMap.mp h).2
  rw [List.pairwise_iff_getElem] at hdisj
  obtain ⟨hilt, rfl⟩ := List.getElem?_eq_some_iff.mp hi
  obtain ⟨hjlt, rfl⟩ := List.getElem?_eq_some_iff.mp hj
  rcases Nat.lt_trichotomy i j with hij | hij | hij
  · exact absurd hb (hdisj i j hilt hjlt hij ha)
  · exact hij
  · exact absurd ha (hdisj j i hjlt hilt hij hb)

/-- An item of a list in which one was replaced. -/
theorem getElem?_set_cases {l : List α} {i j : Nat} {a b x : α} (hi : l[i]? = some a)
    (hj : (l.set i b)[j]? = some x) : (i = j ∧ x = b) ∨ l[j]? = some x := by
  have hlt : i < l.length := (List.getElem?_eq_some_iff.mp hi).1
  by_cases hij : i = j
  · subst hij
    rw [List.getElem?_set_self hlt] at hj
    exact .inl ⟨rfl, (Option.some.inj hj).symm⟩
  · rw [List.getElem?_set_ne hij] at hj
    exact .inr hj

theorem getElem?_concat_cases {l : List α} {i : Nat} {b x : α} (h : (l ++ [b])[i]? = some x) :
    l[i]? = some x ∨ (i = l.length ∧ x = b) := by
  rcases Nat.lt_or_ge i l.length with hlt | hge
  · rw [List.getElem?_append_left hlt] at h
    exact .inl h
  · have hlen := (List.getElem?_eq_some_iff.mp h).1
    rw [List.length_append, List.length_singleton] at hlen
    rw [List.getElem?_append_right hge] at h
    exact .inr ⟨by omega, List.mem_singleton.mp (List.mem_of_getElem? h)⟩

theorem getElem?_modify_cases {l : List α} {f : α → α} {i j : Nat} {x : α}
    (h : (l.modify i f)[j]? = some x) :
    l[j]? = some x ∨ ∃ y, l[j]? = some y ∧ i = j ∧ x = f y := by
  rw [List.getElem?_modify] at h
  obtain ⟨y, hy, rfl⟩ := Option.map_eq_some_iff.mp h
  split
  · rename_i hij
    exact .inr ⟨y, hy, hij, rfl⟩
  · exact .inl hy

theorem getElem?_of_forall₂ {β : Type*} {R : α → β → Prop} {l : List α} {r : List β}
    (h : List.Forall₂ R l r) {i : Nat} {a : α} (ha : l[i]? = some a) : ∃ b, r[i]? = some b ∧ R a b := by
  induction h generalizing i with
  | nil => exact absurd ha (by simp)
  | cons hab _ ih =>
      cases i with
      | zero =>
          obtain rfl := Option.some.inj ha
          exact ⟨_, rfl, hab⟩
      | succ i => exact ih ha

theorem exists_mem_of_forall₂ {β : Type*} {R : α → β → Prop} {l : List α} {r : List β}
    (h : List.Forall₂ R l r) {a : α} (ha : a ∈ l) : ∃ b ∈ r, R a b := by
  obtain ⟨i, hi⟩ := List.mem_iff_getElem?.mp ha
  obtain ⟨b, hb, hab⟩ := getElem?_of_forall₂ h hi
  exact ⟨b, List.mem_of_getElem? hb, hab⟩

theorem map_eq_of_forall₂ {β γ : Type*} {f : α → γ} {g : β → γ} {l : List α} {r : List β}
    (h : List.Forall₂ (fun a b => f a = g b) l r) : l.map f = r.map g := by
  rw [← List.forall₂_eq_eq_eq, List.forall₂_map_left_iff, List.forall₂_map_right_iff]
  exact h

/-- The last element with a property splits a list. -/
theorem exists_last_split {p : α → Prop} {l : List α} (h : ∃ a ∈ l, p a) :
    ∃ l₁ a l₂, l = l₁ ++ a :: l₂ ∧ p a ∧ ∀ b ∈ l₂, ¬ p b := by
  induction l with
  | nil =>
      obtain ⟨a, ha, -⟩ := h
      exact absurd ha (List.not_mem_nil)
  | cons x xs ih =>
      by_cases hxs : ∃ a ∈ xs, p a
      · obtain ⟨l₁, a, l₂, rfl, ha, hl₂⟩ := ih hxs
        exact ⟨x :: l₁, a, l₂, rfl, ha, hl₂⟩
      · obtain ⟨a, ha, hpa⟩ := h
        rcases List.mem_cons.mp ha with rfl | ha
        · exact ⟨[], a, xs, rfl, hpa, fun b hb hpb => hxs ⟨b, hb, hpb⟩⟩
        · exact absurd ⟨a, ha, hpa⟩ hxs

/-- A search by key finds the item when keys are distinct. -/
theorem find?_eq_of_nodup {κ : Type*} [DecidableEq κ] {key : α → κ} {l : List α}
    (h : (l.map key).Nodup) {a : α} (ha : a ∈ l) : l.find? (fun b => key b = key a) = some a := by
  have hsome : (l.find? fun b => key b = key a).isSome := List.find?_isSome.mpr ⟨a, ha, by simp⟩
  obtain ⟨b, hb⟩ := Option.isSome_iff_exists.mp hsome
  have hkey : key b = key a := by simpa using List.find?_some hb
  rw [hb, List.inj_on_of_nodup_map h (List.mem_of_find?_eq_some hb) ha hkey]

/-- Of lists that each carry their own key, joined, one key selects one list. -/
theorem filter_flatMap_of_key {κ β : Type*} [DecidableEq κ] {f : κ → List β} {key : β → κ}
    {l : List κ} (hnodup : l.Nodup) {k : κ} (hk : k ∈ l) (hkey : ∀ k' b, b ∈ f k' → key b = k') :
    (l.flatMap f).filter (fun b => key b = k) = f k := by
  have hself : (f k).filter (fun b => key b = k) = f k := by
    rw [List.filter_eq_self]
    intro b hb
    simpa using hkey k b hb
  have hother : ∀ l' : List κ, k ∉ l' → (l'.flatMap f).filter (fun b => key b = k) = [] := by
    intro l' hl'
    rw [List.filter_eq_nil_iff]
    intro b hb
    obtain ⟨k', hk', hb⟩ := List.mem_flatMap.mp hb
    rw [hkey k' b hb]
    simp only [decide_eq_true_eq]
    rintro rfl
    exact hl' hk'
  obtain ⟨l₁, l₂, rfl⟩ := List.append_of_mem hk
  rw [List.nodup_append, List.nodup_cons] at hnodup
  rw [List.flatMap_append, List.flatMap_cons, List.filter_append, List.filter_append, hself,
    hother l₁ (fun h => hnodup.2.2 k h k (List.mem_cons_self ..) rfl), hother l₂ hnodup.2.1.1,
    List.append_nil, List.nil_append]

/-- The lists `f` gives for the items, one behind the other; `none` as soon as
    one of them is. -/
def gather {β : Type*} (f : α → Option (List β)) : List α → Option (List β)
  | [] => some []
  | a :: as => (f a).bind fun bs => (gather f as).map (bs ++ ·)

theorem gather_eq_some {β : Type*} {f : α → Option (List β)} {l : List α} {r : List β}
    (h : gather f l = some r) :
    (∀ a ∈ l, ∃ bs, f a = some bs) ∧ r = l.flatMap fun a => (f a).getD [] := by
  induction l generalizing r with
  | nil =>
      obtain rfl := Option.some.inj h
      exact ⟨fun a ha => absurd ha (List.not_mem_nil), rfl⟩
  | cons a as ih =>
      obtain ⟨bs, hbs, hrest⟩ := Option.bind_eq_some_iff.mp h
      obtain ⟨r', hr', rfl⟩ := Option.map_eq_some_iff.mp hrest
      obtain ⟨hall, rfl⟩ := ih hr'
      refine ⟨?_, by rw [List.flatMap_cons, hbs, Option.getD_some]⟩
      intro a' ha'
      rcases List.mem_cons.mp ha' with rfl | ha'
      · exact ⟨bs, hbs⟩
      · exact hall a' ha'

/-- What another function gives at least where `f` does. -/
theorem gather_mono {β : Type*} {f g : α → Option (List β)} {l : List α} {r : List β}
    (h : gather f l = some r) (hfg : ∀ a r, f a = some r → g a = some r) : gather g l = some r := by
  induction l generalizing r with
  | nil => exact h
  | cons a as ih =>
      obtain ⟨bs, hbs, hrest⟩ := Option.bind_eq_some_iff.mp h
      obtain ⟨r', hr', rfl⟩ := Option.map_eq_some_iff.mp hrest
      rw [gather, hfg a bs hbs, ih hr']
      rfl

theorem gather_isSome {β : Type*} {f : α → Option (List β)} {l : List α}
    (h : ∀ a ∈ l, ∃ bs, f a = some bs) : ∃ r, gather f l = some r := by
  induction l with
  | nil => exact ⟨[], rfl⟩
  | cons a as ih =>
      obtain ⟨bs, hbs⟩ := h a (List.mem_cons_self ..)
      obtain ⟨r, hr⟩ := ih fun a' ha' => h a' (List.mem_cons_of_mem a ha')
      rw [gather, hbs, hr]
      exact ⟨bs ++ r, rfl⟩

/-- In a sorted list, a relation that only gets easier further on holds of
    neighbours exactly when it holds of all pairs. -/
theorem isChain_iff_pairwise_of_sorted {R S : α → α → Prop} (hRS : ∀ a b c, R a b → S b c → R a c)
    {l : List α} (hsorted : l.Pairwise S) : l.IsChain R ↔ l.Pairwise R := by
  refine ⟨?_, List.Pairwise.isChain⟩
  intro hchain
  induction l with
  | nil => exact List.Pairwise.nil
  | cons x xs ih =>
      rw [List.pairwise_cons] at hsorted ⊢
      refine ⟨?_, ih hsorted.2 hchain.of_cons⟩
      intro y hy
      cases xs with
      | nil => exact absurd hy (List.not_mem_nil)
      | cons z zs =>
          have hxz := (List.isChain_cons_cons.mp hchain).1
          rcases List.mem_cons.mp hy with rfl | hy
          · exact hxz
          · exact hRS x z y hxz ((List.pairwise_cons.mp hsorted.2).1 y hy)

/-- In a sorted chain, two different items are related one way or the
    other. -/
theorem related_of_isChain {R S : α → α → Prop} (hRS : ∀ {a b c}, R a b → S b c → R a c)
    {l : List α} (hchain : l.IsChain R) (hsorted : l.Pairwise S) {a b : α} (ha : a ∈ l) (hb : b ∈ l)
    (hne : a ≠ b) : R a b ∨ R b a := by
  have hpair : l.Pairwise fun a b => R a b ∨ R b a := by
    have hall := (isChain_iff_pairwise_of_sorted (fun a b c => @hRS a b c) hsorted).mp hchain
    refine hall.imp ?_
    intro a b hab
    exact .inl hab
  have : Std.Symm fun a b => R a b ∨ R b a := ⟨fun _ _ => Or.symm⟩
  exact hpair.forall ha hb hne

/-- In a list of groups whose members have different labels, the label of a
    member of one group occurs in no other. -/
theorem exists_split_of_nodup {β γ : Type*} {groups : List γ} {labels : γ → List β}
    (hnodup : (groups.flatMap labels).Nodup) {g : γ} (hg : g ∈ groups) {b : β} (hb : b ∈ labels g) :
    ∃ l₁ l₂, groups = l₁ ++ g :: l₂ ∧ ∀ g' ∈ l₁ ++ l₂, b ∉ labels g' := by
  obtain ⟨l₁, l₂, rfl⟩ := List.append_of_mem hg
  rw [List.flatMap_append, List.flatMap_cons, List.nodup_append, List.nodup_append] at hnodup
  obtain ⟨-, ⟨-, -, hafter⟩, hbefore⟩ := hnodup
  refine ⟨l₁, l₂, rfl, ?_⟩
  intro g' hg' hmem
  rcases List.mem_append.mp hg' with h | h
  · exact hbefore b (List.mem_flatMap.mpr ⟨g', h, hmem⟩) b (List.mem_append_left _ hb) rfl
  · exact hafter b hb b (List.mem_flatMap.mpr ⟨g', h, hmem⟩) rfl

variable {step : α → σ → Except ε Unit × σ}

theorem runList_cons_ok {a : α} {as : List α} {s s' : σ} (h : step a s = (.ok (), s')) :
    runList step (a :: as) s = runList step as s' := by
  rw [runList, h]

theorem runList_cons_error {a : α} {as : List α} {s s' : σ} {e : ε}
    (h : step a s = (.error e, s')) : runList step (a :: as) s = (.error e, s') := by
  rw [runList, h]

/-- A result is a success or a failure, with the state reached. -/
theorem except_cases (r : Except ε Unit × σ) :
    (∃ s, r = (.ok (), s)) ∨ ∃ e s, r = (.error e, s) := by
  obtain ⟨r, s⟩ := r
  cases r with
  | ok u => exact .inl ⟨s, rfl⟩
  | error e => exact .inr ⟨e, s, rfl⟩

/-- What every step keeps, a run keeps, however it ends. -/
theorem runList_invariant {I : σ → Prop} {l : List α}
    (hstep : ∀ a ∈ l, ∀ s, I s → I (step a s).2) {s : σ} (h : I s) : I (runList step l s).2 := by
  induction l generalizing s with
  | nil => exact h
  | cons a as ih =>
      have hs := hstep a (List.mem_cons_self ..) s h
      have htail : ∀ a' ∈ as, ∀ s, I s → I (step a' s).2 := by
        intro a' ha'
        exact hstep a' (List.mem_cons_of_mem a ha')
      rcases except_cases (step a s) with ⟨s', hok⟩ | ⟨e, s', herr⟩
      · rw [hok] at hs
        rw [runList_cons_ok hok]
        exact ih htail hs
      · rw [herr] at hs
        rw [runList_cons_error herr]
        exact hs

/-- Steps related by a preorder give a run related by it. -/
theorem runList_rel {R : σ → σ → Prop} (hrefl : ∀ s, R s s)
    (htrans : ∀ {s₁ s₂ s₃}, R s₁ s₂ → R s₂ s₃ → R s₁ s₃) {l : List α}
    (hstep : ∀ a ∈ l, ∀ s, R s (step a s).2) (s : σ) : R s (runList step l s).2 := by
  apply runList_invariant (I := R s) (h := hrefl s)
  intro a ha s' hs'
  exact htrans hs' (hstep a ha s')

theorem runList_append_ok {l₁ l₂ : List α} {s s' : σ} (h : runList step l₁ s = (.ok (), s')) :
    runList step (l₁ ++ l₂) s = runList step l₂ s' := by
  induction l₁ generalizing s with
  | nil =>
      obtain rfl := congrArg Prod.snd h
      rfl
  | cons a as ih =>
      rw [List.cons_append]
      rcases except_cases (step a s) with ⟨s₁, hok⟩ | ⟨e, s₁, herr⟩
      · rw [runList_cons_ok hok] at h ⊢
        exact ih h
      · rw [runList_cons_error herr] at h
        exact absurd (congrArg Prod.fst h) (by simp)

theorem runList_append_error {l₁ l₂ : List α} {s s' : σ} {e : ε}
    (h : runList step l₁ s = (.error e, s')) : runList step (l₁ ++ l₂) s = (.error e, s') := by
  induction l₁ generalizing s with
  | nil => exact absurd (congrArg Prod.fst h) (by simp [runList])
  | cons a as ih =>
      rw [List.cons_append]
      rcases except_cases (step a s) with ⟨s₁, hok⟩ | ⟨e', s₁, herr⟩
      · rw [runList_cons_ok hok] at h ⊢
        exact ih h
      · rw [runList_cons_error herr] at h ⊢
        exact h

/-- A run that does not stop with an error does not do so in its first
    part. -/
theorem runList_ne_error_left {l₁ l₂ : List α} {s : σ} {e : ε}
    (h : (runList step (l₁ ++ l₂) s).1 ≠ .error e) : (runList step l₁ s).1 ≠ .error e := by
  rcases except_cases (runList step l₁ s) with ⟨s', hok⟩ | ⟨e', s', herr⟩
  · rw [hok]
    exact fun h => nomatch h
  · rw [runList_append_error herr] at h
    rw [herr]
    exact h

/-- The run around one of its items: it fails before the item, or reaches
    it. -/
theorem runList_at (step : α → σ → Except ε Unit × σ) (l₁ l₂ : List α) (a : α) (s : σ) :
    (∃ e s', runList step l₁ s = (.error e, s') ∧ runList step (l₁ ++ a :: l₂) s = (.error e, s')) ∨
    ∃ s₀, runList step l₁ s = (.ok (), s₀) ∧
      ((∃ e s', step a s₀ = (.error e, s') ∧ runList step (l₁ ++ a :: l₂) s = (.error e, s')) ∨
       ∃ s₁, step a s₀ = (.ok (), s₁) ∧ runList step (l₁ ++ a :: l₂) s = runList step l₂ s₁) := by
  rcases except_cases (runList step l₁ s) with ⟨s₀, h⟩ | ⟨e, s', h⟩
  · refine .inr ⟨s₀, h, ?_⟩
    rw [runList_append_ok h]
    rcases except_cases (step a s₀) with ⟨s₁, ha⟩ | ⟨e, s', ha⟩
    · exact .inr ⟨s₁, ha, runList_cons_ok ha⟩
    · exact .inl ⟨e, s', ha, runList_cons_error ha⟩
  · exact .inl ⟨e, s', h, runList_append_error h⟩

/-- A run that goes through, around one item. -/
theorem runList_at_ok {l₁ l₂ : List α} {a : α} {s s' : σ}
    (h : runList step (l₁ ++ a :: l₂) s = (.ok (), s')) :
    ∃ s₀ s₁, runList step l₁ s = (.ok (), s₀) ∧ step a s₀ = (.ok (), s₁) ∧
      runList step l₂ s₁ = (.ok (), s') := by
  obtain ⟨e, s₀, -, herr⟩ | ⟨s₀, hok, ⟨e, s₁, -, herr⟩ | ⟨s₁, hstep, hrest⟩⟩ :=
    runList_at step l₁ l₂ a s
  · rw [herr] at h
    exact absurd (congrArg Prod.fst h) (by simp)
  · rw [herr] at h
    exact absurd (congrArg Prod.fst h) (by simp)
  · exact ⟨s₀, s₁, hok, hstep, hrest.symm.trans h⟩

/-- A run that failed failed at one of its items. -/
theorem exists_failed_step {l : List α} {s s' : σ} {e : ε}
    (h : runList step l s = (.error e, s')) :
    ∃ l₁ a l₂ s₀, l = l₁ ++ a :: l₂ ∧ runList step l₁ s = (.ok (), s₀) ∧
      step a s₀ = (.error e, s') := by
  induction l generalizing s with
  | nil => exact absurd (congrArg Prod.fst h) (by simp [runList])
  | cons a as ih =>
      rcases except_cases (step a s) with ⟨s₁, hok⟩ | ⟨e', s₁, herr⟩
      · rw [runList_cons_ok hok] at h
        obtain ⟨l₁, a', l₂, s₀, rfl, hrun, hstep⟩ := ih h
        exact ⟨a :: l₁, a', l₂, s₀, rfl, by rw [runList_cons_ok hok, hrun], hstep⟩
      · rw [runList_cons_error herr] at h
        exact ⟨[], a, as, s, rfl, rfl, herr.trans h⟩

-- ============================================================================
-- Increasing lists
-- ============================================================================

/-- Of two increasing lists of numbers the one with fewer members is part of
    the other. -/
theorem sublist_of_increasing {l l' : List Nat} (hl : l.Pairwise (· < ·)) (hl' : l'.Pairwise (· < ·))
    (h : l ⊆ l') : l.Sublist l' :=
  List.sublist_of_subperm_of_pairwise (r := (· ≤ ·)) (List.subperm_of_subset hl.nodup h)
    (hl.imp Nat.le_of_lt) (hl'.imp Nat.le_of_lt)

/-- Earlier members come earlier. -/
theorem idxOf_lt_of_lt {l : List Nat} (hl : l.Pairwise (· < ·)) {a b : Nat} (ha : a ∈ l) (hb : b ∈ l)
    (hab : a < b) : l.idxOf a < l.idxOf b := by
  by_contra hle
  rw [not_lt] at hle
  rw [List.pairwise_iff_getElem] at hl
  have hia := List.idxOf_lt_length_of_mem ha
  have hib := List.idxOf_lt_length_of_mem hb
  rcases Nat.lt_or_eq_of_le hle with hlt | heq
  · have := hl _ _ hib hia hlt
    rw [List.getElem_idxOf hib, List.getElem_idxOf hia] at this
    omega
  · have := List.idxOf_inj hb |>.mp heq
    omega

end PlcBridge.Lib
