/-
  PlcBridge.Bridge.Growth

  What no step of the system takes back: what a call asked for, whom a oneshot
  channel was made for, what a device acknowledged, and the definitions of the
  tags.
-/
import PlcBridge.Bridge.System

namespace PlcBridge.Bridge

open PlcBridge.Lib PlcBridge.Runtime

/-- Call `n` gave the bridge value `v` for `tagId`. -/
def Sys.Asks (s : Sys) (n : Nat) (tagId : String) (v : TagValue) : Prop :=
  ∃ c, s.calls[n]? = some c ∧ c.tagId = tagId ∧ c.value = some v

/-- The tag exists, is writable, and the value is of its type. -/
def Permitted (registry : TagRegistry) (tagId : String) (v : TagValue) : Prop :=
  ∃ d, registry.getDefinition tagId = .ok d ∧ d.writable ∧ v.dataType = d.dataType

/-- `s'` comes after `s`. -/
structure Grows (s s' : Sys) : Prop where
  asks : ∀ {n tagId v}, s.Asks n tagId v → s'.Asks n tagId v
  owners : s.owners <+: s'.owners
  drivers : ∀ {i : Nat} {d : Driver}, s.drivers[i]? = some d → ∃ d', s'.drivers[i]? = some d' ∧
    ∀ req, d.Delivered req → d'.Delivered req
  registry : ∃ ops, s'.registry = s.registry.run ops

namespace Sys

variable {s : Sys} {n : Nat} {tagId : String} {v : TagValue}

theorem asks_append (h : s.Asks n tagId v) (c : ClientCall) : ∃ c',
    (s.calls ++ [c])[n]? = some c' ∧ c'.tagId = tagId ∧ c'.value = some v := by
  obtain ⟨c', hc', h⟩ := h
  have hlt : n < s.calls.length := (List.getElem?_eq_some_iff.mp hc').1
  exact ⟨c', by rw [List.getElem?_append_left hlt, hc'], h⟩

/-- Replies and results do not change what was asked. -/
theorem asks_modify {f : ClientCall → ClientCall} (hid : ∀ c, (f c).tagId = c.tagId)
    (hvalue : ∀ c, (f c).value = c.value) (h : s.Asks n tagId v) (m : Nat) : ∃ c',
    (s.calls.modify m f)[n]? = some c' ∧ c'.tagId = tagId ∧ c'.value = some v := by
  obtain ⟨c, hc, hctag, hcvalue⟩ := h
  rw [List.getElem?_modify, hc]
  refine ⟨_, rfl, ?_, ?_⟩
  · simp only
    split
    · rw [hid, hctag]
    · exact hctag
  · simp only
    split
    · rw [hvalue, hcvalue]
    · exact hcvalue

theorem asks_finishCall (h : s.Asks n tagId v) (m : Nat) (ok : Bool) :
    (s.finishCall m ok).Asks n tagId v := by
  refine asks_modify ?_ ?_ h m
  · exact fun _ => rfl
  · exact fun _ => rfl

theorem asks_deliverResult (h : s.Asks n tagId v) (bw : BridgeWrite) (result : Except ServerError Unit) :
    ∃ c, (s.deliverResult bw result)[n]? = some c ∧ c.tagId = tagId ∧ c.value = some v := by
  unfold deliverResult
  split
  · exact h
  · refine asks_modify ?_ ?_ h _
    · exact fun _ => rfl
    · exact fun _ => rfl

end Sys

namespace Grows

variable {ok : Nat → Turn → Prop} {routing : String → Option Nat} {s s' : Sys}

/-- Steps that leave drivers and registry alone. -/
theorem of_calls (hasks : ∀ {n tagId v}, s.Asks n tagId v → s'.Asks n tagId v)
    (howners : s.owners <+: s'.owners) (hdrivers : s'.drivers = s.drivers)
    (hregistry : s'.registry = s.registry) : Grows s s' where
  asks := hasks
  owners := howners
  drivers := fun hd => ⟨_, by rw [hdrivers]; exact hd, fun _ h => h⟩
  registry := ⟨[], hregistry⟩

theorem delivered_enqueue (d : Driver) (req req' : WriteRequest) :
    (d.enqueue req).Delivered req' ↔ d.Delivered req' := by
  cases d <;> rfl

/-- One driver is replaced by a later state of it. -/
theorem drivers_set {i : Nat} {d d₁ : Driver} (hd : s.drivers[i]? = some d)
    (hlater : ∀ req, d.Delivered req → d₁.Delivered req) {j : Nat} {d₂ : Driver}
    (hj : s.drivers[j]? = some d₂) : ∃ d', (s.drivers.set i d₁)[j]? = some d' ∧
      ∀ req, d₂.Delivered req → d'.Delivered req := by
  have hlt : i < s.drivers.length := (List.getElem?_eq_some_iff.mp hd).1
  by_cases hij : i = j
  · subst hij
    rw [hd] at hj
    obtain rfl := Option.some.inj hj
    exact ⟨d₁, by simp [hlt], hlater⟩
  · exact ⟨d₂, by rw [List.getElem?_set_ne hij, hj], fun _ h => h⟩

theorem of_moves (h : Moves ok routing s s') : Grows s s' := by
  cases h with
  | refuse => exact of_calls (fun h => Sys.asks_append h _) (List.prefix_refl _) rfl rfl
  | submit => exact of_calls (fun h => Sys.asks_append h _) (List.prefix_refl _) rfl rfl
  | succeed _ _ =>
      exact of_calls (fun h => Sys.asks_finishCall h _ _) (List.prefix_refl _) rfl rfl
  | giveUp _ =>
      exact of_calls (fun h => Sys.asks_finishCall h _ _) (List.prefix_refl _) rfl rfl
  | reject _ _ => exact of_calls id (List.prefix_refl _) rfl rfl
  | route _ _ _ _ => exact of_calls id (List.prefix_append _ _) rfl rfl
  | enqueue _ hd =>
      exact ⟨id, List.prefix_refl _,
        drivers_set hd fun req h => (delivered_enqueue _ _ req).mpr h, ⟨[], rfl⟩⟩
  | failSend _ => exact of_calls id (List.prefix_refl _) rfl rfl
  | failConfirm _ => exact of_calls id (List.prefix_refl _) rfl rfl
  | confirm _ _ _ => exact of_calls id (List.prefix_refl _) rfl rfl
  | answer _ => exact of_calls (fun h => Sys.asks_deliverResult h _ _) (List.prefix_refl _) rfl rfl
  | stop _ => exact of_calls id (List.prefix_refl _) rfl rfl
  | turn t _ hd hturn =>
      have hadv := Driver.advances_turn hturn
      exact ⟨id, List.prefix_refl _, drivers_set hd hadv.delivered, hadv.registry⟩
  | update op => exact ⟨id, List.prefix_refl _, fun hd => ⟨_, hd, fun _ h => h⟩, ⟨[op], rfl⟩⟩

-- ----------------------------------------------------------------------------
-- What stays true
-- ----------------------------------------------------------------------------

theorem owner (h : Grows s s') {k n : Nat} (hk : s.owners[k]? = some n) : s'.owners[k]? = some n := by
  obtain ⟨rest, hrest⟩ := h.owners
  have hlt : k < s.owners.length := (List.getElem?_eq_some_iff.mp hk).1
  rw [← hrest, List.getElem?_append_left hlt, hk]

theorem permitted (h : Grows s s') {tagId : String} {v : TagValue} (hp : Permitted s.registry tagId v) :
    Permitted s'.registry tagId v := by
  obtain ⟨ops, hops⟩ := h.registry
  rw [Permitted, TagRegistry.getDefinition, hops, TagRegistry.definitions_run]
  exact hp

end Grows

end PlcBridge.Bridge
