/-
  PlcBridge.Runtime.WriteHandler

  The checks `RuntimeWriteHandler::handle_write` makes before it routes a write
  (runtime/src/write_handler.rs).

  The new value is compared with the runtime tag's current value, not with the
  definition.  Because the registry keeps every value at its definition's data
  type, whatever updates it sees, this accepts exactly the values of that type.
-/
import PlcBridge.CoreModel.Registry

namespace PlcBridge

/-- Errors surfaced by the OPC UA server crate. -/
inductive ServerError where
  | io (msg : String)
  | config (msg : String)
  | backend (msg : String)
  | badRequest (msg : String)
  | other (msg : String)
deriving DecidableEq, Repr

/-- The `Display` text of an error. -/
def ServerError.display : ServerError → String
  | .io msg => "IO error: " ++ msg
  | .config msg => "Configuration error: " ++ msg
  | .backend msg => "OPC UA backend error: " ++ msg
  | .badRequest msg => "Invalid request: " ++ msg
  | .other msg => "Other: " ++ msg

namespace Runtime

/-- The `matches!` over the current and the new value. -/
def sameVariant : TagValue → TagValue → Bool
  | .bool _, .bool _
  | .int16 _, .int16 _
  | .uint16 _, .uint16 _
  | .int32 _, .int32 _
  | .uint32 _, .uint32 _
  | .int64 _, .int64 _
  | .uint64 _, .uint64 _
  | .float _, .float _
  | .double _, .double _
  | .string _, .string _
  | .dateTime _, .dateTime _
  | .byteString _, .byteString _ => true
  | _, _ => false

theorem sameVariant_iff (a b : TagValue) : sameVariant a b = true ↔ b.dataType = a.dataType := by
  cases a <;> cases b <;> simp [sameVariant, TagValue.dataType]

/-- Validate a write against the runtime tag and its definition. -/
def validateWrite (registry : TagRegistry) (tagId : String) (value : TagValue) :
    Except ServerError Unit :=
  match registry.tags.get tagId with
  | .error e => .error (.other ("Runtime tag not found " ++ tagId ++ ": " ++ e.display))
  | .ok tag =>
      if !sameVariant tag.value value then .error (.other ("Type mismatch for tag " ++ tagId))
      else
        match registry.getDefinition tagId with
        | .error _ => .error (.other ("Tag definition not found for " ++ tagId))
        | .ok d =>
            if !d.writable then .error (.other ("Tag " ++ tagId ++ " is not writable")) else .ok ()

variable {r : TagRegistry} {tagId : String} {v : TagValue}

/-- In a consistent registry a value of the current variant is a value of the
    definition's data type. -/
theorem sameVariant_iff_matches (h : r.Consistent) {t : Tag} {d : TagDefinition}
    (ht : r.getTag tagId = .ok t) (hd : r.getDefinition tagId = .ok d) :
    sameVariant t.value v = true ↔ v.matches d.dataType = true := by
  have htyped : t.value.dataType = d.dataType :=
    h.typed (TagRegistry.getTag_eq_ok.mp ht) (TagRegistry.dataType?_eq_some.mpr ⟨d, hd, rfl⟩)
  rw [sameVariant_iff, htyped, TagValue.matches, decide_eq_true_iff]

/-- Both stores know the same ids. -/
theorem getTag_iff_getDefinition (h : r.Consistent) :
    (∃ t, r.getTag tagId = .ok t) ↔ ∃ d, r.getDefinition tagId = .ok d := by
  rw [TagRegistry.getTag_isOk_iff, h.ids]
  simp only [TagRegistry.getDefinition, TagDefinitionStore.get_eq_ok]
  rw [← AList.lookup_isSome, Option.isSome_iff_exists]

/-- A write is let through exactly when the tag is defined, writable and of
    the value's type. -/
theorem validateWrite_eq_ok (h : r.Consistent) :
    validateWrite r tagId v = .ok () ↔
      ∃ d, r.getDefinition tagId = .ok d ∧ d.writable ∧ v.dataType = d.dataType := by
  have hiff := @getTag_iff_getDefinition r tagId h
  rw [validateWrite]
  cases ht : r.tags.get tagId with
  | error e =>
      have hno : ¬ ∃ t, r.getTag tagId = .ok t := by
        rintro ⟨t, htag⟩
        rw [TagRegistry.getTag, ht] at htag
        exact absurd htag (by simp)
      refine ⟨fun habs => absurd habs (by simp), ?_⟩
      rintro ⟨d, hd, -⟩
      exact absurd (hiff.mpr ⟨d, hd⟩) hno
  | ok t =>
      obtain ⟨d, hd⟩ := hiff.mp ⟨t, ht⟩
      have hmatch := @sameVariant_iff_matches r tagId v h t d ht hd
      rw [TagValue.matches, decide_eq_true_iff] at hmatch
      have hunique : (∃ d', r.getDefinition tagId = .ok d' ∧ d'.writable ∧ v.dataType = d'.dataType) ↔
          d.writable ∧ v.dataType = d.dataType := by
        simp [hd]
      rw [hunique, ← hmatch, hd]
      cases hs : sameVariant t.value v <;> cases hw : d.writable <;> simp [hs, hw]

/-- For a registry built from definitions and changed by any sequence of value
    and quality updates: both stores have the same ids, listed in the same
    order; every value has its definition's type; a failing call changes
    nothing, in any registry; and the handler's comparison with the current
    value is the comparison with the definition. -/
theorem registry_types_agree {clock : Nat → DateTime} {defs : List TagDefinition} {r₀ : TagRegistry}
    (h : TagRegistry.fromDefinitions clock defs = .ok r₀) (ops : List TagRegistry.Op) :
    (∀ id, (∃ t, (r₀.run ops).getTag id = .ok t) ↔ ∃ d, (r₀.run ops).getDefinition id = .ok d) ∧
    (r₀.run ops).listIdsSorted = (r₀.run ops).allDefinitionsSorted.map TagDefinition.id ∧
    (∀ id t d, (r₀.run ops).getTag id = .ok t → (r₀.run ops).getDefinition id = .ok d →
      t.value.dataType = d.dataType) ∧
    (∀ (r : TagRegistry) op e, (r.call op).1 = .error e → (r.call op).2 = r) ∧
    ∀ id t d v, (r₀.run ops).getTag id = .ok t → (r₀.run ops).getDefinition id = .ok d →
      (sameVariant t.value v = true ↔ v.matches d.dataType = true) := by
  have hcons := (TagRegistry.consistent_fromDefinitions h).run ops
  refine ⟨fun id => getTag_iff_getDefinition hcons, hcons.listIdsSorted_eq, ?_, ?_, ?_⟩
  · intro id t d ht hd
    exact hcons.typed (TagRegistry.getTag_eq_ok.mp ht)
      (TagRegistry.dataType?_eq_some.mpr ⟨d, hd, rfl⟩)
  · intro r op e herr
    exact TagRegistry.call_eq_self_of_error herr
  · intro id t d v ht hd
    exact sameVariant_iff_matches hcons ht hd

/-- One 16-bit tag, and updates of which the first two are refused. -/
def levelDefinition : TagDefinition := .new "level" "level" "0" .uint16 "plc"

def levelUpdates : List TagRegistry.Op :=
  [.update "level" (.bool true) .good .unixEpoch .unixEpoch, .setQuality "flow" .stale .unixEpoch,
   .update "level" (.uint16 7) .good .unixEpoch .unixEpoch]

theorem registry_types_agree_level :
    (∀ id, (∃ t, ((TagRegistry.ofDefinitions [levelDefinition]).run levelUpdates).getTag id = .ok t) ↔
      ∃ d, ((TagRegistry.ofDefinitions [levelDefinition]).run levelUpdates).getDefinition id = .ok d) ∧
    ∀ t, ((TagRegistry.ofDefinitions [levelDefinition]).run levelUpdates).getTag "level" = .ok t →
      t.value.dataType = .uint16 := by
  have h := @registry_types_agree (fun _ => .unixEpoch) [levelDefinition]
    (TagRegistry.ofDefinitions [levelDefinition]) rfl levelUpdates
  exact ⟨h.1, fun t ht => h.2.2.1 "level" t levelDefinition ht (by rfl)⟩

end Runtime

end PlcBridge
