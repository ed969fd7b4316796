/-
  PlcBridge.Refusals

  Updates that the registry refuses.

  Both drivers discard the result of `update_tag_value`.  It is an error when
  the tag is unknown or the value has another data type than the definition.
  A read decodes to the mapping's data type and a write stores the requested
  value, so the registry refuses nothing as long as the tags of the mappings
  are registered under the mappings' data types and requests carry values of
  these types.
-/
import PlcBridge.Modbus.Steps
import PlcBridge.Fins.Steps

namespace PlcBridge

open PlcBridge.Lib

-- ============================================================================
-- Updates
-- ============================================================================

/-- An update of a registered tag with a value of its type succeeds. -/
theorem TagRegistry.updateTagValue_ok {r : TagRegistry} {id : String} {v : TagValue}
    (htype : r.dataType? id = some v.dataType) (htag : (r.tag? id).isSome) (q : TagQuality)
    (ts now : DateTime) : ∃ t, (r.updateTagValue id v q ts now).1 = .ok t := by
  obtain ⟨d, hd, hdt⟩ := dataType?_eq_some.mp htype
  obtain ⟨t, ht⟩ := Option.isSome_iff_exists.mp htag
  have hmatches : v.matches d.dataType = true := by
    rw [TagValue.matches, hdt, decide_eq_true_iff]
  rw [getDefinition] at hd
  rw [tag?] at ht
  simp only [updateTagValue, hd, TagStore.updateValueWithExpected, Inner.updateValueWithExpected, hmatches,
    if_true]
  rw [Inner.modify_fst, ht]
  exact ⟨_, rfl⟩

namespace DriverState

variable {ξ σ : Type} {clock : Nat → DateTime} {d : DriverState ξ σ} {id : String}

theorem refused_updateTagValue {v : TagValue} (h : d.Registered id v.dataType) (q : TagQuality) :
    (d.updateTagValue clock id v q).refused = d.refused := by
  have htag : (d.registry.tag? id).isSome := by
    rw [← Option.isSome_map]
    exact h.2
  obtain ⟨t, ht⟩ := TagRegistry.updateTagValue_ok h.1 htag q (clock d.ticks) (clock (d.ticks + 1))
  simp only [updateTagValue, ht, List.append_nil]

theorem refused_markAll (d : DriverState ξ σ) (ids : List String) (q : TagQuality) :
    (d.markAll clock ids q).refused = d.refused := by
  induction ids generalizing d with
  | nil => rfl
  | cons id ids ih => exact ih (d.setTagQuality clock id q)

theorem refused_takeOrConnect (d : DriverState ξ σ) : d.takeOrConnect.2.refused = d.refused := by
  unfold takeOrConnect
  split <;> rfl

end DriverState

-- ============================================================================
-- Modbus
-- ============================================================================

namespace Modbus

open PlcBridge.DriverState (Extends)

variable {env : Env} {d : State}

theorem refused_extractMapping {m : ModbusMapping} (h : d.Registered m.tagId m.dataType) (r : ReadRequest)
    (raw : List UInt8) : (extractMapping env r raw d m).refused = d.refused := by
  obtain heq | ⟨q, -, heq⟩ | ⟨v, hv, heq⟩ := extractMapping_cases env r raw d m
  · rw [heq]
  · rw [heq]
    rfl
  · rw [heq, DriverState.refused_updateTagValue (by rw [hv]; exact h)]

theorem refused_foldl_extract {ms : List ModbusMapping} (h : ∀ m ∈ ms, d.Registered m.tagId m.dataType)
    (r : ReadRequest) (raw : List UInt8) :
    (ms.foldl (extractMapping env r raw) d).refused = d.refused := by
  induction ms generalizing d with
  | nil => rfl
  | cons m ms ih =>
      rw [List.foldl_cons, ih, refused_extractMapping (h m (List.mem_cons_self ..))]
      intro m' hm'
      exact (extends_extractMapping env r raw d m).registered (h m' (List.mem_cons_of_mem m hm'))

/-- A read stores values of the mappings' types. -/
theorem refused_readStep {r : ReadRequest} (h : ∀ m ∈ r.members, d.Registered m.tagId m.dataType)
    (ctx : Nat) : (readStep env ctx r d).2.refused = d.refused := by
  have hrec := DriverState.extends_record d (readExchange env ctx r d)
  obtain ⟨data, -, heq⟩ | ⟨err, -, ⟨-, heq⟩ | ⟨-, heq⟩ | ⟨-, -, heq⟩⟩ := readStep_cases env ctx r d
  · rw [heq]
    exact refused_foldl_extract (fun m hm => hrec.registered (h m hm)) r data.rawBytes
  · rw [heq]
    exact DriverState.refused_markAll _ r.ids _
  · rw [heq]
    exact DriverState.refused_markAll _ r.ids _
  · rw [heq]
    rfl

theorem refused_finishWrite {m : ModbusMapping} {req : WriteRequest}
    (h : d.Registered m.tagId req.value.dataType) (result : CallResult Unit) :
    (finishWrite env m req result d).2.refused = d.refused := by
  obtain ⟨-, heq⟩ | ⟨-, -, q, msg, -, heq⟩ | ⟨-, e, q, msg, -, heq⟩ :=
    finishWrite_cases env m req result d
  · rw [heq]
    exact DriverState.refused_updateTagValue h _
  · rw [heq]
    rfl
  · rw [heq]
    rfl

/-- A write stores the requested value under the mapping's tag. -/
theorem refused_processWrite {mappings : List ModbusMapping} {req : WriteRequest}
    (h : ∀ m, mappings.find? (fun m => m.tagId = req.tagId) = some m →
      d.Registered m.tagId req.value.dataType) :
    (processWrite env mappings req d).2.refused = d.refused := by
  obtain ⟨msg, d₁, hd₁, heq⟩ | ⟨m, hfind, -, -, heq⟩ := processWrite_cases env mappings req d
  · rw [heq]
    rcases hd₁ with rfl | ⟨id, rfl⟩ <;> rfl
  · have hext : Extends d
        ((d.takeOrConnect.2.record (writeExchange env m req d)).putBack (some d.takeOrConnect.1)) :=
      ((DriverState.extends_takeOrConnect d).trans (DriverState.extends_record _ _)).trans
        (DriverState.extends_putBack _ _)
    rw [heq, sendWrite_eq, refused_finishWrite (hext.registered (h m hfind))]
    exact DriverState.refused_takeOrConnect d

end Modbus

-- ============================================================================
-- FINS
-- ============================================================================

namespace Fins

open PlcBridge.DriverState (Extends)

variable {env : Env} {d : State}

theorem refused_extractMapping {m : TagMapping} (h : d.Registered m.tagId m.dataType) (g : ReadGroup)
    (data : List UInt8) : (extractMapping env g data m d).2.refused = d.refused := by
  obtain heq | ⟨d₁, q, hd₁, -, heq⟩ | ⟨v, hv, heq⟩ | ⟨-, heq⟩ := extractMapping_cases env g data m d
  · rw [heq]
  · rw [heq]
    rcases hd₁ with rfl | rfl <;> rfl
  · rw [heq]
    exact DriverState.refused_updateTagValue (by rw [hv]; exact h) _
  · rw [heq]
    rfl

theorem refused_runExtract {ms : List TagMapping} (h : ∀ m ∈ ms, d.Registered m.tagId m.dataType)
    (g : ReadGroup) (data : List UInt8) :
    (runList (extractMapping env g data) ms d).2.refused = d.refused := by
  have hrun : Extends d (runList (extractMapping env g data) ms d).2 ∧
      (runList (extractMapping env g data) ms d).2.refused = d.refused := by
    refine runList_invariant (I := fun d' : State => Extends d d' ∧ d'.refused = d.refused) ?_
      ⟨Extends.refl d, rfl⟩
    intro m hm d' hd'
    refine ⟨hd'.1.trans (extends_extractMapping env g data m d'), ?_⟩
    rw [refused_extractMapping (hd'.1.registered (h m hm)), hd'.2]
  exact hrun.2

theorem refused_finishRead {g : ReadGroup} (h : ∀ m ∈ g.mappings, d.Registered m.tagId m.dataType)
    (ctx : Nat) (response : Response) : (finishRead env g ctx response d).2.refused = d.refused := by
  cases response with
  | lost err => exact DriverState.refused_markAll _ g.ids _
  | malformed e => exact DriverState.refused_markAll _ g.ids _
  | mismatched => exact DriverState.refused_markAll _ g.ids _
  | refused code => exact DriverState.refused_markAll _ g.ids _
  | accepted data =>
      rw [finishRead]
      split
      · rw [markShort_eq]
        exact DriverState.refused_markAll _ g.metIds _
      · exact refused_runExtract (fun m hm => (DriverState.extends_putBack d _).registered (h m hm)) g data

/-- A read stores values of the mappings' types. -/
theorem refused_readStep {g : ReadGroup} (h : ∀ m ∈ g.mappings, d.Registered m.tagId m.dataType) :
    (readStep env g d).2.refused = d.refused := by
  rw [readStep_eq, refused_finishRead (fun m hm => (extends_afterRead env g d).registered (h m hm))]
  exact DriverState.refused_takeOrConnect (drawSid d)

/-- A write stores the requested value under the mapping's tag. -/
theorem refused_processWrite {mappings : List TagMapping} {req : WriteRequest}
    (h : ∀ m, mappings.find? (fun m => m.tagId = req.tagId) = some m →
      d.Registered m.tagId req.value.dataType) :
    (processWrite env mappings req d).refused = d.refused := by
  obtain ⟨msg, heq⟩ | ⟨m, hfind, -, heq⟩ := processWrite_cases env mappings req d
  · rw [heq]
    rfl
  · have hafter : (afterWrite env m req d).refused = d.refused :=
      DriverState.refused_takeOrConnect (drawSid d)
    rw [heq, sendWrite_eq, ← hafter]
    obtain ⟨data, -, hf⟩ | ⟨-, slot, q, msg, -, hf⟩ := finishWrite_cases env m req (nextCtx d)
      (writeExchange env m req d).response (afterWrite env m req d)
    · rw [hf]
      exact DriverState.refused_updateTagValue
        ((extends_afterWrite env m req d).registered (h m hfind)) _
    · rw [hf]
      rfl

end Fins

end PlcBridge
