/-
  PlcBridge.Opcua.ClientValues

  The value a client sends against the value the bridge takes it for
  (`TagDataSource::variant_to_tagvalue`, opcua-server/src/native.rs).

  A `UaScalar` is what the client's bytes hold: strings as the bytes received,
  times as the 64-bit count of 100 ns since 1601 of OPC UA.  open62541 gives a
  string as text only if it is there and is UTF-8, and a time as nanoseconds
  since 1970 without loss.
-/
import PlcBridge.Driver.Codec
import PlcBridge.Opcua.DataSource

namespace PlcBridge.Opcua

open PlcBridge.Lib

-- ============================================================================
-- What a client sends
-- ============================================================================

/-- A scalar of a variant, or anything else a variant can hold. -/
inductive UaScalar where
  | boolean (b : Bool)
  | int16 (v : Int16)
  | uint16 (v : UInt16)
  | int32 (v : Int32)
  | uint32 (v : UInt32)
  | int64 (v : Int64)
  | uint64 (v : UInt64)
  | float (bits : UInt32)
  | double (bits : UInt64)
  /-- The bytes of a string, unless it is null. -/
  | string (content : Option (List UInt8))
  /-- Ticks of 100 ns since 1601. -/
  | dateTime (ticks : Int64)
  /-- The bytes of a byte string, unless it is null. -/
  | byteString (content : Option (List UInt8))
  | other

/-- Ticks between 1601 and 1970. -/
def unixEpochTicks : ℤ := 116444736000000000

/-- `as_unix_timestamp_nanos`. -/
def unixNanos (ticks : Int64) : ℤ := (ticks.toInt - unixEpochTicks) * 100

/-- The scalar as open62541's accessors present it. -/
def UaScalar.variant : UaScalar → Variant
  | .boolean b => .boolean b
  | .int16 v => .int16 v
  | .uint16 v => .uint16 v
  | .int32 v => .int32 v
  | .uint32 v => .uint32 v
  | .int64 v => .int64 v
  | .uint64 v => .uint64 v
  | .float bits => .float bits
  | .double bits => .double bits
  | .string content => .string (content.bind fromUtf8)
  | .dateTime ticks => .dateTime (unixNanos ticks)
  | .byteString content => .byteString content
  | .other => .other

-- ============================================================================
-- Meaning
-- ============================================================================

/-- The tag value denotes what the scalar does: the same number, bit pattern,
    bytes, characters or instant.  A null string or byte string denotes
    nothing. -/
def UaScalar.Denotes : UaScalar → TagValue → Prop
  | .boolean b, .bool b' => b' = b
  | .int16 v, .int16 v' => v' = v
  | .uint16 v, .uint16 v' => v' = v
  | .int32 v, .int32 v' => v' = v
  | .uint32 v, .uint32 v' => v' = v
  | .int64 v, .int64 v' => v' = v
  | .uint64 v, .uint64 v' => v' = v
  | .float bits, .float bits' => bits' = bits
  | .double bits, .double bits' => bits' = bits
  | .string (some bytes), .string s => utf8Bytes s = bytes
  | .dateTime ticks, .dateTime dt => dt.nanos = (ticks.toInt - unixEpochTicks) * 100
  | .byteString (some bytes), .byteString bytes' => bytes' = bytes
  | _, _ => False

/-- The conversion errs, or yields a value of the expected type that denotes
    what the scalar does. -/
def UaScalar.Unaltered (scalar : UaScalar) (expected : TagDataType) : Prop :=
  ∀ v : TagValue, variantToTagvalue scalar.variant expected = .ok v →
    v.dataType = expected ∧ scalar.Denotes v

/-- Content of the expected kind that a tag value can hold: text that is there
    and is UTF-8, bytes that are there, a time whose nanoseconds since 1970 fit
    into 64 bits. -/
def UaScalar.Representable : UaScalar → TagDataType → Prop
  | .string content, .string => ∃ bytes, content = some bytes ∧ (fromUtf8 bytes).isSome
  | .dateTime ticks, .dateTime => -2 ^ 63 ≤ unixNanos ticks ∧ unixNanos ticks < 2 ^ 63
  | .byteString content, .byteString => content.isSome
  | _, _ => True

-- ============================================================================
-- When the meaning is kept
-- ============================================================================

theorem unaltered_string_iff (content : Option (List UInt8)) :
    (UaScalar.string content).Unaltered .string ↔
      (UaScalar.string content).Representable .string := by
  unfold UaScalar.Unaltered
  simp only [UaScalar.variant, variantToTagvalue, Except.ok.injEq, forall_eq',
    UaScalar.Representable, TagValue.dataType, true_and]
  cases content with
  | none => simp [UaScalar.Denotes]
  | some bytes =>
      simp only [Option.bind_some, UaScalar.Denotes, Option.some.injEq, exists_eq_left']
      cases hs : fromUtf8 bytes with
      | some s => simpa using fromUtf8_eq_some.mp hs
      | none =>
          simp only [Option.getD_none, Option.isSome_none, Bool.false_eq_true, iff_false]
          intro hempty
          exact absurd (hs.symm.trans (fromUtf8_eq_some.mpr hempty)) (by simp)

/-- A 64-bit count is kept exactly when it fits. -/
theorem unaltered_dateTime_iff (ticks : Int64) :
    (UaScalar.dateTime ticks).Unaltered .dateTime ↔
      (UaScalar.dateTime ticks).Representable .dateTime := by
  unfold UaScalar.Unaltered
  simp only [UaScalar.variant, variantToTagvalue, Except.ok.injEq, forall_eq',
    UaScalar.Representable, TagValue.dataType, true_and, UaScalar.Denotes, fromTimestampNanos]
  constructor
  · intro h
    have hlow := (Int64.ofInt (unixNanos ticks)).le_toInt
    have hhigh := (Int64.ofInt (unixNanos ticks)).toInt_lt
    rw [h] at hlow hhigh
    exact ⟨hlow, hhigh⟩
  · rintro ⟨hlow, hhigh⟩
    exact Int64.toInt_ofInt_of_le hlow hhigh

theorem unaltered_byteString_iff (content : Option (List UInt8)) :
    (UaScalar.byteString content).Unaltered .byteString ↔
      (UaScalar.byteString content).Representable .byteString := by
  unfold UaScalar.Unaltered
  simp only [UaScalar.variant, variantToTagvalue, Except.ok.injEq, forall_eq',
    UaScalar.Representable, TagValue.dataType, true_and]
  cases content <;> simp [UaScalar.Denotes]

/-- A client's value comes through unaltered, or with an error, exactly when a
    tag value can hold it. -/
theorem unaltered_iff_representable (scalar : UaScalar) (expected : TagDataType) :
    scalar.Unaltered expected ↔ scalar.Representable expected := by
  cases scalar with
  | string content =>
      cases expected with
      | string => exact unaltered_string_iff content
      | _ => simp [UaScalar.Unaltered, UaScalar.variant, variantToTagvalue, UaScalar.Representable]
  | dateTime ticks =>
      cases expected with
      | dateTime => exact unaltered_dateTime_iff ticks
      | _ => simp [UaScalar.Unaltered, UaScalar.variant, variantToTagvalue, UaScalar.Representable]
  | byteString content =>
      cases expected with
      | byteString => exact unaltered_byteString_iff content
      | _ => simp [UaScalar.Unaltered, UaScalar.variant, variantToTagvalue, UaScalar.Representable]
  | _ =>
      cases expected <;>
        simp [UaScalar.Unaltered, UaScalar.variant, variantToTagvalue, UaScalar.Representable,
          UaScalar.Denotes, TagValue.dataType]

/-- Midnight of 1601-01-01 is accepted as an instant of the year 2185. -/
theorem first_instant_altered :
    variantToTagvalue (UaScalar.dateTime 0).variant .dateTime
        = .ok (.dateTime (fromTimestampNanos 6802270473709551616)) ∧
    ¬ (UaScalar.dateTime 0).Unaltered .dateTime := by
  have hok : variantToTagvalue (UaScalar.dateTime 0).variant .dateTime
      = .ok (.dateTime (fromTimestampNanos 6802270473709551616)) := by decide +kernel
  refine ⟨hok, ?_⟩
  intro h
  have hnanos : (fromTimestampNanos 6802270473709551616).nanos
      = ((0 : Int64).toInt - unixEpochTicks) * 100 := (h _ hok).2
  exact absurd hnanos (by decide +kernel)

end PlcBridge.Opcua
