/-
  PlcBridge.Opcua.DataSource

  The client's side of a write (opcua-server/src/native.rs): the value in an
  OPC UA variant, and what `TagDataSource::write` does before it hands the write
  to the bridge thread.

  Every refusal is the status BADINTERNALERROR.
-/
import PlcBridge.CoreModel.Registry

namespace PlcBridge.Opcua

/-- How the server acknowledges write requests. -/
inductive WriteMode where
  | queuedAck
  | confirmedAck
deriving DecidableEq

/-- A scalar variant of one of the types tags have, or anything else.  Strings
    and byte strings may be null, times are nanoseconds since the Unix epoch. -/
inductive Variant where
  | boolean (b : Bool)
  | int16 (v : Int16)
  | uint16 (v : UInt16)
  | int32 (v : Int32)
  | uint32 (v : UInt32)
  | int64 (v : Int64)
  | uint64 (v : UInt64)
  | float (bits : UInt32)
  | double (bits : UInt64)
  | string (s : Option String)
  | dateTime (nanos : Int)
  | byteString (b : Option (List UInt8))
  | other

theorem min_le_nanos (nanos : Int64) : minTimestampMillis * 1000000 ≤ nanos.toInt := by
  have hlow := nanos.le_toInt
  simp only [minTimestampMillis]
  omega

theorem nanos_le_max (nanos : Int64) : nanos.toInt ≤ maxTimestampMillis * 1000000 + 999999 := by
  have hhigh := nanos.toInt_lt
  simp only [maxTimestampMillis]
  omega

/-- `DateTime::from_timestamp_nanos`: every 64-bit count is in chrono's range. -/
def fromTimestampNanos (nanos : Int64) : DateTime :=
  ⟨nanos.toInt, min_le_nanos nanos, nanos_le_max nanos⟩

/-- Convert a variant into a value of the expected type. -/
def variantToTagvalue (var : Variant) (expected : TagDataType) : Except String TagValue :=
  match expected, var with
  | .bool, .boolean b => .ok (.bool b)
  | .bool, _ => .error "Expected Boolean"
  | .int16, .int16 v => .ok (.int16 v)
  | .int16, _ => .error "Expected Int16"
  | .uint16, .uint16 v => .ok (.uint16 v)
  | .uint16, _ => .error "Expected UInt16"
  | .int32, .int32 v => .ok (.int32 v)
  | .int32, _ => .error "Expected Int32"
  | .uint32, .uint32 v => .ok (.uint32 v)
  | .uint32, _ => .error "Expected UInt32"
  | .int64, .int64 v => .ok (.int64 v)
  | .int64, _ => .error "Expected Int64"
  | .uint64, .uint64 v => .ok (.uint64 v)
  | .uint64, _ => .error "Expected UInt64"
  | .float, .float v => .ok (.float v)
  | .float, _ => .error "Expected Float"
  | .double, .double v => .ok (.double v)
  | .double, _ => .error "Expected Double"
  | .string, .string s => .ok (.string (s.getD ""))
  | .string, _ => .error "Expected String"
  -- The nanoseconds are cut to 64 bits.
  | .dateTime, .dateTime nanos => .ok (.dateTime (fromTimestampNanos (Int64.ofInt nanos)))
  | .dateTime, _ => .error "Expected DateTime"
  | .byteString, .byteString b => .ok (.byteString (b.getD []))
  | .byteString, _ => .error "Expected ByteString"

/-- The value of a write to `tagId`, unless it is refused: it needs a value, a
    definition, and a variant of the definition's type. -/
def valueToWrite (registry : TagRegistry) (tagId : String) (value : Option Variant) : Option TagValue :=
  match value with
  | none => none
  | some variant =>
      match registry.getDefinition tagId with
      | .error _ => none
      | .ok d => (variantToTagvalue variant d.dataType).toOption

end PlcBridge.Opcua
