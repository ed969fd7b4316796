/-
  PlcBridge.CoreModel.TagValue

  Tag values, data types, byte orders and qualities
  (core-model/src/tag_value.rs), and the chrono instants they carry.

  Floating-point values are their bit patterns: the bridge only moves them
  between registers and OPC UA, so `Float`/`Double` are `UInt32`/`UInt64`.
  A `DateTime` is its count of nanoseconds since the Unix epoch, with the
  range chrono can represent as a field; chrono's leap-second encoding is
  identified with the second that follows it, as its timestamp functions do.
-/
import Mathlib.Data.List.Basic
import Mathlib.Tactic.Ring

namespace PlcBridge

-- ============================================================================
-- Instants
-- ============================================================================

/-- First millisecond chrono can represent: -262143-01-01T00:00:00.000Z. -/
def minTimestampMillis : Int := -8334601228800000

/-- Last millisecond chrono can represent: +262142-12-31T23:59:59.999Z. -/
def maxTimestampMillis : Int := 8210266876799999

/-- `chrono::DateTime<Utc>` as nanoseconds since the Unix epoch. -/
structure DateTime where
  nanos : Int
  min_le : minTimestampMillis * 1000000 ≤ nanos
  le_max : nanos ≤ maxTimestampMillis * 1000000 + 999999
deriving DecidableEq

namespace DateTime

/-- `DateTime::UNIX_EPOCH`. -/
def unixEpoch : DateTime := ⟨0, by decide, by decide⟩

instance : Inhabited DateTime := ⟨unixEpoch⟩

/-- `timestamp_millis`: the whole milliseconds since the epoch, rounded
    towards the past. -/
def timestampMillis (dt : DateTime) : Int64 := Int64.ofInt (dt.nanos / 1000000)

/-- `DateTime::from_timestamp_millis`: `none` outside chrono's range. -/
def fromTimestampMillis (ms : Int64) : Option DateTime :=
  if h : minTimestampMillis ≤ ms.toInt ∧ ms.toInt ≤ maxTimestampMillis then
    some ⟨ms.toInt * 1000000, by omega, by omega⟩
  else none

/-- The instant rounded down to the millisecond. -/
def floorMillis (dt : DateTime) : DateTime :=
  ⟨dt.nanos / 1000000 * 1000000, by have := dt.min_le; omega, by have := dt.le_max; omega⟩

theorem timestampMillis_toInt (dt : DateTime) : dt.timestampMillis.toInt = dt.nanos / 1000000 := by
  have h1 := dt.min_le
  have h2 := dt.le_max
  simp only [minTimestampMillis, maxTimestampMillis] at h1 h2
  apply Int64.toInt_ofInt_of_le
  · omega
  · omega

/-- A timestamp chrono produced is one chrono accepts. -/
theorem fromTimestampMillis_timestampMillis (dt : DateTime) :
    fromTimestampMillis dt.timestampMillis = some dt.floorMillis := by
  have h1 := dt.min_le
  have h2 := dt.le_max
  unfold fromTimestampMillis
  rw [dif_pos (by rw [timestampMillis_toInt]; omega)]
  simp only [timestampMillis_toInt]
  rfl

end DateTime

-- ============================================================================
-- Data types and values
-- ============================================================================

/-- Configuration-oriented type descriptor used in `TagDefinition`. -/
inductive TagDataType where
  | bool
  | int16
  | uint16
  | int32
  | uint32
  | int64
  | uint64
  | float
  | double
  | string
  | dateTime
  | byteString
deriving DecidableEq, Repr

/-- Runtime value of a tag. -/
inductive TagValue where
  | bool (b : Bool)
  | int16 (v : Int16)
  | uint16 (v : UInt16)
  | int32 (v : Int32)
  | uint32 (v : UInt32)
  | int64 (v : Int64)
  | uint64 (v : UInt64)
  | float (bits : UInt32)
  | double (bits : UInt64)
  | string (s : String)
  | dateTime (dt : DateTime)
  | byteString (b : List UInt8)
deriving DecidableEq

/-- The `TagDataType` corresponding to a runtime value. -/
def TagValue.dataType : TagValue → TagDataType
  | .bool _ => .bool
  | .int16 _ => .int16
  | .uint16 _ => .uint16
  | .int32 _ => .int32
  | .uint32 _ => .uint32
  | .int64 _ => .int64
  | .uint64 _ => .uint64
  | .float _ => .float
  | .double _ => .double
  | .string _ => .string
  | .dateTime _ => .dateTime
  | .byteString _ => .byteString

/-- Whether a runtime value matches the provided `TagDataType`. -/
def TagValue.matches (v : TagValue) (expected : TagDataType) : Bool := v.dataType = expected

-- ============================================================================
-- Byte order
-- ============================================================================

/-- Byte/word ordering used when combining multiple 16-bit registers. -/
inductive WordOrder where
  /-- Big-endian: no reordering (default). -/
  | ABCD
  /-- Byte-swap within each 16-bit word. -/
  | BADC
  /-- Swap 16-bit word pairs within 32-bit chunks. -/
  | CDAB
  /-- Reverse bytes within 32-bit chunks (little-endian). -/
  | DCBA
deriving DecidableEq, Repr

instance : Inhabited WordOrder := ⟨.ABCD⟩

section Reorder

-- The helpers only move bytes around, so they are stated for any element type.
variable {α : Type*}

/-- `while i + 1 < len { swap(i, i+1); i += 2 }`. -/
def swapBytesInWords : List α → List α
  | a :: b :: rest => b :: a :: swapBytesInWords rest
  | rest => rest

/-- `while i + 3 < len { swap(i, i+2); swap(i+1, i+3); i += 4 }`; a trailing
    2-byte word stays as it is. -/
def swapWordPairsIn4ByteChunks : List α → List α
  | a :: b :: c :: d :: rest => c :: d :: a :: b :: swapWordPairsIn4ByteChunks rest
  | rest => rest

/-- `while i + 3 < len { swap(i, i+3); swap(i+1, i+2); i += 4 }`, then the
    first two bytes of a remainder of two or three are swapped. -/
def reverseBytesIn4ByteChunks : List α → List α
  | a :: b :: c :: d :: rest => d :: c :: b :: a :: reverseBytesIn4ByteChunks rest
  | a :: b :: rest => b :: a :: rest
  | rest => rest

/-- Reorder bytes according to the configured ordering. -/
def WordOrder.applyToBytes : WordOrder → List α → List α
  | .ABCD => id
  | .BADC => swapBytesInWords
  | .CDAB => swapWordPairsIn4ByteChunks
  | .DCBA => reverseBytesIn4ByteChunks

/-- driver-common's `apply_byte_order`: reorder a buffer and return it. -/
def applyByteOrder (bytes : List α) (order : WordOrder) : List α := order.applyToBytes bytes

theorem length_swapBytesInWords : ∀ bs : List α, (swapBytesInWords bs).length = bs.length
  | [] => rfl
  | [_] => rfl
  | _ :: _ :: rest => by simp [swapBytesInWords, length_swapBytesInWords rest]

theorem length_swapWordPairsIn4ByteChunks :
    ∀ bs : List α, (swapWordPairsIn4ByteChunks bs).length = bs.length
  | [] => rfl
  | [_] => rfl
  | [_, _] => rfl
  | [_, _, _] => rfl
  | _ :: _ :: _ :: _ :: rest => by
      simp [swapWordPairsIn4ByteChunks, length_swapWordPairsIn4ByteChunks rest]

theorem length_reverseBytesIn4ByteChunks :
    ∀ bs : List α, (reverseBytesIn4ByteChunks bs).length = bs.length
  | [] => rfl
  | [_] => rfl
  | [_, _] => rfl
  | [_, _, _] => rfl
  | _ :: _ :: _ :: _ :: rest => by
      simp [reverseBytesIn4ByteChunks, length_reverseBytesIn4ByteChunks rest]

@[simp] theorem length_applyByteOrder (bs : List α) (o : WordOrder) :
    (applyByteOrder bs o).length = bs.length := by
  cases o with
  | ABCD => rfl
  | BADC => exact length_swapBytesInWords bs
  | CDAB => exact length_swapWordPairsIn4ByteChunks bs
  | DCBA => exact length_reverseBytesIn4ByteChunks bs

theorem swapBytesInWords_self : ∀ bs : List α, swapBytesInWords (swapBytesInWords bs) = bs
  | [] => rfl
  | [_] => rfl
  | _ :: _ :: rest => by simp [swapBytesInWords, swapBytesInWords_self rest]

theorem swapWordPairsIn4ByteChunks_self :
    ∀ bs : List α, swapWordPairsIn4ByteChunks (swapWordPairsIn4ByteChunks bs) = bs
  | [] => rfl
  | [_] => rfl
  | [_, _] => rfl
  | [_, _, _] => rfl
  | _ :: _ :: _ :: _ :: rest => by
      simp [swapWordPairsIn4ByteChunks, swapWordPairsIn4ByteChunks_self rest]

theorem reverseBytesIn4ByteChunks_self :
    ∀ bs : List α, reverseBytesIn4ByteChunks (reverseBytesIn4ByteChunks bs) = bs
  | [] => rfl
  | [_] => rfl
  | [_, _] => rfl
  | [_, _, _] => rfl
  | _ :: _ :: _ :: _ :: rest => by
      simp [reverseBytesIn4ByteChunks, reverseBytesIn4ByteChunks_self rest]

/-- Every byte order is its own inverse, on buffers of any length. -/
@[simp] theorem applyByteOrder_self (bs : List α) (o : WordOrder) :
    applyByteOrder (applyByteOrder bs o) o = bs := by
  cases o with
  | ABCD => rfl
  | BADC => exact swapBytesInWords_self bs
  | CDAB => exact swapWordPairsIn4ByteChunks_self bs
  | DCBA => exact reverseBytesIn4ByteChunks_self bs

/-- A prefix of whole 4-byte chunks is reordered on its own. -/
theorem applyByteOrder_append (o : WordOrder) :
    ∀ (xs ys : List α), xs.length % 4 = 0 →
      applyByteOrder (xs ++ ys) o = applyByteOrder xs o ++ applyByteOrder ys o
  | [], _, _ => by cases o <;> rfl
  | [_], _, h => by simp at h
  | [_, _], _, h => by simp at h
  | [_, _, _], _, h => by simp at h
  | a :: b :: c :: d :: xs, ys, h => by
      have hxs : xs.length % 4 = 0 := by
        simp only [List.length_cons] at h
        omega
      have ih := applyByteOrder_append o xs ys hxs
      cases o with
      | ABCD => rfl
      | BADC =>
          simp only [applyByteOrder, WordOrder.applyToBytes] at ih ⊢
          simp [swapBytesInWords, ih]
      | CDAB =>
          simp only [applyByteOrder, WordOrder.applyToBytes] at ih ⊢
          simp [swapWordPairsIn4ByteChunks, ih]
      | DCBA =>
          simp only [applyByteOrder, WordOrder.applyToBytes] at ih ⊢
          simp [reverseBytesIn4ByteChunks, ih]

end Reorder

-- ============================================================================
-- Quality
-- ============================================================================

/-- Tag quality used by drivers and runtime to express detailed states. -/
inductive TagQuality where
  /-- Value is fresh and valid. -/
  | good
  /-- The tag is still waiting for its first PLC value (default). -/
  | initializing
  /-- The source timestamp is older than the configured threshold. -/
  | stale
  /-- Communication to the PLC or network is lost. -/
  | commLost
  /-- Misconfiguration detected (addressing, mapping, etc). -/
  | configError
  /-- Type mismatch detected during a write or mapping conversion. -/
  | typeMismatch
  /-- A substitute or fallback value is being supplied. -/
  | substitute
  /-- Generic unexpected error with a description. -/
  | error (msg : String)
deriving DecidableEq, Repr

instance : Inhabited TagQuality := ⟨.initializing⟩

end PlcBridge
