/-
  PlcBridge.Opcua.Reads

  The client's side of a read (opcua-server/src/native.rs): the status a tag's
  quality is reported as, the variant its value is sent as, and
  `TagDataSource::read`.
-/
import PlcBridge.Opcua.ClientValues

namespace PlcBridge.Opcua

-- ============================================================================
-- Status codes
-- ============================================================================

/-- The status codes the data source uses. -/
inductive StatusCode where
  | good
  | uncertainSubnormal
  | badUnexpectedError
  | badInternalError
deriving DecidableEq, Repr

/-- The class of a status code, its two highest bits: 0 is Good, 1 Uncertain
    and 2 Bad. -/
def StatusCode.severity : StatusCode → ℕ
  | .good => 0
  | .uncertainSubnormal => 1
  | .badUnexpectedError => 2
  | .badInternalError => 2

/-- Map a quality to a status code. -/
def tagqualityToUaStatus : TagQuality → StatusCode
  | .good => .good
  -- During initialization the value is uncertain/subnormal.
  | .initializing => .uncertainSubnormal
  -- The last usable value is uncertain.
  | .stale => .uncertainSubnormal
  | .commLost => .badUnexpectedError
  | .configError => .badUnexpectedError
  | .typeMismatch => .badUnexpectedError
  -- Fallback values are uncertain but usable.
  | .substitute => .uncertainSubnormal
  | .error _ => .badUnexpectedError

-- ============================================================================
-- Values
-- ============================================================================

/-- What open62541 makes of texts and times: `ua::String::new` may refuse a
    text, `try_from_unix_timestamp_nanos` a time, though not the epoch. -/
structure Encoding where
  newString : String → Option (List UInt8)
  ticks : ℤ → Option Int64
  epoch : Int64
  ticks_zero : ticks 0 = some epoch

/-- `timestamp_nanos_opt`: `none` when the nanoseconds do not fit into 64
    bits. -/
def timestampNanosOpt (dt : DateTime) : Option ℤ :=
  if -2 ^ 63 ≤ dt.nanos ∧ dt.nanos < 2 ^ 63 then some dt.nanos else none

/-- Map a tag value to the scalar of a variant. -/
def tagvalueToVariant (ua : Encoding) : TagValue → Option UaScalar
  | .bool b => some (.boolean b)
  | .int16 v => some (.int16 v)
  | .uint16 v => some (.uint16 v)
  | .int32 v => some (.int32 v)
  | .uint32 v => some (.uint32 v)
  | .int64 v => some (.int64 v)
  | .uint64 v => some (.uint64 v)
  | .float bits => some (.float bits)
  | .double bits => some (.double bits)
  | .string s => (ua.newString s).map fun bytes => .string (some bytes)
  | .dateTime dt => ((timestampNanosOpt dt).bind ua.ticks).map .dateTime
  | .byteString b => some (.byteString (some b))

/-- A timestamp for the client; one that cannot be sent becomes the epoch. -/
def chronoToUaDt (ua : Encoding) (dt : DateTime) : Int64 :=
  (ua.ticks ((timestampNanosOpt dt).getD 0)).getD ua.epoch

-- ============================================================================
-- Reads
-- ============================================================================

/-- What a read delivers. -/
structure DataValue where
  value : UaScalar
  status : StatusCode
  sourceTimestamp : Int64
  serverTimestamp : Int64

/-- The fields of a data source a read uses. -/
structure TagDataSource where
  tagId : String
  registry : TagRegistry

/-- Answer a read of the variable, or refuse it with a status. -/
def TagDataSource.read (ua : Encoding) (source : TagDataSource) : Except StatusCode DataValue :=
  match source.registry.getTag source.tagId with
  | .error _ => .error .badInternalError
  | .ok tag =>
      match tagvalueToVariant ua tag.value with
      | none => .error .badInternalError
      | some variant =>
          .ok {
            value := variant
            -- Creating a node reads it, and must not see it as failed.
            status := if tag.quality = .initializing then .good else tagqualityToUaStatus tag.quality
            sourceTimestamp := chronoToUaDt ua tag.sourceTimestamp
            serverTimestamp := chronoToUaDt ua tag.serverTimestamp }

/-- A status of the class Good stands for one of two qualities, and the value
    delivered is the tag's. -/
theorem read_good {ua : Encoding} {source : TagDataSource} {dv : DataValue}
    (h : source.read ua = .ok dv) (hgood : dv.status = .good) :
    ∃ t : Tag, source.registry.tag? source.tagId = some t ∧
      tagvalueToVariant ua t.value = some dv.value ∧
      (t.quality = .good ∨ t.quality = .initializing) := by
  unfold TagDataSource.read at h
  cases ht : source.registry.getTag source.tagId with
  | error e =>
      rw [ht] at h
      exact absurd h (by simp)
  | ok t =>
      rw [ht] at h
      cases hv : tagvalueToVariant ua t.value with
      | none =>
          simp only [hv] at h
          exact absurd h (by simp)
      | some variant =>
          simp only [hv, Except.ok.injEq] at h
          subst h
          refine ⟨t, TagRegistry.getTag_eq_ok.mp ht, hv, ?_⟩
          by_cases hinit : t.quality = .initializing
          · exact .inr hinit
          · simp only [if_neg hinit] at hgood
            cases hq : t.quality with
            | good => exact .inl rfl
            | _ =>
                rw [hq] at hgood
                exact absurd hgood (by simp [tagqualityToUaStatus])

end PlcBridge.Opcua
