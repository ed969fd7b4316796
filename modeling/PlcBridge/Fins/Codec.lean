/-
  PlcBridge.Fins.Codec

  Decoding words and encoding values in the FINS driver (`decode_fixed`,
  the decoding half of `decode_and_update_tag`, and
  `tagvalue_to_words_standard` of driver/fins/src/driver.rs).

  Unlike the Modbus decoder, this one refuses short data instead of filling it
  with zeros, and it reads a `DateTime` through `SystemTime`, which panics for
  milliseconds beyond chrono's range.
-/
import PlcBridge.Driver.Pieces
import PlcBridge.Fins.Mapping

namespace PlcBridge

theorem min_le_unixMillis (ms : UInt64) :
    minTimestampMillis * 1000000 ≤ (ms.toNat : Int) * 1000000 := by
  simp only [minTimestampMillis]
  omega

theorem unixMillis_le_max (ms : UInt64) (h : (ms.toNat : Int) ≤ maxTimestampMillis) :
    (ms.toNat : Int) * 1000000 ≤ maxTimestampMillis * 1000000 + 999999 := by
  omega

/-- `DateTime::<Utc>::from(UNIX_EPOCH + Duration::from_millis(ms))`; `none`
    where the conversion panics. -/
def DateTime.fromUnixMillis (ms : UInt64) : Option DateTime :=
  if h : (ms.toNat : Int) ≤ maxTimestampMillis then
    some ⟨ms.toNat * 1000000, min_le_unixMillis ms, unixMillis_le_max ms h⟩
  else none

namespace Fins

open PlcBridge.Lib

/-- The outcome of a fallible step that may also panic. -/
inductive Attempt (α : Type) where
  | done (a : α)
  | failed (e : DriverError)
  | panicked
deriving DecidableEq

/-- The result of an attempt that went well. -/
def Attempt.value? {α : Type} : Attempt α → Option α
  | .done a => some a
  | .failed _ | .panicked => none

/-- Bytes a value of a data type needs. -/
def byteSize (dt : TagDataType) : Nat := 2 * (fixedWords dt).getD 0

/-- Refuse short data, then read and convert. -/
def decodeFixed {α : Type} (size : Nat) (typeName : String) (read : List UInt8 → Option α)
    (intoValue : α → TagValue) (bytes : List UInt8) : Attempt TagValue :=
  if bytes.length < size then .failed (.protocol ("Not enough data for " ++ typeName))
  else
    match read (bytes.take size) with
    | none => .failed (.protocol ("Failed to decode " ++ typeName ++ ": failed to fill whole buffer"))
    | some v => .done (intoValue v)

/-- The decoding half of `decode_and_update_tag`, on bytes already in order,
    with `fill` in place of the zero in its two `unwrap_or(0)`. -/
def decodeFilling (fill : Nat) (chrono : Chrono) (dt : TagDataType) (bitOffset : UInt8)
    (bytes : List UInt8) : Attempt TagValue :=
  match dt with
  | .bool =>
      if bytes.length < 2 then .failed (.protocol "Not enough data for Bool")
      else
        let word := (readU16 (bytes.take 2)).getD (UInt16.ofNat fill)
        .done (.bool (((word >>> bitOffset.toUInt16) &&& 0x1) != 0))
  | .uint16 => decodeFixed 2 "UInt16" readU16 .uint16 bytes
  | .int16 => decodeFixed 2 "Int16" readU16 (fun v => .int16 v.toInt16) bytes
  | .uint32 => decodeFixed 4 "UInt32" readU32 .uint32 bytes
  | .int32 => decodeFixed 4 "Int32" readU32 (fun v => .int32 v.toInt32) bytes
  | .float => decodeFixed 4 "Float" readU32 .float bytes
  | .double => decodeFixed 8 "Double" readU64 .double bytes
  | .uint64 => decodeFixed 8 "UInt64" readU64 .uint64 bytes
  | .int64 => decodeFixed 8 "Int64" readU64 (fun v => .int64 v.toInt64) bytes
  | .dateTime =>
      if 8 ≤ bytes.length then
        let ms := (readU64 (bytes.take 8)).getD (UInt64.ofNat fill)
        match DateTime.fromUnixMillis ms with
        | some dt => .done (.dateTime dt)
        | none => .panicked
      else
        match fromUtf8 bytes with
        | some s =>
            match chrono.parseFromRfc3339 s with
            | some dt => .done (.dateTime dt)
            | none => .failed (.protocol "Invalid DateTime format")
        | none => .failed (.protocol "Not enough data for DateTime")
  | .byteString => .done (.byteString bytes)
  | .string => .done (.string (decodeString bytes))

/-- Decode bytes that are already in order. -/
def decodeBytes (chrono : Chrono) (dt : TagDataType) (bitOffset : UInt8) (bytes : List UInt8) :
    Attempt TagValue :=
  decodeFilling 0 chrono dt bitOffset bytes

/-- Split a `u64` into four big-endian words. -/
def u64ToWords (v : UInt64) : List UInt16 :=
  [((v >>> 48) &&& 0xFFFF).toUInt16, ((v >>> 32) &&& 0xFFFF).toUInt16,
    ((v >>> 16) &&& 0xFFFF).toUInt16, (v &&& 0xFFFF).toUInt16]

/-- Split a `u32` into two big-endian words. -/
def u32ToWords (v : UInt32) : List UInt16 :=
  [((v >>> 16) &&& 0xFFFF).toUInt16, (v &&& 0xFFFF).toUInt16]

/-- Words of a value in standard order. -/
def tagvalueToWordsStandard : TagValue → Except DriverError (List UInt16)
  | .bool b => .ok [if b then 1 else 0]
  | .uint16 x => .ok [x]
  | .int16 x => .ok [x.toUInt16]
  | .uint32 x => .ok (u32ToWords x)
  | .int32 x => .ok (u32ToWords x.toUInt32)
  | .float bits => .ok (u32ToWords bits)
  | .double bits => .ok (u64ToWords bits)
  | .uint64 x => .ok (u64ToWords x)
  | .int64 x => .ok (u64ToWords x.toUInt64)
  | .dateTime dt => .ok (u64ToWords dt.timestampMillis.toUInt64)
  | .byteString b => .ok (bytesToWords b)
  | .string s => .ok (bytesToWords (utf8Bytes s))

theorem tagvalueToWordsStandard_eq (value : TagValue) :
    tagvalueToWordsStandard value = .ok (standardWords value) := by
  cases value <;> rfl

/-- A mapping's value from the words of its range (or a piece of it). -/
def TagMapping.decodeWords (chrono : Chrono) (m : TagMapping) (words : List UInt16) :
    Attempt TagValue :=
  decodeBytes chrono m.dataType m.bitOffset (applyByteOrder (beBytes words) m.byteOrder)

-- ============================================================================
-- Facts about the decoder
-- ============================================================================

variable {chrono : Chrono}

theorem decodeFixed_of_short {α : Type} {size : Nat} {bytes : List UInt8} (h : bytes.length < size)
    (typeName : String) (read : List UInt8 → Option α) (intoValue : α → TagValue) :
    decodeFixed size typeName read intoValue bytes =
      .failed (.protocol ("Not enough data for " ++ typeName)) := if_pos h

theorem decodeFixed_of_read {α : Type} {size : Nat} {bytes : List UInt8} (h : size ≤ bytes.length)
    (typeName : String) {read : List UInt8 → Option α} (intoValue : α → TagValue) {a : α}
    (hread : read (bytes.take size) = some a) :
    decodeFixed size typeName read intoValue bytes = .done (intoValue a) := by
  rw [decodeFixed, if_neg (Nat.not_lt.mpr h), hread]

/-- All types but `DateTime`: short data is refused, the rest is read, and the
    fallback of the reads does not matter. -/
theorem decodeFilling_cases (chrono : Chrono) {dt : TagDataType} (hdt : dt ≠ .dateTime) (bit : UInt8)
    (bytes : List UInt8) :
    (bytes.length < byteSize dt ∧ ∃ e, ∀ fill, decodeFilling fill chrono dt bit bytes = .failed e) ∨
    (byteSize dt ≤ bytes.length ∧ ∃ v, readValue bytes bit dt = some v ∧
      ∀ fill, decodeFilling fill chrono dt bit bytes = .done v) := by
  rcases Nat.lt_or_ge bytes.length (byteSize dt) with hshort | hlong
  · refine .inl ⟨hshort, ?_⟩
    cases dt with
    | dateTime => exact absurd rfl hdt
    | string => exact absurd hshort (Nat.not_lt_zero _)
    | byteString => exact absurd hshort (Nat.not_lt_zero _)
    | bool => exact ⟨_, fun fill => if_pos hshort⟩
    | _ => exact ⟨_, fun fill => decodeFixed_of_short hshort _ _ _⟩
  · refine .inr ⟨hlong, ?_⟩
    cases dt with
    | dateTime => exact absurd rfl hdt
    | string => exact ⟨_, rfl, fun fill => rfl⟩
    | byteString => exact ⟨_, rfl, fun fill => rfl⟩
    | bool =>
        have hlen : 2 ≤ bytes.length := hlong
        refine ⟨_, rfl, fun fill => ?_⟩
        rw [decodeFilling, if_neg (Nat.not_lt.mpr hlen), readU16_take hlen]
        rfl
    | uint16 => exact ⟨_, rfl, fun fill => decodeFixed_of_read hlong _ _ (readU16_take hlong)⟩
    | int16 => exact ⟨_, rfl, fun fill => decodeFixed_of_read hlong _ _ (readU16_take hlong)⟩
    | uint32 => exact ⟨_, rfl, fun fill => decodeFixed_of_read hlong _ _ (readU32_take hlong)⟩
    | int32 => exact ⟨_, rfl, fun fill => decodeFixed_of_read hlong _ _ (readU32_take hlong)⟩
    | float => exact ⟨_, rfl, fun fill => decodeFixed_of_read hlong _ _ (readU32_take hlong)⟩
    | double => exact ⟨_, rfl, fun fill => decodeFixed_of_read hlong _ _ (readU64_take hlong)⟩
    | uint64 => exact ⟨_, rfl, fun fill => decodeFixed_of_read hlong _ _ (readU64_take hlong)⟩
    | int64 => exact ⟨_, rfl, fun fill => decodeFixed_of_read hlong _ _ (readU64_take hlong)⟩

theorem value?_decodeBytes {dt : TagDataType} (hdt : dt ≠ .dateTime) (bit : UInt8)
    (bytes : List UInt8) :
    (decodeBytes chrono dt bit bytes).value? =
      if bytes.length < byteSize dt then none else readValue bytes bit dt := by
  obtain ⟨hshort, e, he⟩ | ⟨hlong, v, hv, hdone⟩ := decodeFilling_cases chrono hdt bit bytes
  · rw [if_pos hshort, decodeBytes, he]
    rfl
  · rw [if_neg (Nat.not_lt.mpr hlong), decodeBytes, hdone, hv]
    rfl

theorem decodeBytes_ne_panicked {dt : TagDataType} (hdt : dt ≠ .dateTime) (bit : UInt8)
    (bytes : List UInt8) : decodeBytes chrono dt bit bytes ≠ .panicked := by
  obtain ⟨-, e, he⟩ | ⟨-, v, -, hdone⟩ := decodeFilling_cases chrono hdt bit bytes
  · rw [decodeBytes, he]
    simp
  · rw [decodeBytes, hdone]
    simp

theorem decodeFilling_dateTime_long {bytes : List UInt8} (h : 8 ≤ bytes.length) (fill : Nat)
    (bit : UInt8) :
    decodeFilling fill chrono .dateTime bit bytes =
      match DateTime.fromUnixMillis (u64At bytes) with
      | some dt => .done (.dateTime dt)
      | none => .panicked := by
  rw [decodeFilling, if_pos h, readU64_take h]
  rfl

theorem decodeBytes_dateTime_long {bytes : List UInt8} (h : 8 ≤ bytes.length) (bit : UInt8) :
    decodeBytes chrono .dateTime bit bytes =
      match DateTime.fromUnixMillis (u64At bytes) with
      | some dt => .done (.dateTime dt)
      | none => .panicked :=
  decodeFilling_dateTime_long h 0 bit

/-- Fewer than eight bytes never make a `DateTime`, and never panic. -/
theorem decodeBytes_dateTime_short {bytes : List UInt8} (h : ¬ 8 ≤ bytes.length) (bit : UInt8) :
    ∃ e, decodeBytes chrono .dateTime bit bytes = .failed e := by
  rw [decodeBytes, decodeFilling]
  simp only [if_neg h]
  cases hs : fromUtf8 bytes with
  | none => exact ⟨_, rfl⟩
  | some s =>
      have hlen : s.utf8ByteSize < 20 := by
        rw [← length_utf8Bytes, fromUtf8_eq_some.mp hs]
        omega
      simp only [chrono.too_short s hlen]
      exact ⟨_, rfl⟩

/-- A decoded value has the mapping's data type. -/
theorem dataType_of_decodeBytes {dt : TagDataType} {bit : UInt8} {bytes : List UInt8} {v : TagValue}
    (h : decodeBytes chrono dt bit bytes = .done v) : v.dataType = dt := by
  by_cases hdt : dt = .dateTime
  · rw [hdt] at h ⊢
    by_cases hlen : 8 ≤ bytes.length
    · rw [decodeBytes_dateTime_long hlen] at h
      split at h
      · rw [← Attempt.done.inj h]
        rfl
      · exact absurd h (by simp)
    · obtain ⟨e, he⟩ := @decodeBytes_dateTime_short chrono bytes hlen bit
      rw [he] at h
      exact absurd h (by simp)
  · obtain ⟨-, e, he⟩ | ⟨-, w, hw, hdone⟩ := decodeFilling_cases chrono hdt bit bytes
    · rw [decodeBytes, he] at h
      exact absurd h (by simp)
    · rw [decodeBytes, hdone] at h
      obtain rfl := Attempt.done.inj h
      exact dataType_of_readValue hw

-- ============================================================================
-- Decoding the last piece of a range
-- ============================================================================

/-- The ranges for which it does not matter that only the last piece counts:
    a one-word value in the second of two swapped words, and the four-word
    types on a range too short for them. -/
def TagMapping.CutHarmless (m : TagMapping) : Prop :=
  (isSingleWord m.dataType ∧ m.wordCount.toNat = 2 ∧ ¬ m.byteOrder.keepsPlaces) ∨
  ((m.dataType = .int64 ∨ m.dataType = .uint64 ∨ m.dataType = .dateTime) ∧ m.wordCount.toNat < 4)

variable {m : TagMapping}

theorem value?_decodeWords (hdt : m.dataType ≠ .dateTime) (ws : List UInt16) :
    (m.decodeWords chrono ws).value? =
      if ws.length < (fixedWords m.dataType).getD 0 then none
      else readValue (ordered m.byteOrder ws) m.bitOffset m.dataType := by
  unfold TagMapping.decodeWords
  rw [value?_decodeBytes hdt, byteSize, length_applyByteOrder, length_beBytes]
  by_cases h : ws.length < (fixedWords m.dataType).getD 0
  · rw [if_pos h, if_pos (by omega)]
  · rw [if_neg h, if_neg (by omega)]
    rfl

theorem decodeWords_dateTime (hdt : m.dataType = .dateTime) {ws : List UInt16} (h : 4 ≤ ws.length) :
    m.decodeWords chrono ws =
      match DateTime.fromUnixMillis (u64At (ordered m.byteOrder ws)) with
      | some dt => .done (.dateTime dt)
      | none => .panicked := by
  unfold TagMapping.decodeWords
  rw [hdt, decodeBytes_dateTime_long]
  · rfl
  · rw [length_applyByteOrder, length_beBytes]
    omega

theorem value?_decodeWords_dateTime_short (hdt : m.dataType = .dateTime) {ws : List UInt16}
    (h : ws.length < 4) : ∃ e, m.decodeWords chrono ws = .failed e := by
  unfold TagMapping.decodeWords
  rw [hdt]
  apply decodeBytes_dateTime_short
  rw [length_applyByteOrder, length_beBytes]
  omega

theorem decodeWords_drop (hm : m.CutHarmless) {ws : List UInt16}
    (hlen : ws.length = m.wordCount.toNat) {k : Nat} (hk : 1 ≤ k) (hkw : k < m.wordCount.toNat) :
    (m.decodeWords chrono (ws.drop k)).value? = (m.decodeWords chrono ws).value? := by
  rcases hm with ⟨hsingle, hw, ho⟩ | ⟨hdt, hw⟩
  · have hk1 : k = 1 := by omega
    obtain ⟨a, b, rfl⟩ : ∃ a b, ws = [a, b] := List.length_eq_two.mp (hlen.trans hw)
    have hne : m.dataType ≠ .dateTime ∧ (fixedWords m.dataType).getD 0 = 1 := by
      cases hdt : m.dataType <;> simp_all [isSingleWord, fixedWords]
    rw [hk1, value?_decodeWords hne.1, value?_decodeWords hne.1, hne.2, if_neg (by simp),
      if_neg (by simp)]
    exact readValue_last_of_pair a b hsingle ho
  · have hdrop : (ws.drop k).length < 4 := by
      rw [List.length_drop]
      omega
    have hfour : m.dataType ≠ .dateTime → (fixedWords m.dataType).getD 0 = 4 := by
      intro hne
      rcases hdt with h | h | h
      · rw [h]
        rfl
      · rw [h]
        rfl
      · exact absurd h hne
    by_cases htime : m.dataType = .dateTime
    · obtain ⟨e, he⟩ := @value?_decodeWords_dateTime_short chrono m htime _ hdrop
      obtain ⟨e', he'⟩ := @value?_decodeWords_dateTime_short chrono m htime ws (by omega)
      rw [he, he']
      rfl
    · rw [value?_decodeWords htime, value?_decodeWords htime, hfour htime, if_pos hdrop,
        if_pos (by omega)]

/-- Zeros, and zeros behind one small word, are instants chrono can
    represent, and different ones. -/
theorem exists_dateTime_pair (hdt : m.dataType = .dateTime) :
    ∃ x : UInt16, ∀ rest : List UInt16, ∃ t t' : DateTime, t ≠ t' ∧
      m.decodeWords chrono (0 :: 0 :: 0 :: 0 :: rest) = .done (.dateTime t) ∧
      m.decodeWords chrono (x :: 0 :: 0 :: 0 :: rest) = .done (.dateTime t') := by
  obtain ⟨x, hx⟩ := exists_small_millis m.byteOrder
  refine ⟨x, fun rest => ?_⟩
  obtain ⟨hpos, hle⟩ := hx rest
  have hzero : u64At (ordered m.byteOrder (0 :: 0 :: 0 :: 0 :: rest)) = 0 := by
    simp only [u64At, ordered, wordAt_zero_ordered, wordAt_one_ordered]
    rw [wordAt_add_two_ordered _ _ _ _ 0, wordAt_add_two_ordered _ _ _ _ 1, wordAt_zero_ordered,
      wordAt_one_ordered]
    cases m.byteOrder <;> decide
  have hrange : ((u64At (ordered m.byteOrder (x :: 0 :: 0 :: 0 :: rest))).toNat : Int)
      ≤ maxTimestampMillis := by
    simp only [maxTimestampMillis]
    omega
  rw [decodeWords_dateTime hdt (by simp), decodeWords_dateTime hdt (by simp), hzero,
    DateTime.fromUnixMillis, DateTime.fromUnixMillis, dif_pos (by decide), dif_pos hrange]
  refine ⟨_, _, ?_, rfl, rfl⟩
  intro heq
  have hnanos := congrArg DateTime.nanos heq
  simp only [UInt64.toNat_zero, Nat.cast_zero, zero_mul] at hnanos
  omega

/-- The words are no `DateTime` beyond the last instant of chrono. -/
def TagMapping.InRange (m : TagMapping) (ws : List UInt16) : Prop :=
  m.dataType = .dateTime → 4 ≤ ws.length →
    ((u64At (ordered m.byteOrder ws)).toNat : Int) ≤ maxTimestampMillis

/-- The decoder panics on eight bytes beyond the last instant of chrono, and on
    nothing else. -/
theorem decodeBytes_ne_panicked_iff {dt : TagDataType} {bit : UInt8} {bytes : List UInt8} :
    decodeBytes chrono dt bit bytes ≠ .panicked ↔
      (dt = .dateTime → 8 ≤ bytes.length → ((u64At bytes).toNat : Int) ≤ maxTimestampMillis) := by
  by_cases hdt : dt = .dateTime
  · rw [hdt]
    by_cases hlen : 8 ≤ bytes.length
    · rw [decodeBytes_dateTime_long hlen, DateTime.fromUnixMillis]
      by_cases hle : ((u64At bytes).toNat : Int) ≤ maxTimestampMillis
      · rw [dif_pos hle]
        exact ⟨fun _ _ _ => hle, fun _ => by simp⟩
      · rw [dif_neg hle]
        exact ⟨fun h => absurd rfl h, fun h => absurd (h rfl hlen) hle⟩
    · obtain ⟨e, he⟩ := @decodeBytes_dateTime_short chrono bytes hlen bit
      rw [he]
      exact ⟨fun _ _ h => absurd h hlen, fun _ => by simp⟩
  · exact ⟨fun _ h => absurd h hdt, fun _ => decodeBytes_ne_panicked hdt _ _⟩

/-- These are the words the decoder does not panic on. -/
theorem decodeWords_ne_panicked_iff (ws : List UInt16) :
    m.decodeWords chrono ws ≠ .panicked ↔ m.InRange ws := by
  have hlen : 8 ≤ (applyByteOrder (beBytes ws) m.byteOrder).length ↔ 4 ≤ ws.length := by
    rw [length_applyByteOrder, length_beBytes]
    omega
  unfold TagMapping.decodeWords
  rw [decodeBytes_ne_panicked_iff, hlen]
  rfl

theorem inRange_zeros (n : Nat) : m.InRange (List.replicate n 0) := by
  intro hdt hlen
  obtain ⟨k, rfl⟩ : ∃ k, n = k + 4 := ⟨n - 4, by rw [List.length_replicate] at hlen; omega⟩
  obtain ⟨x, hx⟩ := @exists_dateTime_pair Chrono.rejecting m hdt
  obtain ⟨t, -, -, ht, -⟩ := hx (List.replicate k 0)
  have hzeros : List.replicate (k + 4) (0 : UInt16) = 0 :: 0 :: 0 :: 0 :: List.replicate k 0 := rfl
  have hnot : m.decodeWords Chrono.rejecting (List.replicate (k + 4) 0) ≠ .panicked := by
    rw [hzeros, ht]
    simp
  exact (decodeWords_ne_panicked_iff _).mp hnot hdt hlen

/-- A piece of a harmlessly cut range never panics. -/
theorem inRange_of_cutHarmless (hm : m.CutHarmless) {ws : List UInt16}
    (hlen : ws.length ≤ m.wordCount.toNat) : m.InRange ws := by
  intro hdt h4
  rcases hm with ⟨hsingle, -⟩ | ⟨-, hw⟩
  · rw [hdt] at hsingle
    exact absurd hsingle (by simp [isSingleWord])
  · omega

/-- Unless a cut is harmless, some contents that decode without a panic give
    the last piece another value than the range. -/
theorem exists_decodeWords_drop_ne (hok : m.Ok) (hharm : ¬ m.CutHarmless) {k : Nat} (hk : 1 ≤ k)
    (hkw : k < m.wordCount.toNat) :
    ∃ ws : List UInt16, ws.length = m.wordCount.toNat ∧ m.decodeWords chrono ws ≠ .panicked ∧
      (m.decodeWords chrono (ws.drop k)).value? ≠ (m.decodeWords chrono ws).value? := by
  obtain ⟨hsingle, hshort⟩ := not_or.mp hharm
  by_cases htime : m.dataType = .dateTime
  · have hw : 4 ≤ m.wordCount.toNat := by
      by_contra hw
      exact hshort ⟨.inr (.inr htime), by omega⟩
    obtain ⟨n, hn⟩ : ∃ n, m.wordCount.toNat = n + 4 := ⟨m.wordCount.toNat - 4, by omega⟩
    obtain ⟨x, hx⟩ := @exists_dateTime_pair chrono m htime
    obtain ⟨t, t', hne, ht, ht'⟩ := hx (List.replicate n 0)
    obtain ⟨j, rfl⟩ : ∃ j, k = j + 1 := ⟨k - 1, by omega⟩
    by_contra hall
    push Not at hall
    -- Both contents leave the last piece the same zeros.
    have h0 := hall (0 :: 0 :: 0 :: 0 :: List.replicate n 0) (by simp [hn]) (by rw [ht]; simp)
    have h1 := hall (x :: 0 :: 0 :: 0 :: List.replicate n 0) (by simp [hn]) (by rw [ht']; simp)
    rw [List.drop_succ_cons] at h0 h1
    rw [h0, ht, ht'] at h1
    exact hne (TagValue.dateTime.inj (Option.some.inj h1))
  · have hwhole : (fixedWords m.dataType).getD 0 ≤ m.wordCount.toNat := by
      have hpos := hok.count_pos
      have htwo := hok.two_words
      have hfour := hok.four_words
      cases hdt : m.dataType with
      | dateTime => exact absurd hdt htime
      | int64 =>
          by_contra hlt
          exact hshort ⟨.inl hdt, by simpa [hdt, fixedWords] using hlt⟩
      | uint64 =>
          by_contra hlt
          exact hshort ⟨.inr (.inl hdt), by simpa [hdt, fixedWords] using hlt⟩
      | double => exact hfour hdt
      | float => exact htwo (.inl hdt)
      | int32 => exact htwo (.inr (.inl hdt))
      | uint32 => exact htwo (.inr (.inr hdt))
      | string => exact Nat.zero_le _
      | byteString => exact Nat.zero_le _
      | _ => exact hpos
    obtain ⟨ws, hlen, hne⟩ := exists_piece_ne_whole htime hk hkw hok.bit_lt hsingle
    refine ⟨ws, hlen, decodeBytes_ne_panicked htime _ _, ?_⟩
    rw [value?_decodeWords htime, value?_decodeWords htime, if_neg (by omega : ¬ ws.length < _)]
    by_cases hpiece : (ws.drop k).length < (fixedWords m.dataType).getD 0
    · -- The piece is refused, the range is read.
      rw [if_pos hpiece]
      intro hnone
      have hread : (readValue (ordered m.byteOrder ws) m.bitOffset m.dataType).isSome := by
        cases hdt : m.dataType <;> simp_all [readValue]
      rw [← hnone] at hread
      exact absurd hread (by simp)
    · rw [if_neg hpiece]
      exact hne

end Fins

end PlcBridge
