/-
  PlcBridge.Modbus.Codec

  Decoding registers and encoding values in the Modbus driver
  (`registers_to_bytes`, `decode_bytes_to_tagvalue`, `tagvalue_to_registers`
  of driver/modbus/src/driver.rs).
-/
import PlcBridge.Driver.Pieces
import PlcBridge.Modbus.Mapping

namespace PlcBridge.Modbus

open PlcBridge.Lib

/-- Registers as raw bytes, big-endian. -/
def registersToBytes (registers : List UInt16) : List UInt8 := beBytes registers

/-- `decode_bytes_to_tagvalue` with `fill` in place of the zero its reads fall
    back to at the end of the buffer. -/
def decodeFilling (fill : UInt16) (chrono : Chrono) (dataType : TagDataType) (bytes : List UInt8)
    (bitOffset : UInt8) : Except DriverError TagValue :=
  let word := wordOr fill bytes
  match dataType with
  | .bool => .ok (.bool (((word 0 >>> bitOffset.toUInt16) &&& 0x1) != 0))
  | .uint16 => .ok (.uint16 (word 0))
  | .int16 => .ok (.int16 (word 0).toInt16)
  | .uint32 => .ok (.uint32 (u32OfWords (word 0) (word 1)))
  | .int32 => .ok (.int32 (u32OfWords (word 0) (word 1)).toInt32)
  | .float => .ok (.float (u32OfWords (word 0) (word 1)))
  | .double => .ok (.double (u64OfWords (word 0) (word 1) (word 2) (word 3)))
  | .int64 => .ok (.int64 (u64OfWords (word 0) (word 1) (word 2) (word 3)).toInt64)
  | .uint64 => .ok (.uint64 (u64OfWords (word 0) (word 1) (word 2) (word 3)))
  | .dateTime =>
      -- Eight bytes are milliseconds since the Unix epoch, fewer are text.
      if 8 ≤ bytes.length then
        let ms := (u64OfWords (word 0) (word 1) (word 2) (word 3)).toInt64
        .ok (.dateTime ((DateTime.fromTimestampMillis ms).getD .unixEpoch))
      else
        match fromUtf8 bytes with
        | none => .error (.other "Not enough data for DateTime and not valid UTF-8")
        | some s =>
            match chrono.parseFromRfc3339 s with
            | none => .error (.other "Invalid DateTime format")
            | some dt => .ok (.dateTime dt)
  | .byteString => .ok (.byteString bytes)
  | .string => .ok (.string (decodeString bytes))

/-- Decode raw bytes into a value of the mapping's declared data type. -/
def decodeBytesToTagvalue (chrono : Chrono) (dataType : TagDataType) (bytes : List UInt8)
    (bitOffset : UInt8) : Except DriverError TagValue :=
  decodeFilling 0 chrono dataType bytes bitOffset

/-- Convert a value into registers suitable for Modbus write methods. -/
def tagvalueToRegisters : TagValue → Except DriverError (List UInt16)
  | .bool b => .ok [if b then 1 else 0]
  | .uint16 v => .ok [v]
  | .int16 v => .ok [v.toUInt16]
  | .uint32 v => .ok [((v >>> 16) &&& 0xFFFF).toUInt16, (v &&& 0xFFFF).toUInt16]
  | .int32 v =>
      let ux := v.toUInt32
      .ok [((ux >>> 16) &&& 0xFFFF).toUInt16, (ux &&& 0xFFFF).toUInt16]
  | .float bits => .ok [((bits >>> 16) &&& 0xFFFF).toUInt16, (bits &&& 0xFFFF).toUInt16]
  | .double bits =>
      .ok [((bits >>> 48) &&& 0xFFFF).toUInt16, ((bits >>> 32) &&& 0xFFFF).toUInt16,
        ((bits >>> 16) &&& 0xFFFF).toUInt16, (bits &&& 0xFFFF).toUInt16]
  | .uint64 bits =>
      .ok [((bits >>> 48) &&& 0xFFFF).toUInt16, ((bits >>> 32) &&& 0xFFFF).toUInt16,
        ((bits >>> 16) &&& 0xFFFF).toUInt16, (bits &&& 0xFFFF).toUInt16]
  | .int64 v =>
      let bits := v.toUInt64
      .ok [((bits >>> 48) &&& 0xFFFF).toUInt16, ((bits >>> 32) &&& 0xFFFF).toUInt16,
        ((bits >>> 16) &&& 0xFFFF).toUInt16, (bits &&& 0xFFFF).toUInt16]
  | .dateTime dt =>
      let ms := dt.timestampMillis.toUInt64
      .ok [((ms >>> 48) &&& 0xFFFF).toUInt16, ((ms >>> 32) &&& 0xFFFF).toUInt16,
        ((ms >>> 16) &&& 0xFFFF).toUInt16, (ms &&& 0xFFFF).toUInt16]
  | .byteString b => .ok (beWords (if b.length % 2 ≠ 0 then b ++ [0] else b))
  | .string s =>
      let bytes := utf8Bytes s
      .ok (beWords (if bytes.length % 2 ≠ 0 then bytes ++ [0] else bytes))

/-- The registers are the standard words. -/
theorem tagvalueToRegisters_eq (value : TagValue) :
    tagvalueToRegisters value = .ok (standardWords value) := by
  cases value <;> rfl

/-- A mapping's value from the registers of its range (or a piece of it). -/
def ModbusMapping.decodeRegisters (chrono : Chrono) (m : ModbusMapping) (registers : List UInt16) :
    Except DriverError TagValue :=
  decodeBytesToTagvalue chrono m.dataType (applyByteOrder (registersToBytes registers) m.byteOrder)
    m.bitOffset

-- ============================================================================
-- Facts about the decoder
-- ============================================================================

variable {chrono : Chrono}

theorem dataType_of_decode {dt : TagDataType} {bytes : List UInt8} {bit : UInt8} {v : TagValue}
    (h : decodeBytesToTagvalue chrono dt bytes bit = .ok v) : v.dataType = dt := by
  rw [decodeBytesToTagvalue] at h
  cases dt with
  | dateTime =>
      simp only [decodeFilling] at h
      split at h
      · rw [← Except.ok.inj h]
        rfl
      · split at h
        · exact absurd h (by simp)
        · split at h
          · exact absurd h (by simp)
          · rw [← Except.ok.inj h]
            rfl
  | _ =>
      rw [← Except.ok.inj h]
      rfl

/-- With enough data for the type no read falls back. -/
theorem decodeFilling_eq {dt : TagDataType} {bytes : List UInt8}
    (h : 2 * (fixedWords dt).getD 0 ≤ bytes.length) (fill : UInt16) (bit : UInt8) :
    decodeFilling fill chrono dt bytes bit = decodeBytesToTagvalue chrono dt bytes bit := by
  have hword : ∀ i, i < (fixedWords dt).getD 0 → wordOr fill bytes i = wordOr 0 bytes i := by
    intro i hi
    rw [wordOr_eq_wordAt (by omega), wordOr_eq_wordAt (by omega)]
  rw [decodeBytesToTagvalue]
  cases dt with
  | string => rfl
  | byteString => rfl
  | bool => simp only [decodeFilling, hword 0 Nat.one_pos]
  | uint16 => simp only [decodeFilling, hword 0 Nat.one_pos]
  | int16 => simp only [decodeFilling, hword 0 Nat.one_pos]
  | uint32 => simp only [decodeFilling, hword 0 (Nat.two_pos), hword 1 (Nat.one_lt_two)]
  | int32 => simp only [decodeFilling, hword 0 (Nat.two_pos), hword 1 (Nat.one_lt_two)]
  | float => simp only [decodeFilling, hword 0 (Nat.two_pos), hword 1 (Nat.one_lt_two)]
  | _ =>
      have h0 := hword 0 (Nat.lt_of_sub_eq_succ rfl)
      have h1 := hword 1 (Nat.lt_of_sub_eq_succ rfl)
      have h2 := hword 2 (Nat.lt_of_sub_eq_succ rfl)
      have h3 := hword 3 (Nat.lt_of_sub_eq_succ rfl)
      simp only [decodeFilling, h0, h1, h2, h3]

/-- All types but a short `DateTime` are decoded from any buffer. -/
theorem exists_decode {dt : TagDataType} (hdt : dt ≠ .dateTime) (bytes : List UInt8) (bit : UInt8) :
    ∃ v, decodeBytesToTagvalue chrono dt bytes bit = .ok v ∧ readValue bytes bit dt = some v := by
  cases dt with
  | dateTime => exact absurd rfl hdt
  | _ => exact ⟨_, rfl, rfl⟩

theorem toOption_decode {dt : TagDataType} (hdt : dt ≠ .dateTime) (bytes : List UInt8)
    (bit : UInt8) : (decodeBytesToTagvalue chrono dt bytes bit).toOption = readValue bytes bit dt := by
  cases dt with
  | dateTime => exact absurd rfl hdt
  | _ => rfl

theorem decode_dateTime_long {bytes : List UInt8} (h : 8 ≤ bytes.length) (bit : UInt8) :
    decodeBytesToTagvalue chrono .dateTime bytes bit =
      .ok (.dateTime ((DateTime.fromTimestampMillis (u64At bytes).toInt64).getD .unixEpoch)) :=
  if_pos h

/-- Fewer than eight bytes never make a `DateTime`. -/
theorem decode_dateTime_short {bytes : List UInt8} (h : ¬ 8 ≤ bytes.length) (bit : UInt8) :
    (decodeBytesToTagvalue chrono .dateTime bytes bit).toOption = none := by
  rw [decodeBytesToTagvalue, decodeFilling]
  simp only [if_neg h]
  cases hs : fromUtf8 bytes with
  | none => rfl
  | some s =>
      have hlen : s.utf8ByteSize < 20 := by
        rw [← length_utf8Bytes, fromUtf8_eq_some.mp hs]
        omega
      simp only [chrono.too_short s hlen]
      rfl

-- ============================================================================
-- Decoding the last piece of a range
-- ============================================================================

/-- The ranges for which it does not matter that only the last piece counts:
    a one-register value in the second of two word-swapped registers, and a
    `DateTime` too short to be read at all. -/
def ModbusMapping.CutHarmless (m : ModbusMapping) : Prop :=
  (isSingleWord m.dataType ∧ m.quantity.toNat = 2 ∧ ¬ m.byteOrder.keepsPlaces) ∨
  (m.dataType = .dateTime ∧ m.quantity.toNat < 4)

theorem toOption_decodeRegisters {m : ModbusMapping} (hdt : m.dataType ≠ .dateTime)
    (ws : List UInt16) :
    (m.decodeRegisters chrono ws).toOption = readValue (ordered m.byteOrder ws) m.bitOffset m.dataType :=
  toOption_decode hdt _ _

theorem decodeRegisters_dateTime {m : ModbusMapping} (hdt : m.dataType = .dateTime)
    {ws : List UInt16} (h : 4 ≤ ws.length) :
    m.decodeRegisters chrono ws = .ok (.dateTime
      ((DateTime.fromTimestampMillis (u64At (ordered m.byteOrder ws)).toInt64).getD .unixEpoch)) := by
  unfold ModbusMapping.decodeRegisters
  rw [hdt]
  apply decode_dateTime_long
  have := length_ordered m.byteOrder ws
  simp only [ordered] at this
  rw [registersToBytes, this]
  omega

theorem decodeRegisters_dateTime_short {m : ModbusMapping} (hdt : m.dataType = .dateTime)
    {ws : List UInt16} (h : ws.length < 4) : (m.decodeRegisters chrono ws).toOption = none := by
  unfold ModbusMapping.decodeRegisters
  rw [hdt]
  apply decode_dateTime_short
  have := length_ordered m.byteOrder ws
  simp only [ordered] at this
  rw [registersToBytes, this]
  omega

theorem isSome_decodeRegisters {m : ModbusMapping} {ws : List UInt16} :
    (m.decodeRegisters chrono ws).toOption.isSome ↔ (m.dataType = .dateTime → 4 ≤ ws.length) := by
  by_cases hdt : m.dataType = .dateTime
  · rcases Nat.lt_or_ge ws.length 4 with hshort | hlong
    · rw [decodeRegisters_dateTime_short hdt hshort]
      exact ⟨fun h => absurd h (by simp), fun h => absurd (h hdt) (Nat.not_le.mpr hshort)⟩
    · rw [decodeRegisters_dateTime hdt hlong]
      exact ⟨fun _ _ => hlong, fun _ => rfl⟩
  · obtain ⟨v, hv, -⟩ := @exists_decode chrono m.dataType hdt
      (applyByteOrder (registersToBytes ws) m.byteOrder) m.bitOffset
    rw [ModbusMapping.decodeRegisters, hv]
    exact ⟨fun _ h => absurd h hdt, fun _ => rfl⟩

theorem decodeRegisters_drop {m : ModbusMapping} (hm : m.CutHarmless) {ws : List UInt16}
    (hlen : ws.length = m.quantity.toNat) {k : Nat} (hk : 1 ≤ k) (hkq : k < m.quantity.toNat) :
    (m.decodeRegisters chrono (ws.drop k)).toOption = (m.decodeRegisters chrono ws).toOption := by
  rcases hm with ⟨hsingle, hq, ho⟩ | ⟨hdt, hq⟩
  · have hk1 : k = 1 := by omega
    obtain ⟨a, b, rfl⟩ : ∃ a b, ws = [a, b] := List.length_eq_two.mp (hlen.trans hq)
    have hdt : m.dataType ≠ .dateTime := by
      rintro hdt
      simp [hdt, isSingleWord] at hsingle
    rw [hk1, toOption_decodeRegisters hdt, toOption_decodeRegisters hdt]
    exact readValue_last_of_pair a b hsingle ho
  · rw [decodeRegisters_dateTime_short hdt (by rw [List.length_drop]; omega),
      decodeRegisters_dateTime_short hdt (by omega)]

/-- A `DateTime` cut behind its first register: zeros against a small count
    of milliseconds, or a value against none at all. -/
theorem exists_dateTime_piece_ne {m : ModbusMapping} (hdt : m.dataType = .dateTime)
    (hq : 4 ≤ m.quantity.toNat) {k : Nat} (hk : 1 ≤ k) :
    ∃ ws : List UInt16, ws.length = m.quantity.toNat ∧
      (m.decodeRegisters chrono (ws.drop k)).toOption ≠ (m.decodeRegisters chrono ws).toOption := by
  obtain ⟨n, hn⟩ : ∃ n, m.quantity.toNat = n + 4 := ⟨m.quantity.toNat - 4, by omega⟩
  obtain ⟨x, hx⟩ := exists_small_millis m.byteOrder
  by_contra hall
  push Not at hall
  obtain ⟨j, rfl⟩ : ∃ j, k = j + 1 := ⟨k - 1, by omega⟩
  -- The two contents differ in the first register only.
  have h0 := hall (0 :: 0 :: 0 :: 0 :: List.replicate n 0) (by simp [hn])
  have h1 := hall (x :: 0 :: 0 :: 0 :: List.replicate n 0) (by simp [hn])
  rw [List.drop_succ_cons] at h0 h1
  rw [h0, decodeRegisters_dateTime hdt (by simp), decodeRegisters_dateTime hdt (by simp)] at h1
  have hzero : u64At (ordered m.byteOrder (0 :: 0 :: 0 :: 0 :: List.replicate n 0)) = 0 := by
    simp only [u64At, ordered, wordAt_zero_ordered, wordAt_one_ordered]
    rw [wordAt_add_two_ordered _ _ _ _ 0, wordAt_add_two_ordered _ _ _ _ 1, wordAt_zero_ordered,
      wordAt_one_ordered]
    cases m.byteOrder <;> decide
  have hpos := hx (List.replicate n 0)
  generalize hv : u64At (ordered m.byteOrder (x :: 0 :: 0 :: 0 :: List.replicate n 0)) = v at hpos h1
  have hint : v.toInt64.toInt = v.toNat := by
    show v.toBitVec.toInt = v.toBitVec.toNat
    apply BitVec.toInt_eq_toNat_of_lt
    show 2 * v.toNat < 2 ^ 64
    omega
  have hrange : minTimestampMillis ≤ v.toInt64.toInt ∧ v.toInt64.toInt ≤ maxTimestampMillis := by
    rw [hint]
    simp only [minTimestampMillis, maxTimestampMillis]
    omega
  rw [hzero] at h1
  simp only [Except.toOption, DateTime.fromTimestampMillis, dif_pos hrange, Option.getD_some,
    Option.some.injEq, TagValue.dateTime.injEq] at h1
  have hnanos := congrArg DateTime.nanos h1
  simp only [hint] at hnanos
  rw [dif_pos (by decide)] at hnanos
  simp at hnanos
  omega

/-- Whether the last piece of a cut range always decodes to the value of the
    whole range. -/
theorem decodeRegisters_drop_iff {m : ModbusMapping} (hbit : m.bitOffset.toNat < 16) {k : Nat}
    (hk : 1 ≤ k) (hkq : k < m.quantity.toNat) :
    (∀ ws : List UInt16, ws.length = m.quantity.toNat →
      (m.decodeRegisters chrono (ws.drop k)).toOption = (m.decodeRegisters chrono ws).toOption) ↔
    m.CutHarmless := by
  constructor
  · intro hall
    by_contra hharm
    obtain ⟨hsingle, hshort⟩ := not_or.mp hharm
    by_cases hdt : m.dataType = .dateTime
    · have hq : 4 ≤ m.quantity.toNat := by
        by_contra hq
        exact hshort ⟨hdt, by omega⟩
      obtain ⟨ws, hlen, hne⟩ := @exists_dateTime_piece_ne chrono m hdt hq k hk
      exact hne (hall ws hlen)
    · obtain ⟨ws, hlen, hne⟩ := exists_piece_ne_whole hdt hk hkq hbit hsingle
      rw [← @toOption_decodeRegisters chrono m hdt, ← @toOption_decodeRegisters chrono m hdt] at hne
      exact hne (hall ws hlen)
  · intro hm ws hlen
    exact decodeRegisters_drop hm hlen hk hkq

end PlcBridge.Modbus
