/-
  PlcBridge.ValueFormat

  The value formats of the two drivers side by side.

  Both encode alike.  The Modbus decoder fills short data with zeros, the FINS
  decoder refuses it; the Modbus decoder reads a `DateTime` as signed
  milliseconds and falls back to the epoch, the FINS decoder reads them as
  unsigned and panics beyond chrono's range.  And `validate` of neither driver
  knows that `Int64`, `UInt64` and `DateTime` take four words.
-/
import PlcBridge.Fins.Codec
import PlcBridge.Modbus.Codec

namespace PlcBridge

open PlcBridge.Lib

variable {chrono : Chrono}

-- ============================================================================
-- The two decoders
-- ============================================================================

/-- The payloads both decoders make the same of: as long as the data type
    needs; for a `DateTime`, too short for milliseconds or milliseconds that
    an unsigned reading keeps in chrono's range. -/
def DecodedAlike (dt : TagDataType) (o : WordOrder) (bytes : List UInt8) : Prop :=
  match dt with
  | .dateTime =>
      bytes.length < 8 ∨ ((u64At (applyByteOrder bytes o)).toNat : Int) ≤ maxTimestampMillis
  | dt => 2 * (fixedWords dt).getD 0 ≤ bytes.length

/-- In range, signed and unsigned milliseconds are the same instant. -/
theorem fromTimestampMillis_eq_fromUnixMillis {ms : UInt64} (h : (ms.toNat : Int) ≤ maxTimestampMillis) :
    DateTime.fromTimestampMillis ms.toInt64 = DateTime.fromUnixMillis ms := by
  have hint : ms.toInt64.toInt = ms.toNat := by
    show ms.toBitVec.toInt = ms.toBitVec.toNat
    apply BitVec.toInt_eq_toNat_of_lt
    show 2 * ms.toNat < 2 ^ 64
    simp only [maxTimestampMillis] at h
    omega
  have hrange : minTimestampMillis ≤ ms.toInt64.toInt ∧ ms.toInt64.toInt ≤ maxTimestampMillis := by
    rw [hint]
    simp only [minTimestampMillis]
    omega
  rw [DateTime.fromTimestampMillis, DateTime.fromUnixMillis, dif_pos hrange, dif_pos h]
  simp only [hint]

theorem decoders_agree_dateTime_iff {bytes : List UInt8} (bit : UInt8) :
    (Modbus.decodeBytesToTagvalue chrono .dateTime bytes bit).toOption =
      (Fins.decodeBytes chrono .dateTime bit bytes).value? ↔
    bytes.length < 8 ∨ ((u64At bytes).toNat : Int) ≤ maxTimestampMillis := by
  by_cases hlen : 8 ≤ bytes.length
  · rw [Modbus.decode_dateTime_long hlen, Fins.decodeBytes_dateTime_long hlen]
    simp only [Nat.not_lt.mpr hlen, false_or]
    by_cases hms : ((u64At bytes).toNat : Int) ≤ maxTimestampMillis
    · have hunix : ∃ dt, DateTime.fromUnixMillis (u64At bytes) = some dt := ⟨_, dif_pos hms⟩
      obtain ⟨dt, hdt⟩ := hunix
      simp [hms, fromTimestampMillis_eq_fromUnixMillis hms, hdt, Except.toOption, Fins.Attempt.value?]
    · have hunix : DateTime.fromUnixMillis (u64At bytes) = none := dif_neg hms
      simp [hms, hunix, Except.toOption, Fins.Attempt.value?]
  · obtain ⟨e, he⟩ := @Fins.decodeBytes_dateTime_short chrono bytes hlen bit
    rw [Modbus.decode_dateTime_short hlen, he]
    simp only [Fins.Attempt.value?, true_iff]
    omega

theorem decoders_agree_of_ne_dateTime_iff {dt : TagDataType} (hdt : dt ≠ .dateTime)
    {bytes : List UInt8} (bit : UInt8) :
    (Modbus.decodeBytesToTagvalue chrono dt bytes bit).toOption =
      (Fins.decodeBytes chrono dt bit bytes).value? ↔ 2 * (fixedWords dt).getD 0 ≤ bytes.length := by
  obtain ⟨v, hv, hread⟩ := @Modbus.exists_decode chrono dt hdt bytes bit
  rw [hv, Fins.value?_decodeBytes hdt, Fins.byteSize, hread]
  by_cases hshort : bytes.length < 2 * (fixedWords dt).getD 0
  · rw [if_pos hshort]
    simp [Except.toOption, hshort]
  · rw [if_neg hshort]
    simpa [Except.toOption] using hshort

/-- Both drivers write the same words for every value, and read the same value
    (or none) from exactly the payloads of `DecodedAlike`. -/
theorem value_formats_agree_iff (chrono : Chrono) (dt : TagDataType) (bit : UInt8) (o : WordOrder)
    (bytes : List UInt8) :
    (∀ v, ∃ words, Modbus.tagvalueToRegisters v = .ok words ∧
      Fins.tagvalueToWordsStandard v = .ok words) ∧
    ((Modbus.decodeBytesToTagvalue chrono dt (applyByteOrder bytes o) bit).toOption =
      (Fins.decodeBytes chrono dt bit (applyByteOrder bytes o)).value? ↔ DecodedAlike dt o bytes) := by
  refine ⟨?_, ?_⟩
  · intro v
    exact ⟨standardWords v, Modbus.tagvalueToRegisters_eq v, Fins.tagvalueToWordsStandard_eq v⟩
  · have hlen := length_applyByteOrder bytes o
    by_cases hdt : dt = .dateTime
    · rw [hdt, decoders_agree_dateTime_iff, hlen]
      rfl
    · rw [decoders_agree_of_ne_dateTime_iff hdt, hlen]
      cases dt with
      | dateTime => exact absurd rfl hdt
      | _ => exact Iff.rfl

/-- An empty payload is the number zero for one driver and an error for the
    other. -/
theorem value_formats_disagree :
    ¬ ∀ (chrono : Chrono) (dt : TagDataType) (bit : UInt8), bit.toNat < 16 →
      ∀ (o : WordOrder) (bytes : List UInt8),
        (Modbus.decodeBytesToTagvalue chrono dt (applyByteOrder bytes o) bit).toOption =
          (Fins.decodeBytes chrono dt bit (applyByteOrder bytes o)).value? := by
  intro h
  exact absurd (h .rejecting .uint16 0 (by decide) .ABCD []) (by decide)

-- ============================================================================
-- Ranges against data types
-- ============================================================================

/-- The range is large enough for every value: none is encoded into more
    words, and every payload of the range is decoded, whatever number reads
    past its end would give. -/
structure Modbus.ModbusMapping.LargeEnough (chrono : Chrono) (m : Modbus.ModbusMapping) : Prop where
  encoded : ∀ v words, v.dataType = m.dataType → Modbus.tagvalueToRegisters v = .ok words →
    words.length ≤ m.quantity.toNat
  decoded : ∀ words, words.length = m.quantity.toNat → ∃ v, m.decodeRegisters chrono words = .ok v
  unfilled : ∀ words, words.length = m.quantity.toNat → ∀ fill,
    Modbus.decodeFilling fill chrono m.dataType
      (applyByteOrder (Modbus.registersToBytes words) m.byteOrder) m.bitOffset =
        m.decodeRegisters chrono words

/-- The same for FINS; a panic is no lack of data. -/
structure Fins.TagMapping.LargeEnough (chrono : Chrono) (m : Fins.TagMapping) : Prop where
  encoded : ∀ v words, v.dataType = m.dataType → Fins.tagvalueToWordsStandard v = .ok words →
    words.length ≤ m.wordCount.toNat
  decoded : ∀ words, words.length = m.wordCount.toNat → ∀ e, m.decodeWords chrono words ≠ .failed e
  unfilled : ∀ words, words.length = m.wordCount.toNat → ∀ fill,
    Fins.decodeFilling fill chrono m.dataType m.bitOffset
      (applyByteOrder (beBytes words) m.byteOrder) = m.decodeWords chrono words

/-- The four-word types whose length neither driver checks. -/
def Unchecked (dt : TagDataType) : Prop := dt = .int64 ∨ dt = .uint64 ∨ dt = .dateTime

/-- What the length checks of either driver come to. -/
theorem fixedWords_le_iff {dt : TagDataType} {n k : Nat} (hk : fixedWords dt = some k) (hpos : 0 < n)
    (htwo : dt = .float ∨ dt = .int32 ∨ dt = .uint32 → 2 ≤ n) (hfour : dt = .double → 4 ≤ n) :
    k ≤ n ↔ (Unchecked dt → 4 ≤ n) := by
  cases dt <;> simp_all [fixedWords, Unchecked] <;> omega

/-- Every data type has a value. -/
theorem exists_value (dt : TagDataType) : ∃ v : TagValue, v.dataType = dt := by
  cases dt with
  | bool => exact ⟨.bool false, rfl⟩
  | int16 => exact ⟨.int16 0, rfl⟩
  | uint16 => exact ⟨.uint16 0, rfl⟩
  | int32 => exact ⟨.int32 0, rfl⟩
  | uint32 => exact ⟨.uint32 0, rfl⟩
  | int64 => exact ⟨.int64 0, rfl⟩
  | uint64 => exact ⟨.uint64 0, rfl⟩
  | float => exact ⟨.float 0, rfl⟩
  | double => exact ⟨.double 0, rfl⟩
  | string => exact ⟨.string "", rfl⟩
  | dateTime => exact ⟨.dateTime .unixEpoch, rfl⟩
  | byteString => exact ⟨.byteString [], rfl⟩

theorem length_standardWords_of_fixed {v : TagValue} {k : Nat} (hk : fixedWords v.dataType = some k) :
    (standardWords v).length = k := by
  rw [length_standardWords, hk]
  rfl

/-- A Modbus range is large enough when it has the words of the data type. -/
theorem Modbus.largeEnough_iff {m : Modbus.ModbusMapping} {k : Nat} (hk : fixedWords m.dataType = some k) :
    m.LargeEnough chrono ↔ k ≤ m.quantity.toNat := by
  constructor
  · intro h
    obtain ⟨v, hv⟩ := exists_value m.dataType
    rw [← hv] at hk
    rw [← length_standardWords_of_fixed hk]
    exact h.encoded v _ hv (Modbus.tagvalueToRegisters_eq v)
  · intro hle
    have hbytes : ∀ words : List UInt16, words.length = m.quantity.toNat →
        2 * (fixedWords m.dataType).getD 0 ≤
          (applyByteOrder (Modbus.registersToBytes words) m.byteOrder).length := by
      intro words hwords
      rw [length_applyByteOrder, Modbus.registersToBytes, length_beBytes, hk, Option.getD_some, hwords]
      omega
    refine ⟨?_, ?_, ?_⟩
    · intro v words hv henc
      rw [Modbus.tagvalueToRegisters_eq] at henc
      obtain rfl := Except.ok.inj henc
      rw [length_standardWords_of_fixed (hv ▸ hk)]
      exact hle
    · intro words hwords
      by_cases hdt : m.dataType = .dateTime
      · rw [hdt] at hk
        obtain rfl := Option.some.inj hk
        exact ⟨_, Modbus.decodeRegisters_dateTime hdt (by omega)⟩
      · obtain ⟨v, hv, -⟩ := @Modbus.exists_decode chrono m.dataType hdt
          (applyByteOrder (Modbus.registersToBytes words) m.byteOrder) m.bitOffset
        exact ⟨v, hv⟩
    · intro words hwords fill
      exact Modbus.decodeFilling_eq (hbytes words hwords) fill m.bitOffset

/-- And so is a FINS range. -/
theorem Fins.largeEnough_iff {m : Fins.TagMapping} {k : Nat} (hk : fixedWords m.dataType = some k) :
    m.LargeEnough chrono ↔ k ≤ m.wordCount.toNat := by
  constructor
  · intro h
    obtain ⟨v, hv⟩ := exists_value m.dataType
    rw [← hv] at hk
    rw [← length_standardWords_of_fixed hk]
    exact h.encoded v _ hv (Fins.tagvalueToWordsStandard_eq v)
  · intro hle
    -- What the decoder does with the words of the range, for any fallback.
    have hdecode : ∀ words : List UInt16, words.length = m.wordCount.toNat →
        ∃ r, (∀ e, r ≠ .failed e) ∧ ∀ fill, Fins.decodeFilling fill chrono m.dataType m.bitOffset
          (applyByteOrder (beBytes words) m.byteOrder) = r := by
      intro words hwords
      have hlen : (applyByteOrder (beBytes words) m.byteOrder).length = 2 * m.wordCount.toNat := by
        rw [length_applyByteOrder, length_beBytes, hwords]
      by_cases hdt : m.dataType = .dateTime
      · rw [hdt] at hk ⊢
        obtain rfl := Option.some.inj hk
        refine ⟨_, ?_, fun fill => Fins.decodeFilling_dateTime_long (by omega) fill m.bitOffset⟩
        intro e
        split <;> simp
      · obtain ⟨hshort, -⟩ | ⟨-, v, -, hdone⟩ := Fins.decodeFilling_cases chrono hdt m.bitOffset
          (applyByteOrder (beBytes words) m.byteOrder)
        · rw [hlen, Fins.byteSize, hk, Option.getD_some] at hshort
          omega
        · exact ⟨.done v, by simp, hdone⟩
    refine ⟨?_, ?_, ?_⟩
    · intro v words hv henc
      rw [Fins.tagvalueToWordsStandard_eq] at henc
      obtain rfl := Except.ok.inj henc
      rw [length_standardWords_of_fixed (hv ▸ hk)]
      exact hle
    · intro words hwords e
      obtain ⟨r, hr, hall⟩ := hdecode words hwords
      rw [Fins.TagMapping.decodeWords, Fins.decodeBytes, hall]
      exact hr e
    · intro words hwords fill
      obtain ⟨r, -, hall⟩ := hdecode words hwords
      rw [Fins.TagMapping.decodeWords, Fins.decodeBytes, hall, hall]

/-- Accepted mappings of a fixed-size type are large enough, unless they hold
    an `Int64`, `UInt64` or `DateTime` in fewer than four words. -/
theorem validated_large_enough_iff (chrono : Chrono) :
    (∀ order mappings (m : Modbus.ModbusMapping), Modbus.validate order mappings = .ok () →
      m ∈ mappings → m.function = .holdingRegisters ∨ m.function = .inputRegisters →
      (fixedWords m.dataType).isSome →
      (m.LargeEnough chrono ↔ (Unchecked m.dataType → 4 ≤ m.quantity.toNat))) ∧
    ∀ order mappings (m : Fins.TagMapping), Fins.validate order mappings = .ok () →
      m ∈ mappings → (fixedWords m.dataType).isSome →
      (m.LargeEnough chrono ↔ (Unchecked m.dataType → 4 ≤ m.wordCount.toNat)) := by
  refine ⟨?_, ?_⟩
  · intro order mappings m hvalid hm hfunc hfixed
    obtain ⟨k, hk⟩ := Option.isSome_iff_exists.mp hfixed
    have hok := (Modbus.of_validate hvalid).1 m hm
    rw [Modbus.largeEnough_iff hk]
    exact fixedWords_le_iff hk hok.quantity_pos hok.two_words hok.four_words
  · intro order mappings m hvalid hm hfixed
    obtain ⟨k, hk⟩ := Option.isSome_iff_exists.mp hfixed
    have hok := (Fins.of_validate hvalid).1 m hm
    rw [Fins.largeEnough_iff hk]
    exact fixedWords_le_iff hk hok.count_pos hok.two_words hok.four_words

/-- A counter of 64 bits in one register, and a total in two. -/
def tightMappings : List Modbus.ModbusMapping :=
  [{ tagId := "counter", dataType := .int64, address := 0, function := .holdingRegisters },
   { tagId := "total", dataType := .uint32, address := 1, quantity := 2, function := .holdingRegisters }]

theorem validated_large_enough_total :
    (⟨"total", .uint32, 1, 2, .holdingRegisters, 0, false, .ABCD⟩ :
      Modbus.ModbusMapping).LargeEnough .rejecting := by
  apply ((validated_large_enough_iff .rejecting).1 .declared tightMappings _ (by decide) (by decide)
    (.inl rfl) rfl).mpr
  rintro (h | h | h) <;> cases h

/-- The counter is accepted and does not fit. -/
theorem accepted_counter_too_small :
    ¬ ∀ (chrono : Chrono) order mappings (m : Modbus.ModbusMapping),
      Modbus.validate order mappings = .ok () → m ∈ mappings →
      m.function = .holdingRegisters ∨ m.function = .inputRegisters →
      (fixedWords m.dataType).isSome → m.LargeEnough chrono := by
  intro h
  have hlarge := h .rejecting .declared tightMappings
    ⟨"counter", .int64, 0, 1, .holdingRegisters, 0, false, .ABCD⟩ (by decide) (by decide) (.inl rfl) rfl
  have hlen := hlarge.encoded (.int64 0) _ rfl rfl
  exact absurd hlen (by decide)

end PlcBridge
