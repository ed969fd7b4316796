/-
  PlcBridge.Modbus.WriteReadBack

  A write followed by a read of the same mapping.  From exactly its own
  registers every value comes back (`values_survive_encoding`).  On a device
  the read decodes the whole range; what older registers behind the value, the
  byte order and the bit offset do to the result decides whether the value
  comes back (`write_then_read_iff`).
-/
import PlcBridge.Driver.ReadBack
import PlcBridge.Modbus.Steps

namespace PlcBridge.Modbus

open PlcBridge.Lib

variable {chrono : Chrono} {m : ModbusMapping} {v : TagValue}

theorem writeWords_eq (m : ModbusMapping) (v : TagValue) :
    m.writeWords v = m.byteOrder.onWords (standardWords v) := by
  rw [ModbusMapping.writeWords, ModbusMapping.orderedWords, registersToBytes,
    applyByteOrder_beBytes, beWords_beBytes]

theorem length_writeWords (m : ModbusMapping) (v : TagValue) :
    (m.writeWords v).length = (standardWords v).length := by
  rw [writeWords_eq, WordOrder.length_onWords]

/-- The registers of the mapping's range after the device stored the words of
    `v` over `regs`. -/
def ModbusMapping.rangeAfterWrite (m : ModbusMapping) (regs : Nat → UInt16) (v : TagValue) :
    List UInt16 := window (overwrite regs m.lo (m.writeWords v)) m.lo m.len

theorem rangeAfterWrite_eq (regs : Nat → UInt16)
    (hfit : (standardWords v).length ≤ m.quantity.toNat) :
    m.rangeAfterWrite regs v = m.byteOrder.onWords (standardWords v) ++
      window regs (m.lo + (standardWords v).length) (m.quantity.toNat - (standardWords v).length) := by
  rw [ModbusMapping.rangeAfterWrite, window_overwrite _ _ _ (by rw [length_writeWords]; exact hfit),
    length_writeWords, writeWords_eq]
  rfl

theorem decodeRegisters_eq_ok_iff (hdt : m.dataType ≠ .dateTime) {ws : List UInt16} :
    m.decodeRegisters chrono ws = .ok v ↔
      readValue (ordered m.byteOrder ws) m.bitOffset m.dataType = some v := by
  rw [← @toOption_decodeRegisters chrono m hdt]
  cases m.decodeRegisters chrono ws with
  | ok w => simp [Except.toOption]
  | error e => simp [Except.toOption]

-- ============================================================================
-- Encoding and decoding
-- ============================================================================

/-- What a reader makes of the registers the write phase sends for a value:
    encoded, reordered and split into registers, then back to bytes, reordered
    again and decoded. -/
def reread (chrono : Chrono) (o : WordOrder) (v : TagValue) : Except DriverError TagValue := do
  let registers ← tagvalueToRegisters v
  let sent := beWords (applyByteOrder (registersToBytes registers) o)
  decodeBytesToTagvalue chrono v.dataType (applyByteOrder (registersToBytes sent) o) 0

/-- The standard words of a value decode to what registers can hold of it. -/
theorem decode_standardWords (chrono : Chrono) (v : TagValue) :
    decodeBytesToTagvalue chrono v.dataType (beBytes (standardWords v)) 0 = .ok v.readBack := by
  by_cases htime : v.dataType = .dateTime
  · cases v with
    | dateTime dt =>
        have hlen : 8 ≤ (beBytes (standardWords (.dateTime dt))).length := by
          rw [length_beBytes]
          show 8 ≤ 2 * 4
          omega
        have hms := u64At_dateTime dt []
        rw [List.append_nil] at hms
        rw [htime, decode_dateTime_long hlen, hms, DateTime.fromTimestampMillis_timestampMillis]
        rfl
    | _ => simp [TagValue.dataType] at htime
  · obtain ⟨w, hw, hread⟩ := @exists_decode chrono v.dataType htime (beBytes (standardWords v)) 0
    have hback : readValue (beBytes (standardWords v)) 0 v.dataType = some v.readBack := by
      by_cases hbuffer : v.dataType = .string ∨ v.dataType = .byteString
      · exact readValue_bytesToWords hbuffer
      · have hself : v.selfContained 0 := by
          cases v with
          | bool b => exact .inl rfl
          | string s => exact absurd (.inl rfl) hbuffer
          | byteString b => exact absurd (.inr rfl) hbuffer
          | _ => trivial
        have hfront := readValue_standardWords (by decide) htime hself []
        rwa [List.append_nil] at hfront
    rw [hw, Option.some.inj (hread.symm.trans hback)]

/-- Every value survives, up to what registers can hold of it: reordering is
    its own inverse on buffers of any length. -/
theorem values_survive_encoding (chrono : Chrono) (o : WordOrder) (v : TagValue) :
    reread chrono o v = .ok v.readBack := by
  have hsent : beWords (applyByteOrder (registersToBytes (standardWords v)) o) =
      o.onWords (standardWords v) := by
    rw [registersToBytes, applyByteOrder_beBytes, beWords_beBytes]
  have hagain : applyByteOrder (registersToBytes (o.onWords (standardWords v))) o =
      beBytes (standardWords v) := by
    rw [registersToBytes, applyByteOrder_beBytes, o.onWords_self]
  rw [reread, tagvalueToRegisters_eq]
  show decodeBytesToTagvalue chrono v.dataType (applyByteOrder (registersToBytes
    (beWords (applyByteOrder (registersToBytes (standardWords v)) o))) o) 0 = _
  rw [hsent, hagain, decode_standardWords]

-- ============================================================================
-- When the value comes back
-- ============================================================================

/-- The mappings and values for which a write can be read back: one-register
    values in a register that stays in its place (a true Boolean in bit 0),
    texts and byte strings that fill the range, every wider value. -/
def ModbusMapping.RoundTrips (m : ModbusMapping) (v : TagValue) : Prop :=
  match m.dataType with
  | .bool => m.byteOrder.keepsPlaces ∧ (m.bitOffset = 0 ∨ v = .bool false)
  | .int16 | .uint16 => m.byteOrder.keepsPlaces
  | .string | .byteString => (payloadBytes v + 1) / 2 = m.quantity.toNat
  | _ => True

/-- What the reader sees: the value's words in front. -/
theorem ordered_rangeAfterWrite (regs : Nat → UInt16)
    (hfit : (standardWords v).length ≤ m.quantity.toNat)
    (h : (standardWords v).length % 2 = 0 ∨ m.byteOrder.keepsPlaces ∨
      (standardWords v).length = m.quantity.toNat) :
    ∃ tail, ordered m.byteOrder (m.rangeAfterWrite regs v) = beBytes (standardWords v ++ tail) ∧
      tail.length = m.quantity.toNat - (standardWords v).length := by
  rw [rangeAfterWrite_eq regs hfit, ordered, applyByteOrder_beBytes]
  obtain ⟨tail, htail, hlen⟩ := m.byteOrder.onWords_stored (standardWords v)
    (window regs (m.lo + (standardWords v).length) (m.quantity.toNat - (standardWords v).length)) (by
      refine h.imp_right (Or.imp_right fun heq => ?_)
      rw [heq, Nat.sub_self, window_zero])
  exact ⟨tail, by rw [htail], by rw [hlen, length_window]⟩

theorem reads_back_dateTime (hdt : v.dataType = m.dataType) (htime : m.dataType = .dateTime)
    (hfit : (standardWords v).length ≤ m.quantity.toNat) (regs : Nat → UInt16) :
    m.decodeRegisters chrono (m.rangeAfterWrite regs v) = .ok v.readBack := by
  cases v with
  | dateTime dt =>
      have hfour : (standardWords (.dateTime dt)).length = 4 := rfl
      obtain ⟨tail, htail, -⟩ := ordered_rangeAfterWrite regs hfit (.inl (by rw [hfour]))
      have hlen : 4 ≤ (m.rangeAfterWrite regs (.dateTime dt)).length := by
        rw [ModbusMapping.rangeAfterWrite, length_window]
        exact hfour ▸ hfit
      rw [decodeRegisters_dateTime htime hlen, htail, u64At_dateTime,
        DateTime.fromTimestampMillis_timestampMillis, Option.getD_some]
      rfl
  | _ =>
      rw [htime] at hdt
      simp [TagValue.dataType] at hdt

theorem reads_back_of_roundTrips (hbit : m.bitOffset.toNat < 16) (hdt : v.dataType = m.dataType)
    (hfit : (standardWords v).length ≤ m.quantity.toNat) (h : m.RoundTrips v)
    (regs : Nat → UInt16) :
    m.decodeRegisters chrono (m.rangeAfterWrite regs v) = .ok v.readBack := by
  by_cases htime : m.dataType = .dateTime
  · exact reads_back_dateTime hdt htime hfit regs
  rw [decodeRegisters_eq_ok_iff htime]
  have hlength := length_standardWords v
  rw [ModbusMapping.RoundTrips] at h
  by_cases hbuffer : v.dataType = .string ∨ v.dataType = .byteString
  · -- The value fills the range, so nothing is behind it.
    have hfull : (standardWords v).length = m.quantity.toNat := by
      rcases hbuffer with hb | hb
      · rw [← hdt, hb] at h
        rw [hlength, hb]
        exact h
      · rw [← hdt, hb] at h
        rw [hlength, hb]
        exact h
    obtain ⟨tail, htail, hnil⟩ := ordered_rangeAfterWrite regs hfit (.inr (.inr hfull))
    rw [hfull, Nat.sub_self, List.length_eq_zero_iff] at hnil
    rw [htail, hnil, List.append_nil, ← hdt]
    exact readValue_bytesToWords hbuffer
  · have hself : v.selfContained m.bitOffset ∧
        ((standardWords v).length % 2 = 0 ∨ m.byteOrder.keepsPlaces) := by
      rw [← hdt] at h
      cases v with
      | bool b => exact ⟨h.2.imp_right fun hb => TagValue.bool.inj hb, .inr h.1⟩
      | int16 v => exact ⟨trivial, .inr h⟩
      | uint16 v => exact ⟨trivial, .inr h⟩
      | string s => exact absurd (.inl rfl) hbuffer
      | byteString b => exact absurd (.inr rfl) hbuffer
      | _ =>
          refine ⟨trivial, .inl ?_⟩
          simp [hlength, TagValue.dataType, fixedWords]
    obtain ⟨tail, htail, -⟩ := ordered_rangeAfterWrite regs hfit (hself.2.imp_right .inl)
    rw [htail, ← hdt]
    exact readValue_standardWords hbit (by rw [hdt]; exact htime) hself.1 tail

-- ============================================================================
-- When it does not
-- ============================================================================

/-- A range filled with one older word behind a single stored register. -/
theorem rangeAfterWrite_single {w : UInt16} (hone : (standardWords v).length = 1)
    (hq : 2 ≤ m.quantity.toNat) :
    ∃ x ws, m.rangeAfterWrite (fun _ => w) v = x :: w :: ws := by
  rw [rangeAfterWrite_eq _ (by omega), hone]
  obtain ⟨x, hx⟩ := List.length_eq_one_iff.mp ((m.byteOrder.length_onWords _).trans hone)
  obtain ⟨n, hn⟩ : ∃ n, m.quantity.toNat - 1 = n + 1 := ⟨m.quantity.toNat - 2, by omega⟩
  exact ⟨x, window (fun _ => w) (m.lo + 1 + 1) n, by rw [hx, hn, window_succ]; rfl⟩

/-- With a word-swapping order the register behind a one-register value is
    read in its place. -/
theorem keepsPlaces_of_reads_back (hok : m.Ok) (hdt : v.dataType = m.dataType)
    (hsingle : isSingleWord m.dataType)
    (h : ∀ regs, m.decodeRegisters chrono (m.rangeAfterWrite regs v) = .ok v.readBack) :
    m.byteOrder.keepsPlaces := by
  by_contra hswap
  have htime : m.dataType ≠ .dateTime := by
    intro htime
    simp [htime, isSingleWord] at hsingle
  have hone : (standardWords v).length = 1 := by
    rw [length_standardWords, hdt]
    cases hmt : m.dataType <;> simp_all [isSingleWord, fixedWords]
  have hq : 2 ≤ m.quantity.toNat := by
    apply hok.word_pair
    cases ho : m.byteOrder <;> simp_all [WordOrder.keepsPlaces]
  have hones := (decodeRegisters_eq_ok_iff htime).mp (h fun _ => 0xFFFF)
  have hzero := (decodeRegisters_eq_ok_iff htime).mp (h fun _ => 0)
  obtain ⟨x, ws, hx⟩ := @rangeAfterWrite_single m v 0xFFFF hone hq
  obtain ⟨y, ws', hy⟩ := @rangeAfterWrite_single m v 0 hone hq
  rw [hx] at hones
  rw [hy] at hzero
  refine readValue_ones_ne_zero hsingle hok.bit_lt ?_ ?_ (hones.trans hzero.symm)
  · rw [ordered, wordAt_zero_ordered, (WordOrder.firstPair_of_swap hswap x).1]
  · rw [ordered, wordAt_zero_ordered, (WordOrder.firstPair_of_swap hswap y).2]

/-- A text or byte string that leaves a register of the range free is read
    together with what that register held before. -/
theorem full_of_reads_back (hdt : v.dataType = m.dataType)
    (hbuffer : m.dataType = .string ∨ m.dataType = .byteString)
    (hfit : (standardWords v).length ≤ m.quantity.toNat)
    (h : ∀ regs, m.decodeRegisters chrono (m.rangeAfterWrite regs v) = .ok v.readBack) :
    (payloadBytes v + 1) / 2 = m.quantity.toNat := by
  have htime : m.dataType ≠ .dateTime := by
    rcases hbuffer with hb | hb <;> simp [hb]
  have hlen : (standardWords v).length = (payloadBytes v + 1) / 2 := by
    rw [length_standardWords, hdt]
    rcases hbuffer with hb | hb <;> rw [hb] <;> rfl
  by_contra hne
  have hzero := (decodeRegisters_eq_ok_iff htime).mp (h fun _ => 0)
  have hone := (decodeRegisters_eq_ok_iff htime).mp (h fun _ => 1)
  have hbytes := readValue_buffer_injective hbuffer
    (by simp only [length_ordered, ModbusMapping.rangeAfterWrite, length_window])
    (hzero.trans hone.symm)
  have hwords := ordered_injective hbytes
  rw [rangeAfterWrite_eq _ hfit, rangeAfterWrite_eq _ hfit] at hwords
  have htail := List.append_cancel_left hwords
  obtain ⟨n, hn⟩ : ∃ n, m.quantity.toNat - (standardWords v).length = n + 1 :=
    ⟨m.quantity.toNat - (standardWords v).length - 1, by omega⟩
  rw [hn, window_succ, window_succ] at htail
  exact absurd (List.cons.inj htail).1 (by decide)

/-- A true Boolean is stored in bit 0. -/
theorem bit_zero_of_reads_back (hbit : m.bitOffset.toNat < 16) (hdt : v.dataType = m.dataType)
    (hbool : m.dataType = .bool) (hkeep : m.byteOrder.keepsPlaces)
    (hfit : (standardWords v).length ≤ m.quantity.toNat)
    (h : ∀ regs, m.decodeRegisters chrono (m.rangeAfterWrite regs v) = .ok v.readBack) :
    m.bitOffset = 0 ∨ v = .bool false := by
  cases v with
  | bool b =>
      have hread := (decodeRegisters_eq_ok_iff (by simp [hbool])).mp (h fun _ => 0)
      obtain ⟨tail, htail, -⟩ := ordered_rangeAfterWrite (fun _ => 0) hfit (.inr (.inl hkeep))
      rw [htail, hbool] at hread
      have hb : bitAt (beBytes ((if b then 1 else 0) :: tail)) m.bitOffset = b := by
        simpa [readValue, TagValue.readBack, standardWords] using hread
      exact ((bitAt_bool hbit b tail).mp hb).imp_right fun hb => by rw [hb]
  | _ =>
      rw [hbool] at hdt
      simp [TagValue.dataType] at hdt

/-- For a mapping of an accepted list and a value of its type that fits, the
    written value is read back over every older contents exactly when the
    mapping and the value round-trip. -/
theorem write_then_read_iff {vorder : FuncOrder} {mappings : List ModbusMapping}
    (hval : validate vorder mappings = .ok ()) (hm : m ∈ mappings) (hdt : v.dataType = m.dataType)
    (hfit : (standardWords v).length ≤ m.quantity.toNat) :
    (∀ regs, m.decodeRegisters chrono (m.rangeAfterWrite regs v) = .ok v.readBack) ↔
      m.RoundTrips v := by
  have hok := (of_validate hval).1 m hm
  refine ⟨fun h => ?_, fun h regs => reads_back_of_roundTrips hok.bit_lt hdt hfit h regs⟩
  rw [ModbusMapping.RoundTrips]
  cases hmt : m.dataType with
  | bool =>
      have hkeep := keepsPlaces_of_reads_back hok hdt (by rw [hmt]; rfl) h
      exact ⟨hkeep, bit_zero_of_reads_back hok.bit_lt hdt hmt hkeep hfit h⟩
  | int16 => exact keepsPlaces_of_reads_back hok hdt (by rw [hmt]; rfl) h
  | uint16 => exact keepsPlaces_of_reads_back hok hdt (by rw [hmt]; rfl) h
  | string => exact full_of_reads_back hdt (.inl hmt) hfit h
  | byteString => exact full_of_reads_back hdt (.inr hmt) hfit h
  | _ => trivial

/-- A word-swapped setpoint of two registers. -/
def setpoint : ModbusMapping :=
  { tagId := "setpoint", dataType := .uint16, address := 10, quantity := 2,
    function := .holdingRegisters, writable := true, byteOrder := .CDAB }

theorem write_then_read_iff_setpoint :
    (∀ regs, setpoint.decodeRegisters .rejecting (setpoint.rangeAfterWrite regs (.uint16 7)) =
      .ok (.uint16 7)) ↔ setpoint.RoundTrips (.uint16 7) :=
  @write_then_read_iff .rejecting setpoint (.uint16 7) .declared [setpoint] (by decide) (by decide)
    rfl (by decide)

/-- Writing 7 to it and reading it back over zeros gives 0. -/
theorem setpoint_lost :
    validate .declared [setpoint] = .ok () ∧ setpoint.address.toNat + setpoint.quantity.toNat ≤ 65535 ∧
    setpoint.function = .holdingRegisters ∧ setpoint.writable = true ∧
    (standardWords (.uint16 7)).length ≤ setpoint.quantity.toNat ∧
    setpoint.decodeRegisters .rejecting (setpoint.rangeAfterWrite (fun _ => 0) (.uint16 7)) =
      .ok (.uint16 0) ∧
    ¬ ∀ regs, setpoint.decodeRegisters .rejecting (setpoint.rangeAfterWrite regs (.uint16 7)) =
      .ok (TagValue.uint16 7).readBack := by
  have hzero : setpoint.decodeRegisters .rejecting
      (setpoint.rangeAfterWrite (fun _ => 0) (.uint16 7)) = .ok (.uint16 0) := by decide
  refine ⟨by decide, by decide, rfl, rfl, by decide, hzero, ?_⟩
  intro h
  have hback := h fun _ => 0
  rw [hzero] at hback
  exact absurd (Except.ok.inj hback) (by decide)

end PlcBridge.Modbus
