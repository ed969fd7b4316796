/-
  PlcBridge.Driver.ReadBack

  Reading a value back from the registers it was written to.  A write reorders
  and stores the value's own words; a read reorders and decodes the whole
  range, which may hold older words behind them.
-/
import PlcBridge.Driver.Pieces

namespace PlcBridge

open PlcBridge.Lib

/-- The value as the registers can represent it: instants in whole
    milliseconds, texts without trailing NULs, byte strings of even length. -/
def TagValue.readBack : TagValue → TagValue
  | .dateTime dt => .dateTime dt.floorMillis
  | .string s => .string (trimEndNul s)
  | .byteString b => .byteString (if b.length % 2 ≠ 0 then b ++ [0] else b)
  | v => v

-- ============================================================================
-- Reordering twice
-- ============================================================================

/-- Reordered words with older words behind them, reordered as one buffer:
    the words come back in front if they are whole pairs, if the order keeps
    every word in its place, or if nothing is behind them. -/
theorem WordOrder.onWords_stored (o : WordOrder) (ws rest : List UInt16)
    (h : ws.length % 2 = 0 ∨ o.keepsPlaces ∨ rest = []) :
    ∃ tail, o.onWords (o.onWords ws ++ rest) = ws ++ tail ∧ tail.length = rest.length := by
  rcases h with h | h | rfl
  · exact ⟨o.onWords rest, by rw [o.onWords_append _ _ (by rw [o.length_onWords]; exact h),
      o.onWords_self], o.length_onWords rest⟩
  · obtain ⟨f, hf, hinv⟩ := o.onWords_eq_map h
    refine ⟨rest.map f, ?_, List.length_map f⟩
    rw [hf, hf, List.map_append, List.map_map]
    congr 1
    conv_rhs => rw [← List.map_id ws]
    exact List.map_congr_left fun w _ => hinv w
  · exact ⟨[], by rw [List.append_nil, List.append_nil, o.onWords_self], rfl⟩

/-- A word-swapping order shows an older word in front of a single stored
    one. -/
theorem WordOrder.firstPair_of_swap {o : WordOrder} (h : ¬ o.keepsPlaces) (a : UInt16) :
    (o.firstPair a 0xFFFF).1 = 0xFFFF ∧ (o.firstPair a 0).1 = 0 := by
  cases o with
  | ABCD => simp [keepsPlaces] at h
  | BADC => simp [keepsPlaces] at h
  | CDAB => exact ⟨rfl, rfl⟩
  | DCBA =>
      refine ⟨?_, ?_⟩
      · show swapBytes 0xFFFF = 0xFFFF
        decide
      · show swapBytes 0 = 0
        decide

-- ============================================================================
-- Decoding the standard words of a value
-- ============================================================================

theorem u32At_wordsOfU32 (v : UInt32) (tail : List UInt16) :
    u32At (beBytes (wordsOfU32 v ++ tail)) = v := by
  rw [u32At, wordAt_beBytes, wordAt_beBytes]
  exact u32OfWords_words v

theorem u64At_wordsOfU64 (v : UInt64) (tail : List UInt16) :
    u64At (beBytes (wordsOfU64 v ++ tail)) = v := by
  rw [u64At, wordAt_beBytes, wordAt_beBytes, wordAt_beBytes, wordAt_beBytes]
  exact u64OfWords_words v

/-- A stored Boolean is bit 0 of its word. -/
theorem bitAt_bool {bit : UInt8} (hbit : bit.toNat < 16) (b : Bool) (tail : List UInt16) :
    bitAt (beBytes ((if b then 1 else 0) :: tail)) bit = b ↔ bit = 0 ∨ b = false := by
  have key : ∀ n < 16, ((((1 : UInt16) >>> (UInt8.ofNat n).toUInt16) &&& 0x1) != 0) = true ↔
      UInt8.ofNat n = 0 := by decide
  rw [bitAt, wordAt_beBytes, List.getD_cons_zero]
  cases b with
  | false => simp
  | true =>
      have hkey := key bit.toNat hbit
      rw [UInt8.ofNat_toNat] at hkey
      simpa using hkey

/-- The values that are read back whatever stands behind their words. -/
def TagValue.selfContained (bit : UInt8) : TagValue → Prop
  | .bool b => bit = 0 ∨ b = false
  | .string _ | .byteString _ => False
  | _ => True

/-- A self-contained value is decoded from its words, whatever follows. -/
theorem readValue_standardWords {v : TagValue} {bit : UInt8} (hbit : bit.toNat < 16)
    (hdt : v.dataType ≠ .dateTime) (hv : v.selfContained bit) (tail : List UInt16) :
    readValue (beBytes (standardWords v ++ tail)) bit v.dataType = some v.readBack := by
  cases v with
  | bool b =>
      show some (TagValue.bool (bitAt (beBytes ((if b then 1 else 0) :: tail)) bit)) = some (.bool b)
      rw [(bitAt_bool hbit b tail).mpr hv]
  | int16 v =>
      show some (TagValue.int16 _) = some (.int16 v)
      rw [wordAt_beBytes]
      simp [standardWords]
  | uint16 v =>
      show some (TagValue.uint16 _) = some (.uint16 v)
      rw [wordAt_beBytes]
      rfl
  | int32 v =>
      show some (TagValue.int32 _) = some (.int32 v)
      rw [standardWords, u32At_wordsOfU32, Int32.toInt32_toUInt32]
  | uint32 v =>
      show some (TagValue.uint32 _) = some (.uint32 v)
      rw [standardWords, u32At_wordsOfU32]
  | float v =>
      show some (TagValue.float _) = some (.float v)
      rw [standardWords, u32At_wordsOfU32]
  | int64 v =>
      show some (TagValue.int64 _) = some (.int64 v)
      rw [standardWords, u64At_wordsOfU64, Int64.toInt64_toUInt64]
  | uint64 v =>
      show some (TagValue.uint64 _) = some (.uint64 v)
      rw [standardWords, u64At_wordsOfU64]
  | double v =>
      show some (TagValue.double _) = some (.double v)
      rw [standardWords, u64At_wordsOfU64]
  | dateTime dt => exact absurd rfl hdt
  | string s => exact absurd hv id
  | byteString b => exact absurd hv id

/-- Texts and byte strings are decoded from exactly their own words. -/
theorem readValue_bytesToWords {v : TagValue} {bit : UInt8}
    (hv : v.dataType = .string ∨ v.dataType = .byteString) :
    readValue (beBytes (standardWords v)) bit v.dataType = some v.readBack := by
  cases v with
  | string s =>
      show some (TagValue.string (decodeString (beBytes (bytesToWords (utf8Bytes s))))) =
        some (.string (trimEndNul s))
      rw [beBytes_bytesToWords]
      by_cases hodd : (utf8Bytes s).length % 2 ≠ 0
      · -- The padding byte is one more NUL at the end.
        have hpad : utf8Bytes s ++ [0] = utf8Bytes (s ++ nuls 1) := by
          rw [utf8Bytes_append, utf8Bytes_nuls]
          rfl
        rw [if_pos hodd, hpad, decodeString_utf8Bytes, trimEndNul_append_nuls]
      · rw [if_neg hodd, decodeString_utf8Bytes]
  | byteString b =>
      show some (TagValue.byteString (beBytes (bytesToWords b))) = _
      rw [beBytes_bytesToWords]
      rfl
  | _ => simp [TagValue.dataType] at hv

/-- Different buffers of one length are different texts and byte strings. -/
theorem readValue_buffer_injective {bs bs' : List UInt8} {bit : UInt8} {dt : TagDataType}
    (hdt : dt = .string ∨ dt = .byteString) (hlen : bs.length = bs'.length)
    (h : readValue bs bit dt = readValue bs' bit dt) : bs = bs' := by
  rcases hdt with rfl | rfl
  · exact decodeString_injective hlen (by simpa [readValue] using h)
  · simpa [readValue] using h

/-- The four words of an instant spell its milliseconds. -/
theorem u64At_dateTime (dt : DateTime) (tail : List UInt16) :
    (u64At (beBytes (standardWords (.dateTime dt) ++ tail))).toInt64 = dt.timestampMillis := by
  rw [standardWords, u64At_wordsOfU64, Int64.toInt64_toUInt64]

end PlcBridge
