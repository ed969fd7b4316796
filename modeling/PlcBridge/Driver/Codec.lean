/-
  PlcBridge.Driver.Codec

  What the value codecs of the two drivers rest on: reading big-endian words
  and numbers out of a buffer, byte orders seen on whole words, texts, and the
  standard word encoding of a `TagValue`, which `tagvalue_to_registers` of the
  Modbus driver and `tagvalue_to_words_standard` of the FINS driver both
  compute.

  chrono's RFC 3339 parser is a parameter.  The drivers only call it on fewer
  than eight bytes, and the shortest RFC 3339 timestamp has twenty.
-/
import PlcBridge.CoreModel.TagValue
import PlcBridge.Lib.Words
import Mathlib.Data.List.DropRight

namespace PlcBridge

open PlcBridge.Lib

-- ============================================================================
-- Reading words
-- ============================================================================

/-- The `i`-th `cur.read_u16::<BigEndian>().unwrap_or(0)` of a cursor: zero
    once the buffer is exhausted. -/
def wordAt (bytes : List UInt8) (i : Nat) : UInt16 := (beWords bytes).getD i 0

/-- The first two words as a 32-bit number. -/
def u32At (bytes : List UInt8) : UInt32 := u32OfWords (wordAt bytes 0) (wordAt bytes 1)

/-- The first four words as a 64-bit number. -/
def u64At (bytes : List UInt8) : UInt64 :=
  u64OfWords (wordAt bytes 0) (wordAt bytes 1) (wordAt bytes 2) (wordAt bytes 3)

/-- Bit `bitOffset` of the first word. -/
def bitAt (bytes : List UInt8) (bitOffset : UInt8) : Bool :=
  ((wordAt bytes 0 >>> bitOffset.toUInt16) &&& 0x1) != 0

theorem wordAt_beBytes (ws : List UInt16) (i : Nat) : wordAt (beBytes ws) i = ws.getD i 0 := by
  rw [wordAt, beWords_beBytes]

/-- `wordAt` with another number in place of the zero in `unwrap_or(0)`. -/
def wordOr (fill : UInt16) (bytes : List UInt8) (i : Nat) : UInt16 := (beWords bytes).getD i fill

/-- The fallback does not matter where there is a word. -/
theorem wordOr_eq_wordAt {bytes : List UInt8} {i : Nat} (h : 2 * i + 2 ≤ bytes.length)
    (fill : UInt16) : wordOr fill bytes i = wordAt bytes i := by
  have hi : i < (beWords bytes).length := by
    rw [length_beWords]
    omega
  simp only [wordOr, wordAt, List.getD, List.getElem?_eq_getElem hi, Option.getD_some]

/-- The number a byte list spells, most significant byte first. -/
def beNat (bytes : List UInt8) : Nat := bytes.foldl (fun n b => n * 256 + b.toNat) 0

/-- `ReadBytesExt::read_u16::<BigEndian>` and its wider siblings: the number
    the first `size` bytes spell, or an error if there are fewer. -/
def readBe (size : Nat) (bytes : List UInt8) : Option Nat :=
  if size ≤ bytes.length then some (beNat (bytes.take size)) else none

def readU16 (bytes : List UInt8) : Option UInt16 := (readBe 2 bytes).map UInt16.ofNat

def readU32 (bytes : List UInt8) : Option UInt32 := (readBe 4 bytes).map UInt32.ofNat

def readU64 (bytes : List UInt8) : Option UInt64 := (readBe 8 bytes).map UInt64.ofNat

theorem foldl_be_lt (bytes : List UInt8) (n : Nat) :
    bytes.foldl (fun n b => n * 256 + b.toNat) n < (n + 1) * 256 ^ bytes.length := by
  induction bytes generalizing n with
  | nil => simp
  | cons b bs ih =>
      have hb := b.toNat_lt
      have hhead : n * 256 + b.toNat + 1 ≤ (n + 1) * 256 := by omega
      calc bs.foldl (fun n b => n * 256 + b.toNat) (n * 256 + b.toNat)
          < (n * 256 + b.toNat + 1) * 256 ^ bs.length := ih _
        _ ≤ (n + 1) * 256 * 256 ^ bs.length := Nat.mul_le_mul_right _ hhead
        _ = (n + 1) * 256 ^ (b :: bs).length := by rw [List.length_cons, Nat.pow_succ]; ring

theorem readBe_take {size : Nat} {bytes : List UInt8} (h : size ≤ bytes.length) :
    readBe size (bytes.take size) = some (beNat (bytes.take size)) := by
  rw [readBe, List.take_take, min_self, if_pos (by rw [List.length_take]; omega)]

theorem beNat_take_lt {size : Nat} {bytes : List UInt8} (h : size ≤ bytes.length) :
    beNat (bytes.take size) < 256 ^ size := by
  have hlt := foldl_be_lt (bytes.take size) 0
  rw [List.length_take, min_eq_left h] at hlt
  simpa [beNat] using hlt

theorem readU16_take {bytes : List UInt8} (h : 2 ≤ bytes.length) :
    readU16 (bytes.take 2) = some (wordAt bytes 0) := by
  rw [readU16, readBe_take h, Option.map_some, Option.some.injEq, ← UInt16.toNat_inj,
    UInt16.toNat_ofNat_of_lt' (beNat_take_lt h)]
  match bytes, h with
  | b0 :: b1 :: rest, _ =>
      simp [beNat, wordAt, beWord_toNat]

theorem readU32_take {bytes : List UInt8} (h : 4 ≤ bytes.length) :
    readU32 (bytes.take 4) = some (u32At bytes) := by
  rw [readU32, readBe_take h, Option.map_some, Option.some.injEq, ← UInt32.toNat_inj,
    UInt32.toNat_ofNat_of_lt' (beNat_take_lt h)]
  match bytes, h with
  | b0 :: b1 :: b2 :: b3 :: rest, _ =>
      simp [beNat, u32At, wordAt, u32OfWords_toNat, beWord_toNat]
      omega

theorem readU64_take {bytes : List UInt8} (h : 8 ≤ bytes.length) :
    readU64 (bytes.take 8) = some (u64At bytes) := by
  rw [readU64, readBe_take h, Option.map_some, Option.some.injEq, ← UInt64.toNat_inj,
    UInt64.toNat_ofNat_of_lt' (beNat_take_lt h)]
  match bytes, h with
  | b0 :: b1 :: b2 :: b3 :: b4 :: b5 :: b6 :: b7 :: rest, _ =>
      simp [beNat, u64At, wordAt, u64OfWords_toNat, beWord_toNat]
      omega

-- ============================================================================
-- Byte orders on whole words
-- ============================================================================

/-- Exchange the two bytes of a word. -/
def swapBytes (w : UInt16) : UInt16 := beWord (w &&& 0xFF).toUInt8 (w >>> 8).toUInt8

/-- What a byte order does to a buffer of whole words.  `swapBytesInWords`
    exchanges neighbours, so on words it exchanges the two of each pair. -/
def WordOrder.onWords : WordOrder → List UInt16 → List UInt16
  | .ABCD, ws => ws
  | .BADC, ws => ws.map swapBytes
  | .CDAB, ws => swapBytesInWords ws
  | .DCBA, ws => (swapBytesInWords ws).map swapBytes

theorem swapBytesInWords_beBytes (ws : List UInt16) :
    swapBytesInWords (beBytes ws) = beBytes (ws.map swapBytes) := by
  induction ws with
  | nil => rfl
  | cons w ws ih =>
      have h := wordBytes_beWord (w &&& 0xFF).toUInt8 (w >>> 8).toUInt8
      simp only [wordBytes, List.cons.injEq, and_true] at h
      simp only [beBytes_cons, swapBytesInWords, ih, List.map_cons, swapBytes, h]

theorem swapWordPairsIn4ByteChunks_beBytes :
    ∀ ws : List UInt16, swapWordPairsIn4ByteChunks (beBytes ws) = beBytes (swapBytesInWords ws)
  | [] => rfl
  | [_] => rfl
  | _ :: _ :: rest => by
      simp only [beBytes_cons, swapWordPairsIn4ByteChunks, swapBytesInWords,
        swapWordPairsIn4ByteChunks_beBytes rest]

/-- Reversing each 4-byte chunk is swapping its words and then their bytes. -/
theorem reverseBytesIn4ByteChunks_eq {α : Type*} :
    ∀ bs : List α, bs.length % 2 = 0 →
      reverseBytesIn4ByteChunks bs = swapBytesInWords (swapWordPairsIn4ByteChunks bs)
  | [], _ => rfl
  | [_], h => by simp at h
  | [_, _], _ => rfl
  | [_, _, _], h => by simp at h
  | a :: b :: c :: d :: rest, h => by
      have hrest : rest.length % 2 = 0 := by
        simp only [List.length_cons] at h
        omega
      simp only [reverseBytesIn4ByteChunks, swapWordPairsIn4ByteChunks, swapBytesInWords,
        reverseBytesIn4ByteChunks_eq rest hrest]

theorem applyByteOrder_beBytes (ws : List UInt16) (o : WordOrder) :
    applyByteOrder (beBytes ws) o = beBytes (o.onWords ws) := by
  cases o with
  | ABCD => rfl
  | BADC => exact swapBytesInWords_beBytes ws
  | CDAB => exact swapWordPairsIn4ByteChunks_beBytes ws
  | DCBA =>
      show reverseBytesIn4ByteChunks (beBytes ws) = _
      rw [reverseBytesIn4ByteChunks_eq _ (by rw [length_beBytes]; omega),
        swapWordPairsIn4ByteChunks_beBytes, swapBytesInWords_beBytes]
      rfl

theorem WordOrder.onWords_self (o : WordOrder) (ws : List UInt16) :
    o.onWords (o.onWords ws) = ws := by
  rw [← beBytes_inj, ← applyByteOrder_beBytes, ← applyByteOrder_beBytes, applyByteOrder_self]

theorem WordOrder.onWords_injective (o : WordOrder) {ws ws' : List UInt16}
    (h : o.onWords ws = o.onWords ws') : ws = ws' := by
  rw [← o.onWords_self ws, h, o.onWords_self]

@[simp] theorem WordOrder.length_onWords (o : WordOrder) (ws : List UInt16) :
    (o.onWords ws).length = ws.length := by
  have h := congrArg List.length (applyByteOrder_beBytes ws o)
  simp only [length_applyByteOrder, length_beBytes] at h
  omega

/-- A prefix of whole word pairs is reordered on its own. -/
theorem WordOrder.onWords_append (o : WordOrder) (xs ys : List UInt16) (h : xs.length % 2 = 0) :
    o.onWords (xs ++ ys) = o.onWords xs ++ o.onWords ys := by
  rw [← beBytes_inj, ← applyByteOrder_beBytes, beBytes_append, beBytes_append,
    applyByteOrder_append o _ _ (by rw [length_beBytes]; omega), applyByteOrder_beBytes,
    applyByteOrder_beBytes]

@[simp] theorem swapBytes_swapBytes (w : UInt16) : swapBytes (swapBytes w) = w := by
  have h := WordOrder.BADC.onWords_self [w]
  simpa [WordOrder.onWords] using h

/-- The orders that keep each word in its place. -/
def WordOrder.keepsPlaces (o : WordOrder) : Bool := o = .ABCD ∨ o = .BADC

theorem WordOrder.onWords_eq_map {o : WordOrder} (h : o.keepsPlaces) :
    ∃ f : UInt16 → UInt16, (∀ ws, o.onWords ws = ws.map f) ∧ ∀ w, f (f w) = w := by
  cases o with
  | ABCD => exact ⟨id, fun ws => (List.map_id ws).symm, fun _ => rfl⟩
  | BADC => exact ⟨swapBytes, fun _ => rfl, swapBytes_swapBytes⟩
  | CDAB => simp [keepsPlaces] at h
  | DCBA => simp [keepsPlaces] at h

-- ============================================================================
-- Texts
-- ============================================================================

/-- The UTF-8 bytes of a string (`as_bytes`). -/
def utf8Bytes (s : String) : List UInt8 := s.toByteArray.data.toList

/-- `std::str::from_utf8`. -/
def fromUtf8 (bytes : List UInt8) : Option String := String.fromUTF8? bytes.toByteArray

/-- `trim_end_matches('\0')`. -/
def trimEndNul (s : String) : String :=
  String.ofList (s.toList.rdropWhile fun c => c = Char.ofNat 0)

/-- An upper-case hexadecimal digit. -/
def upperHexDigit (n : Nat) : Char := if n < 10 then Char.ofNat (48 + n) else Char.ofNat (55 + n)

/-- `format!("{:02X}", b)` of every byte, concatenated. -/
def hexString (bytes : List UInt8) : String :=
  String.ofList (bytes.flatMap fun b => [upperHexDigit (b.toNat / 16), upperHexDigit (b.toNat % 16)])

/-- Bytes as text: UTF-8 without trailing NULs, or hexadecimal digits when
    they are not valid UTF-8. -/
def decodeString (bytes : List UInt8) : String :=
  match fromUtf8 bytes with
  | some s => trimEndNul s
  | none => hexString bytes

theorem toByteArray_utf8Bytes (s : String) : (utf8Bytes s).toByteArray = s.toByteArray := by
  apply ByteArray.ext
  rw [List.data_toByteArray, utf8Bytes]

theorem utf8Bytes_append (s t : String) : utf8Bytes (s ++ t) = utf8Bytes s ++ utf8Bytes t := by
  simp [utf8Bytes, String.toByteArray_append]

theorem length_utf8Bytes (s : String) : (utf8Bytes s).length = s.utf8ByteSize := by
  rw [← String.size_toByteArray, utf8Bytes, Array.length_toList]
  rfl

theorem fromUtf8_eq_some {bytes : List UInt8} {s : String} :
    fromUtf8 bytes = some s ↔ utf8Bytes s = bytes := by
  unfold fromUtf8 String.fromUTF8?
  constructor
  · intro h
    split at h
    · obtain rfl := Option.some.inj h
      simp [utf8Bytes, String.fromUTF8]
    · exact absurd h (by simp)
  · rintro rfl
    have hba := toByteArray_utf8Bytes s
    rw [dif_pos (by rw [hba]; exact s.isValidUTF8), Option.some.injEq, ← String.toByteArray_inj]
    exact hba

/-- A string of `k` NUL characters, and its bytes. -/
def nuls (k : Nat) : String := String.ofList (List.replicate k (Char.ofNat 0))

theorem nuls_succ (k : Nat) : nuls (k + 1) = nuls 1 ++ nuls k := by
  simp [nuls, List.replicate_succ]

theorem utf8Bytes_nuls (k : Nat) : utf8Bytes (nuls k) = List.replicate k 0 := by
  induction k with
  | zero => rfl
  | succ k ih =>
      rw [nuls_succ, utf8Bytes_append, ih, List.replicate_succ]
      rfl

theorem trimEndNul_append_nuls (s : String) (k : Nat) :
    trimEndNul (s ++ nuls k) = trimEndNul s := by
  unfold trimEndNul nuls
  rw [String.toList_append, String.toList_ofList]
  induction k with
  | zero => simp
  | succ k ih =>
      rw [List.replicate_succ', ← List.append_assoc, List.rdropWhile_concat_pos _ _ _ (by simp)]
      exact ih

theorem exists_nuls_of_trim (l : List Char) :
    ∃ k, l = l.rdropWhile (fun c => c = Char.ofNat 0) ++ List.replicate k (Char.ofNat 0) := by
  induction l using List.reverseRecOn with
  | nil => exact ⟨0, rfl⟩
  | append_singleton l c ih =>
      by_cases hc : c = Char.ofNat 0
      · obtain ⟨k, hk⟩ := ih
        refine ⟨k + 1, ?_⟩
        rw [List.rdropWhile_concat_pos _ _ _ (by simpa using hc), List.replicate_succ',
          ← List.append_assoc, ← hk, hc]
      · refine ⟨0, ?_⟩
        rw [List.rdropWhile_concat_neg _ _ _ (by simpa using hc)]
        simp

/-- Trimming takes off NULs and nothing else. -/
theorem eq_trimEndNul_append (s : String) : ∃ k, s = trimEndNul s ++ nuls k := by
  obtain ⟨k, hk⟩ := exists_nuls_of_trim s.toList
  refine ⟨k, ?_⟩
  rw [← String.toList_inj]
  simpa [trimEndNul, nuls] using hk

theorem decodeString_utf8Bytes (s : String) : decodeString (utf8Bytes s) = trimEndNul s := by
  rw [decodeString, fromUtf8_eq_some.mpr rfl]

theorem upperHexDigit_injective {m n : Nat} (hm : m < 16) (hn : n < 16)
    (h : upperHexDigit m = upperHexDigit n) : m = n := by
  have key : ∀ m < 16, ∀ n < 16, upperHexDigit m = upperHexDigit n → m = n := by decide
  exact key m hm n hn h

theorem length_toList_hexString (bytes : List UInt8) :
    (hexString bytes).toList.length = 2 * bytes.length := by
  rw [hexString, String.toList_ofList]
  induction bytes with
  | nil => rfl
  | cons b bs ih =>
      simp only [List.flatMap_cons, List.length_append, ih, List.length_cons, List.length_nil]
      omega

theorem hexString_injective {bs bs' : List UInt8} (h : hexString bs = hexString bs') : bs = bs' := by
  rw [hexString, hexString, String.ofList_inj] at h
  induction bs generalizing bs' with
  | nil =>
      cases bs' with
      | nil => rfl
      | cons b bs' => simp at h
  | cons b bs ih =>
      cases bs' with
      | nil => simp at h
      | cons b' bs' =>
          simp only [List.flatMap_cons, List.cons_append, List.nil_append, List.cons.injEq] at h
          have hb := b.toNat_lt
          have hb' := b'.toNat_lt
          have hhi := upperHexDigit_injective (by omega) (by omega) h.1
          have hlo := upperHexDigit_injective (by omega) (by omega) h.2.1
          have heq : b = b' := UInt8.toNat_inj.mp (by omega)
          rw [heq, ih h.2.2]

/-- A character takes at least one byte. -/
theorem length_toList_le (s : String) : s.toList.length ≤ (utf8Bytes s).length := by
  obtain ⟨l, rfl⟩ := s.exists_eq_ofList
  have hbytes : utf8Bytes (String.ofList l) = l.flatMap String.utf8EncodeChar := by
    simp [utf8Bytes, List.utf8Encode]
  rw [hbytes, String.toList_ofList]
  induction l with
  | nil => exact le_rfl
  | cons c l ih =>
      have hc : 0 < (String.utf8EncodeChar c).length :=
        List.length_pos_iff.mpr String.utf8EncodeChar_ne_nil
      have hrec := ih (by simp [utf8Bytes, List.utf8Encode])
      rw [List.flatMap_cons, List.length_append, List.length_cons]
      omega

/-- The hexadecimal fallback never spells what a valid buffer of the same
    length does: it has two characters for each byte. -/
theorem eq_nil_of_trim_eq_hex {s : String} {bytes : List UInt8}
    (hlen : (utf8Bytes s).length = bytes.length) (h : trimEndNul s = hexString bytes) :
    bytes = [] := by
  obtain ⟨k, hk⟩ := eq_trimEndNul_append s
  have hchars := length_toList_le (trimEndNul s)
  rw [h, length_toList_hexString] at hchars
  have hbytes := congrArg (fun t => (utf8Bytes t).length) hk
  simp only [utf8Bytes_append, List.length_append, h, utf8Bytes_nuls, List.length_replicate] at hbytes
  exact List.eq_nil_of_length_eq_zero (by omega)

/-- On buffers of one length, the text determines the bytes. -/
theorem decodeString_injective {bs bs' : List UInt8} (hlen : bs.length = bs'.length)
    (h : decodeString bs = decodeString bs') : bs = bs' := by
  unfold decodeString at h
  cases hv : fromUtf8 bs with
  | none =>
      cases hv' : fromUtf8 bs' with
      | none =>
          rw [hv, hv'] at h
          exact hexString_injective h
      | some s' =>
          rw [hv, hv'] at h
          rw [fromUtf8_eq_some] at hv'
          have hnil : bs = [] := eq_nil_of_trim_eq_hex (by rw [hv', hlen]) h.symm
          rw [hnil] at hlen ⊢
          exact (List.eq_nil_of_length_eq_zero hlen.symm).symm
  | some s =>
      rw [fromUtf8_eq_some] at hv
      cases hv' : fromUtf8 bs' with
      | none =>
          rw [fromUtf8_eq_some.mpr hv, hv'] at h
          have hnil : bs' = [] := eq_nil_of_trim_eq_hex (by rw [hv, hlen]) h
          rw [hnil] at hlen ⊢
          exact List.eq_nil_of_length_eq_zero hlen
      | some s' =>
          -- Both are the same text followed by NULs, and equally many of them.
          rw [fromUtf8_eq_some.mpr hv, hv'] at h
          rw [fromUtf8_eq_some] at hv'
          obtain ⟨k, hk⟩ := eq_trimEndNul_append s
          obtain ⟨k', hk'⟩ := eq_trimEndNul_append s'
          simp only at h
          have hb : bs = utf8Bytes (trimEndNul s') ++ List.replicate k 0 := by
            rw [← hv, ← h, ← utf8Bytes_nuls, ← utf8Bytes_append, ← hk]
          have hb' : bs' = utf8Bytes (trimEndNul s') ++ List.replicate k' 0 := by
            rw [← hv', ← utf8Bytes_nuls, ← utf8Bytes_append, ← hk']
          rw [hb, hb', List.length_append, List.length_append, List.length_replicate,
            List.length_replicate] at hlen
          rw [hb, hb', show k = k' from by omega]

-- ============================================================================
-- RFC 3339 timestamps
-- ============================================================================

/-- chrono's `parse_from_rfc3339`, converted to UTC. -/
structure Chrono where
  parseFromRfc3339 : String → Option DateTime
  too_short : ∀ s : String, s.utf8ByteSize < 20 → parseFromRfc3339 s = none

/-- A parser that accepts nothing, as chrono's does on every input the
    drivers give it. -/
def Chrono.rejecting : Chrono := ⟨fun _ => none, fun _ _ => rfl⟩

-- ============================================================================
-- Standard encoding
-- ============================================================================

/-- Pad a byte vector to an even length, then read it as big-endian words. -/
def bytesToWords (bytes : List UInt8) : List UInt16 :=
  beWords (if bytes.length % 2 ≠ 0 then bytes ++ [0] else bytes)

/-- The registers of a value in standard (big-endian) order. -/
def standardWords : TagValue → List UInt16
  | .bool b => [if b then 1 else 0]
  | .uint16 v => [v]
  | .int16 v => [v.toUInt16]
  | .uint32 v => wordsOfU32 v
  | .int32 v => wordsOfU32 v.toUInt32
  | .float bits => wordsOfU32 bits
  | .double bits => wordsOfU64 bits
  | .uint64 v => wordsOfU64 v
  | .int64 v => wordsOfU64 v.toUInt64
  | .dateTime dt => wordsOfU64 dt.timestampMillis.toUInt64
  | .byteString b => bytesToWords b
  | .string s => bytesToWords (utf8Bytes s)

theorem length_bytesToWords (bytes : List UInt8) :
    (bytesToWords bytes).length = (bytes.length + 1) / 2 := by
  unfold bytesToWords
  rw [length_beWords]
  by_cases h : bytes.length % 2 ≠ 0
  · rw [if_pos h, List.length_append, List.length_singleton]
  · rw [if_neg h]
    omega

theorem beBytes_bytesToWords (bytes : List UInt8) :
    beBytes (bytesToWords bytes) = if bytes.length % 2 ≠ 0 then bytes ++ [0] else bytes := by
  unfold bytesToWords
  apply beBytes_beWords
  by_cases h : bytes.length % 2 ≠ 0
  · rw [if_pos h, List.length_append, List.length_singleton]
    omega
  · rw [if_neg h]
    omega

/-- Registers a data type occupies; texts and byte strings have no fixed
    size. -/
def fixedWords : TagDataType → Option Nat
  | .bool | .int16 | .uint16 => some 1
  | .int32 | .uint32 | .float => some 2
  | .int64 | .uint64 | .double | .dateTime => some 4
  | .string | .byteString => none

/-- Length of the byte string behind a text or byte-string value. -/
def payloadBytes : TagValue → Nat
  | .byteString b => b.length
  | .string s => s.utf8ByteSize
  | _ => 0

/-- How many words a value is encoded into. -/
theorem length_standardWords (v : TagValue) :
    (standardWords v).length = (fixedWords v.dataType).getD ((payloadBytes v + 1) / 2) := by
  cases v with
  | byteString b => exact length_bytesToWords b
  | string s =>
      show (bytesToWords (utf8Bytes s)).length = (s.utf8ByteSize + 1) / 2
      rw [length_bytesToWords, length_utf8Bytes]
  | _ => rfl

end PlcBridge
