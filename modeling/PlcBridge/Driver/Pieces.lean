/-
  PlcBridge.Driver.Pieces

  A tag that a chunk boundary cuts is decoded once for each piece, and the
  last piece decides.  This module says when that can be noticed: for which
  data types, byte orders and lengths two register contents exist that look
  the same to the last piece and different to the whole range.
-/
import PlcBridge.Driver.Codec

namespace PlcBridge

open PlcBridge.Lib

/-- The value of a buffer for the data types both drivers decode alike:
    all but `DateTime`. -/
def readValue (bytes : List UInt8) (bitOffset : UInt8) : TagDataType → Option TagValue
  | .bool => some (.bool (bitAt bytes bitOffset))
  | .uint16 => some (.uint16 (wordAt bytes 0))
  | .int16 => some (.int16 (wordAt bytes 0).toInt16)
  | .uint32 => some (.uint32 (u32At bytes))
  | .int32 => some (.int32 (u32At bytes).toInt32)
  | .float => some (.float (u32At bytes))
  | .double => some (.double (u64At bytes))
  | .uint64 => some (.uint64 (u64At bytes))
  | .int64 => some (.int64 (u64At bytes).toInt64)
  | .string => some (.string (decodeString bytes))
  | .byteString => some (.byteString bytes)
  | .dateTime => none

theorem dataType_of_readValue {bytes : List UInt8} {bit : UInt8} {dt : TagDataType} {v : TagValue}
    (h : readValue bytes bit dt = some v) : v.dataType = dt := by
  cases dt with
  | dateTime => exact absurd h (by simp [readValue])
  | _ =>
      rw [← Option.some.inj h]
      rfl

/-- The data types of one register. -/
def isSingleWord (dt : TagDataType) : Bool := dt = .bool ∨ dt = .int16 ∨ dt = .uint16

-- ============================================================================
-- The first words of a reordered buffer
-- ============================================================================

/-- The first two words of a buffer after reordering. -/
def WordOrder.firstPair (o : WordOrder) (a b : UInt16) : UInt16 × UInt16 :=
  match o with
  | .ABCD => (a, b)
  | .BADC => (swapBytes a, swapBytes b)
  | .CDAB => (b, a)
  | .DCBA => (swapBytes b, swapBytes a)

theorem WordOrder.onWords_cons_cons (o : WordOrder) (a b : UInt16) (ws : List UInt16) :
    o.onWords (a :: b :: ws) = (o.firstPair a b).1 :: (o.firstPair a b).2 :: o.onWords ws := by
  rw [show a :: b :: ws = [a, b] ++ ws from rfl, o.onWords_append [a, b] ws (by simp)]
  cases o <;> rfl

theorem swapBytes_injective {a b : UInt16} (h : swapBytes a = swapBytes b) : a = b := by
  rw [← swapBytes_swapBytes a, h, swapBytes_swapBytes]

theorem WordOrder.firstPair_injective {o : WordOrder} {a b a' b' : UInt16}
    (h : o.firstPair a b = o.firstPair a' b') : a = a' ∧ b = b' := by
  cases o with
  | ABCD => exact ⟨congrArg Prod.fst h, congrArg Prod.snd h⟩
  | BADC => exact ⟨swapBytes_injective (congrArg Prod.fst h), swapBytes_injective (congrArg Prod.snd h)⟩
  | CDAB => exact ⟨congrArg Prod.snd h, congrArg Prod.fst h⟩
  | DCBA => exact ⟨swapBytes_injective (congrArg Prod.snd h), swapBytes_injective (congrArg Prod.fst h)⟩

section Ordered

variable (o : WordOrder) (a b : UInt16) (ws : List UInt16)

theorem wordAt_zero_ordered :
    wordAt (applyByteOrder (beBytes (a :: b :: ws)) o) 0 = (o.firstPair a b).1 := by
  rw [applyByteOrder_beBytes, wordAt_beBytes, o.onWords_cons_cons]
  rfl

theorem wordAt_one_ordered :
    wordAt (applyByteOrder (beBytes (a :: b :: ws)) o) 1 = (o.firstPair a b).2 := by
  rw [applyByteOrder_beBytes, wordAt_beBytes, o.onWords_cons_cons]
  rfl

theorem wordAt_add_two_ordered (i : Nat) :
    wordAt (applyByteOrder (beBytes (a :: b :: ws)) o) (i + 2) =
      wordAt (applyByteOrder (beBytes ws) o) i := by
  rw [applyByteOrder_beBytes, wordAt_beBytes, o.onWords_cons_cons, applyByteOrder_beBytes,
    wordAt_beBytes]
  rfl

end Ordered

theorem u32OfWords_injective {a b a' b' : UInt16} (h : u32OfWords a b = u32OfWords a' b') :
    a = a' ∧ b = b' := by
  have := congrArg wordsOfU32 h
  rw [wordsOfU32_u32OfWords, wordsOfU32_u32OfWords] at this
  simpa using this

theorem u64OfWords_injective {a b c d a' b' c' d' : UInt16}
    (h : u64OfWords a b c d = u64OfWords a' b' c' d') : a = a' ∧ b = b' := by
  have htoNat := congrArg UInt64.toNat h
  rw [u64OfWords_toNat, u64OfWords_toNat] at htoNat
  have hb := b.toNat_lt
  have hc := c.toNat_lt
  have hd := d.toNat_lt
  have hb' := b'.toNat_lt
  have hc' := c'.toNat_lt
  have hd' := d'.toNat_lt
  constructor
  · exact UInt16.toNat_inj.mp (by omega)
  · exact UInt16.toNat_inj.mp (by omega)

-- ============================================================================
-- Differences the last piece cannot see
-- ============================================================================

/-- Registers as a read delivers them and the decoder sees them. -/
def ordered (o : WordOrder) (ws : List UInt16) : List UInt8 := applyByteOrder (beBytes ws) o

theorem length_ordered (o : WordOrder) (ws : List UInt16) :
    (ordered o ws).length = 2 * ws.length := by
  rw [ordered, length_applyByteOrder, length_beBytes]

theorem ordered_injective {o : WordOrder} {ws ws' : List UInt16} (h : ordered o ws = ordered o ws') :
    ws = ws' := by
  rw [ordered, ordered, applyByteOrder_beBytes, applyByteOrder_beBytes, beBytes_inj] at h
  exact o.onWords_injective h

theorem bitAt_of_ones {bytes : List UInt8} {bit : UInt8} (h : wordAt bytes 0 = 0xFFFF)
    (hbit : bit.toNat < 16) : bitAt bytes bit = true := by
  have key : ∀ n < 16, (((0xFFFF : UInt16) >>> (UInt8.ofNat n).toUInt16) &&& 0x1) != 0 := by decide
  have hb := key bit.toNat hbit
  rw [UInt8.ofNat_toNat] at hb
  rw [bitAt, h]
  exact hb

theorem bitAt_of_zero {bytes : List UInt8} {bit : UInt8} (h : wordAt bytes 0 = 0) :
    bitAt bytes bit = false := by
  rw [bitAt, h]
  simp

/-- A single-word value only depends on the first word. -/
theorem readValue_congr {bs bs' : List UInt8} {bit : UInt8} {dt : TagDataType}
    (hdt : isSingleWord dt) (h : wordAt bs 0 = wordAt bs' 0) :
    readValue bs bit dt = readValue bs' bit dt := by
  cases dt <;> simp_all [isSingleWord, readValue, bitAt]

/-- A single-word value tells all-ones from zero. -/
theorem readValue_ones_ne_zero {bs bs' : List UInt8} {bit : UInt8} {dt : TagDataType}
    (hdt : isSingleWord dt) (hbit : bit.toNat < 16) (h : wordAt bs 0 = 0xFFFF)
    (h' : wordAt bs' 0 = 0) : readValue bs bit dt ≠ readValue bs' bit dt := by
  cases dt with
  | bool =>
      simp only [readValue, bitAt_of_ones h hbit, bitAt_of_zero h']
      decide
  | int16 =>
      simp only [readValue, h, h']
      decide
  | uint16 =>
      simp only [readValue, h, h']
      decide
  | _ => simp [isSingleWord] at hdt

/-- The wider types see the first word of the range, whatever the byte
    order. -/
theorem readValue_first_injective {o : WordOrder} {a a' b : UInt16} {ws : List UInt16}
    {bit : UInt8} {dt : TagDataType} (hdt : dt ≠ .dateTime) (hsingle : ¬ isSingleWord dt)
    (h : readValue (ordered o (a :: b :: ws)) bit dt = readValue (ordered o (a' :: b :: ws)) bit dt) :
    a = a' := by
  have h32 : u32At (ordered o (a :: b :: ws)) = u32At (ordered o (a' :: b :: ws)) → a = a' := by
    intro heq
    simp only [u32At, ordered, wordAt_zero_ordered, wordAt_one_ordered] at heq
    have hpair := u32OfWords_injective heq
    exact (WordOrder.firstPair_injective (Prod.ext hpair.1 hpair.2)).1
  have h64 : u64At (ordered o (a :: b :: ws)) = u64At (ordered o (a' :: b :: ws)) → a = a' := by
    intro heq
    simp only [u64At, ordered, wordAt_zero_ordered, wordAt_one_ordered] at heq
    have hpair := u64OfWords_injective heq
    exact (WordOrder.firstPair_injective (Prod.ext hpair.1 hpair.2)).1
  have hbytes : ordered o (a :: b :: ws) = ordered o (a' :: b :: ws) → a = a' := by
    intro heq
    exact (List.cons.inj (ordered_injective heq)).1
  cases dt with
  | bool => simp [isSingleWord] at hsingle
  | int16 => simp [isSingleWord] at hsingle
  | uint16 => simp [isSingleWord] at hsingle
  | dateTime => exact absurd rfl hdt
  | int32 =>
      have hint : (u32At (ordered o (a :: b :: ws))).toInt32 =
          (u32At (ordered o (a' :: b :: ws))).toInt32 := by simpa [readValue] using h
      exact h32 (by simpa using congrArg Int32.toUInt32 hint)
  | uint32 => exact h32 (by simpa [readValue] using h)
  | float => exact h32 (by simpa [readValue] using h)
  | int64 =>
      have hint : (u64At (ordered o (a :: b :: ws))).toInt64 =
          (u64At (ordered o (a' :: b :: ws))).toInt64 := by simpa [readValue] using h
      exact h64 (by simpa using congrArg Int64.toUInt64 hint)
  | uint64 => exact h64 (by simpa [readValue] using h)
  | double => exact h64 (by simpa [readValue] using h)
  | string =>
      refine hbytes (decodeString_injective ?_ (by simpa [readValue] using h))
      rw [length_ordered, length_ordered]
      rfl
  | byteString => exact hbytes (by simpa [readValue] using h)

/-- The first word of a pair the order keeps in place, and of one it swaps,
    for the two words the constructions below use. -/
theorem WordOrder.firstPair_ones (o : WordOrder) :
    if o.keepsPlaces then (o.firstPair 0xFFFF 0).1 = 0xFFFF ∧ (o.firstPair 0 0).1 = 0
    else (o.firstPair 0 0xFFFF).1 = 0xFFFF ∧ (o.firstPair 0 0).1 = 0 ∧
      (o.firstPair 0xFFFF 0).1 = 0 := by
  cases o <;> decide

/-- Unless the tag is one register wide, two registers long and read with a
    word-swapping order, cutting its range in front of word `k` hides some
    difference: two contents give the last piece the same value and the whole
    range different ones. -/
theorem exists_hidden_difference {dt : TagDataType} {o : WordOrder} {bit : UInt8} {q k : Nat}
    (hdt : dt ≠ .dateTime) (hk : 1 ≤ k) (hkq : k < q) (hbit : bit.toNat < 16)
    (hdeg : ¬ (isSingleWord dt ∧ q = 2 ∧ ¬ o.keepsPlaces)) :
    ∃ ws ws' : List UInt16, ws.length = q ∧ ws'.length = q ∧
      readValue (ordered o (ws.drop k)) bit dt = readValue (ordered o (ws'.drop k)) bit dt ∧
      readValue (ordered o ws) bit dt ≠ readValue (ordered o ws') bit dt := by
  obtain ⟨j, rfl⟩ : ∃ j, k = j + 1 := ⟨k - 1, by omega⟩
  obtain ⟨n, rfl⟩ : ∃ n, q = n + 2 := ⟨q - 2, by omega⟩
  have hones := o.firstPair_ones
  by_cases hplain : isSingleWord dt ∧ ¬ o.keepsPlaces
  · -- The second word decides the whole; the last piece starts behind it, or
    -- with it and then swaps the third word in front.
    rw [if_neg hplain.2] at hones
    obtain ⟨n', rfl⟩ : ∃ n', n = n' + 1 := by
      rcases Nat.eq_zero_or_pos n with hn | hn
      · exact absurd ⟨hplain.1, by omega, hplain.2⟩ hdeg
      · exact ⟨n - 1, by omega⟩
    refine ⟨0 :: 0xFFFF :: List.replicate (n' + 1) 0, 0 :: 0 :: List.replicate (n' + 1) 0,
      by simp, by simp, ?_, ?_⟩
    · cases j with
      | zero =>
          apply readValue_congr hplain.1
          simp only [zero_add, List.drop_succ_cons, List.drop_zero, List.replicate_succ, ordered,
            wordAt_zero_ordered, hones.2.1, hones.2.2]
      | succ j => rfl
    · apply readValue_ones_ne_zero hplain.1 hbit
      · rw [ordered, wordAt_zero_ordered, hones.1]
      · rw [ordered, wordAt_zero_ordered, hones.2.1]
  · refine ⟨0xFFFF :: 0 :: List.replicate n 0, 0 :: 0 :: List.replicate n 0, by simp, by simp,
      rfl, ?_⟩
    by_cases hsingle : isSingleWord dt
    · have hkeep : o.keepsPlaces := by
        by_contra hkeep
        exact hplain ⟨hsingle, hkeep⟩
      rw [if_pos hkeep] at hones
      apply readValue_ones_ne_zero hsingle hbit
      · rw [ordered, wordAt_zero_ordered, hones.1]
      · rw [ordered, wordAt_zero_ordered, hones.2]
    · intro heq
      exact absurd (readValue_first_injective hdt hsingle heq) (by decide)

/-- Hence some contents give the last piece another value than the range. -/
theorem exists_piece_ne_whole {dt : TagDataType} {o : WordOrder} {bit : UInt8} {q k : Nat}
    (hdt : dt ≠ .dateTime) (hk : 1 ≤ k) (hkq : k < q) (hbit : bit.toNat < 16)
    (hdeg : ¬ (isSingleWord dt ∧ q = 2 ∧ ¬ o.keepsPlaces)) :
    ∃ ws : List UInt16, ws.length = q ∧
      readValue (ordered o (ws.drop k)) bit dt ≠ readValue (ordered o ws) bit dt := by
  obtain ⟨ws, ws', hlen, hlen', hpiece, hwhole⟩ := exists_hidden_difference hdt hk hkq hbit hdeg
  by_contra hall
  push Not at hall
  exact hwhole (by rw [← hall ws hlen, ← hall ws' hlen', hpiece])

/-- In the degenerate case the last piece decodes to the value of the whole. -/
theorem readValue_last_of_pair {dt : TagDataType} {o : WordOrder} {bit : UInt8} (a b : UInt16)
    (hsingle : isSingleWord dt) (ho : ¬ o.keepsPlaces) :
    readValue (ordered o [b]) bit dt = readValue (ordered o [a, b]) bit dt := by
  apply readValue_congr hsingle
  simp only [ordered, wordAt_zero_ordered]
  rw [applyByteOrder_beBytes, wordAt_beBytes]
  cases o with
  | ABCD => simp [WordOrder.keepsPlaces] at ho
  | BADC => simp [WordOrder.keepsPlaces] at ho
  | CDAB => rfl
  | DCBA => rfl

/-- For every byte order some first register spells a small positive
    millisecond count, with zeros behind it. -/
theorem exists_small_millis (o : WordOrder) :
    ∃ x : UInt16, ∀ ws, 0 < (u64At (ordered o (x :: 0 :: 0 :: 0 :: ws))).toNat ∧
      (u64At (ordered o (x :: 0 :: 0 :: 0 :: ws))).toNat ≤ 2 ^ 48 := by
  refine ⟨if o = .BADC then 0x0100 else 1, fun ws => ?_⟩
  have h2 := wordAt_add_two_ordered o (if o = .BADC then 0x0100 else 1) 0 (0 :: 0 :: ws) 0
  have h3 := wordAt_add_two_ordered o (if o = .BADC then 0x0100 else 1) 0 (0 :: 0 :: ws) 1
  rw [wordAt_zero_ordered] at h2
  rw [wordAt_one_ordered] at h3
  rw [u64At, u64OfWords_toNat]
  simp only [ordered, wordAt_zero_ordered, wordAt_one_ordered]
  rw [h2, h3]
  cases o <;> decide

end PlcBridge
