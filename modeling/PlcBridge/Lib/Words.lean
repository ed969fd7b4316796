/-
  PlcBridge.Lib.Words

  Big-endian 16-bit words: the byte list of a word list, the word list of a
  byte list, and the 32- and 64-bit numbers two and four words spell.

  Everything is stated over `UInt8`/`UInt16`/`UInt32`/`UInt64`, the types a
  register protocol moves around.  The bit operations are the ones a program
  writes (`>>>`, `&&&`, `<<<`, `|||`); each has a `toNat` lemma that turns it
  into division, remainder and addition, and the round trips are `omega`
  facts from there.
-/
import Mathlib.Data.List.Basic
import Mathlib.Tactic.Ring

namespace PlcBridge.Lib

-- ============================================================================
-- Bit operations as arithmetic
-- ============================================================================

theorem nat_and_255 (n : Nat) : n &&& 255 = n % 256 :=
  Nat.and_two_pow_sub_one_eq_mod n 8

theorem nat_and_65535 (n : Nat) : n &&& 65535 = n % 65536 :=
  Nat.and_two_pow_sub_one_eq_mod n 16

/-- Or-ing a number below `2 ^ i` into the hole left by a shift by `i` is an
    addition. -/
theorem nat_shiftLeft_or (a b i : Nat) (h : b < 2 ^ i) : a <<< i ||| b = a * 2 ^ i + b := by
  rw [← Nat.shiftLeft_add_eq_or_of_lt h, Nat.shiftLeft_eq]

-- ============================================================================
-- One word and its two bytes
-- ============================================================================

/-- The word with high byte `hi` and low byte `lo`. -/
def beWord (hi lo : UInt8) : UInt16 := (hi.toUInt16 <<< 8) ||| lo.toUInt16

/-- The two bytes of a word, most significant first. -/
def wordBytes (w : UInt16) : List UInt8 := [(w >>> 8).toUInt8, (w &&& 0xFF).toUInt8]

theorem beWord_toNat (hi lo : UInt8) : (beWord hi lo).toNat = hi.toNat * 256 + lo.toNat := by
  have hhi := hi.toNat_lt
  have hlo := lo.toNat_lt
  simp only [beWord, UInt16.toNat_or, UInt16.toNat_shiftLeft, UInt8.toNat_toUInt16]
  have hshift : (hi.toNat <<< ((8 : UInt16).toNat % 16)) % 2 ^ 16 = hi.toNat <<< 8 := by
    simp [Nat.shiftLeft_eq]
    omega
  rw [hshift, nat_shiftLeft_or _ _ _ (by simpa using hlo)]
  omega

theorem highByte_toNat (w : UInt16) : (w >>> 8).toUInt8.toNat = w.toNat / 256 := by
  have hw := w.toNat_lt
  simp [Nat.shiftRight_eq_div_pow]
  omega

theorem lowByte_toNat (w : UInt16) : (w &&& 0xFF).toUInt8.toNat = w.toNat % 256 := by
  simp [nat_and_255]

@[simp] theorem beWord_bytes (w : UInt16) :
    beWord (w >>> 8).toUInt8 (w &&& 0xFF).toUInt8 = w := by
  apply UInt16.toNat_inj.mp
  rw [beWord_toNat, highByte_toNat, lowByte_toNat]
  omega

@[simp] theorem wordBytes_beWord (hi lo : UInt8) : wordBytes (beWord hi lo) = [hi, lo] := by
  have hhi := hi.toNat_lt
  have hlo := lo.toNat_lt
  simp only [wordBytes, List.cons.injEq, and_true, ← UInt8.toNat_inj, highByte_toNat,
    lowByte_toNat, beWord_toNat]
  omega

-- ============================================================================
-- Word lists and byte lists
-- ============================================================================

/-- The bytes of a word list, each word most significant byte first. -/
def beBytes : List UInt16 → List UInt8
  | [] => []
  | w :: ws => (w >>> 8).toUInt8 :: (w &&& 0xFF).toUInt8 :: beBytes ws

/-- The words of a byte list.  A last byte without a partner is dropped. -/
def beWords : List UInt8 → List UInt16
  | hi :: lo :: rest => beWord hi lo :: beWords rest
  | _ => []

@[simp] theorem beBytes_nil : beBytes [] = [] := rfl

@[simp] theorem beBytes_cons (w : UInt16) (ws : List UInt16) :
    beBytes (w :: ws) = (w >>> 8).toUInt8 :: (w &&& 0xFF).toUInt8 :: beBytes ws := rfl

@[simp] theorem beWords_nil : beWords [] = [] := rfl

@[simp] theorem beWords_cons_cons (hi lo : UInt8) (rest : List UInt8) :
    beWords (hi :: lo :: rest) = beWord hi lo :: beWords rest := rfl

@[simp] theorem length_beBytes (ws : List UInt16) : (beBytes ws).length = 2 * ws.length := by
  induction ws with
  | nil => rfl
  | cons w ws ih =>
      simp only [beBytes_cons, List.length_cons, ih]
      omega

theorem beBytes_append (xs ys : List UInt16) : beBytes (xs ++ ys) = beBytes xs ++ beBytes ys := by
  induction xs with
  | nil => rfl
  | cons x xs ih => simp [ih]

/-- Re-splitting the bytes of a word list gives the words back. -/
@[simp] theorem beWords_beBytes (ws : List UInt16) : beWords (beBytes ws) = ws := by
  induction ws with
  | nil => rfl
  | cons w ws ih => rw [beBytes_cons, beWords_cons_cons, beWord_bytes, ih]

/-- A byte list of even length is the byte list of its words. -/
theorem beBytes_beWords : ∀ bs : List UInt8, bs.length % 2 = 0 → beBytes (beWords bs) = bs
  | [], _ => rfl
  | [_], h => by simp at h
  | hi :: lo :: rest, h => by
      have hrest : rest.length % 2 = 0 := by
        simp only [List.length_cons] at h
        omega
      have hbytes := wordBytes_beWord hi lo
      simp only [wordBytes, List.cons.injEq, and_true] at hbytes
      rw [beWords_cons_cons, beBytes_cons, hbytes.1, hbytes.2, beBytes_beWords rest hrest]

theorem length_beWords : ∀ bs : List UInt8, (beWords bs).length = bs.length / 2
  | [] => rfl
  | [_] => by simp [beWords]
  | _ :: _ :: rest => by
      simp only [beWords_cons_cons, List.length_cons, length_beWords rest]
      omega

theorem beBytes_inj {xs ys : List UInt16} : beBytes xs = beBytes ys ↔ xs = ys := by
  constructor
  · intro h
    have := congrArg beWords h
    simpa using this
  · intro h
    rw [h]

/-- Dropping whole words commutes with taking bytes. -/
theorem drop_beBytes (ws : List UInt16) (k : Nat) :
    (beBytes ws).drop (k * 2) = beBytes (ws.drop k) := by
  induction k generalizing ws with
  | zero => simp
  | succ k ih =>
      cases ws with
      | nil => simp
      | cons w ws =>
          rw [show (k + 1) * 2 = k * 2 + 1 + 1 from by omega, beBytes_cons, List.drop_succ_cons,
            List.drop_succ_cons, ih, List.drop_succ_cons]

theorem take_beBytes (ws : List UInt16) (k : Nat) :
    (beBytes ws).take (k * 2) = beBytes (ws.take k) := by
  induction k generalizing ws with
  | zero => simp
  | succ k ih =>
      cases ws with
      | nil => simp
      | cons w ws =>
          rw [show (k + 1) * 2 = k * 2 + 1 + 1 from by omega, beBytes_cons, List.take_succ_cons,
            List.take_succ_cons, ih, List.take_succ_cons, beBytes_cons]

-- ============================================================================
-- 32- and 64-bit numbers
-- ============================================================================

/-- The 32-bit number with high word `hi` and low word `lo`. -/
def u32OfWords (hi lo : UInt16) : UInt32 := (hi.toUInt32 <<< 16) ||| lo.toUInt32

/-- The two words of a 32-bit number, most significant first. -/
def wordsOfU32 (v : UInt32) : List UInt16 :=
  [((v >>> 16) &&& 0xFFFF).toUInt16, (v &&& 0xFFFF).toUInt16]

/-- The 64-bit number spelled by four words, most significant first. -/
def u64OfWords (w0 w1 w2 w3 : UInt16) : UInt64 :=
  (w0.toUInt64 <<< 48) ||| (w1.toUInt64 <<< 32) ||| (w2.toUInt64 <<< 16) ||| w3.toUInt64

/-- The four words of a 64-bit number, most significant first. -/
def wordsOfU64 (v : UInt64) : List UInt16 :=
  [((v >>> 48) &&& 0xFFFF).toUInt16, ((v >>> 32) &&& 0xFFFF).toUInt16,
    ((v >>> 16) &&& 0xFFFF).toUInt16, (v &&& 0xFFFF).toUInt16]

theorem u32OfWords_toNat (hi lo : UInt16) :
    (u32OfWords hi lo).toNat = hi.toNat * 65536 + lo.toNat := by
  have hhi := hi.toNat_lt
  have hlo := lo.toNat_lt
  simp only [u32OfWords, UInt32.toNat_or, UInt32.toNat_shiftLeft, UInt16.toNat_toUInt32]
  have hshift : (hi.toNat <<< ((16 : UInt32).toNat % 32)) % 2 ^ 32 = hi.toNat <<< 16 := by
    simp [Nat.shiftLeft_eq]
    omega
  rw [hshift, nat_shiftLeft_or _ _ _ (by simpa using hlo)]
  omega

theorem u64OfWords_toNat (w0 w1 w2 w3 : UInt16) :
    (u64OfWords w0 w1 w2 w3).toNat
      = w0.toNat * 2 ^ 48 + w1.toNat * 2 ^ 32 + w2.toNat * 2 ^ 16 + w3.toNat := by
  have h0 := w0.toNat_lt
  have h1 := w1.toNat_lt
  have h2 := w2.toNat_lt
  have h3 := w3.toNat_lt
  simp only [u64OfWords, UInt64.toNat_or, UInt64.toNat_shiftLeft, UInt16.toNat_toUInt64]
  have hs0 : (w0.toNat <<< ((48 : UInt64).toNat % 64)) % 2 ^ 64 = w0.toNat <<< 48 := by
    simp [Nat.shiftLeft_eq]
    omega
  have hs1 : (w1.toNat <<< ((32 : UInt64).toNat % 64)) % 2 ^ 64 = w1.toNat <<< 32 := by
    simp [Nat.shiftLeft_eq]
    omega
  have hs2 : (w2.toNat <<< ((16 : UInt64).toNat % 64)) % 2 ^ 64 = w2.toNat <<< 16 := by
    simp [Nat.shiftLeft_eq]
    omega
  -- The three or-s nest to the left; regroup them so that each joins a high
  -- part with everything below it.
  rw [hs0, hs1, hs2, Nat.or_assoc, Nat.or_assoc, nat_shiftLeft_or w2.toNat _ 16 h3,
    nat_shiftLeft_or w1.toNat _ 32 (by omega), nat_shiftLeft_or w0.toNat _ 48 (by omega)]
  omega

theorem wordsOfU32_u32OfWords (hi lo : UInt16) : wordsOfU32 (u32OfWords hi lo) = [hi, lo] := by
  have hhi := hi.toNat_lt
  have hlo := lo.toNat_lt
  simp [wordsOfU32, ← UInt16.toNat_inj, nat_and_65535, Nat.shiftRight_eq_div_pow,
    u32OfWords_toNat]
  omega

theorem u32OfWords_words (v : UInt32) :
    u32OfWords ((v >>> 16) &&& 0xFFFF).toUInt16 (v &&& 0xFFFF).toUInt16 = v := by
  have hv := v.toNat_lt
  apply UInt32.toNat_inj.mp
  rw [u32OfWords_toNat]
  simp [nat_and_65535, Nat.shiftRight_eq_div_pow]
  omega

theorem u64OfWords_words (v : UInt64) :
    u64OfWords ((v >>> 48) &&& 0xFFFF).toUInt16 ((v >>> 32) &&& 0xFFFF).toUInt16
      ((v >>> 16) &&& 0xFFFF).toUInt16 (v &&& 0xFFFF).toUInt16 = v := by
  have hv := v.toNat_lt
  apply UInt64.toNat_inj.mp
  rw [u64OfWords_toNat]
  simp [nat_and_65535, Nat.shiftRight_eq_div_pow]
  omega

end PlcBridge.Lib
