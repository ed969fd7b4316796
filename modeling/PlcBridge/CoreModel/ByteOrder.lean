/-
  PlcBridge.CoreModel.ByteOrder

  The four word orders as a group acting on byte buffers
  (core-model/src/tag_value.rs, `apply_to_bytes` and its three loops).

  The loops are modelled as the source writes them, index by index and with
  the panic of an index past the end as `none`, and shown to compute the
  reorderings of `CoreModel.TagValue`; the group law is proved of those.
-/
import Mathlib.GroupTheory.SpecificGroups.KleinFour
import PlcBridge.CoreModel.TagValue

namespace PlcBridge

-- ============================================================================
-- The index loops
-- ============================================================================

section InPlace

variable {α : Type*}

/-- `slice::swap`: `none` is its panic on an index past the end. -/
def sliceSwap (bs : List α) (i j : ℕ) : Option (List α) :=
  bs[i]?.bind fun a => bs[j]?.map fun b => (bs.set i b).set j a

/-- `while i + last < len { body(i); i += last + 1 }`: the loop the three
    helpers share, over `len` read before it starts. -/
def strideLoop (last : ℕ) (body : ℕ → List α → Option (List α)) (len i : ℕ) (bs : List α) :
    Option (List α) :=
  if i + last < len then (body i bs).bind (strideLoop last body len (i + (last + 1)))
  else some bs
termination_by len - i

def swapBytesInWordsInPlace (bytes : List α) : Option (List α) :=
  strideLoop 1 (fun i bs => sliceSwap bs i (i + 1)) bytes.length 0 bytes

def swapWordPairsIn4ByteChunksInPlace (bytes : List α) : Option (List α) :=
  strideLoop 3 (fun i bs => (sliceSwap bs i (i + 2)).bind fun bs => sliceSwap bs (i + 1) (i + 3))
    bytes.length 0 bytes

/-- The chunk body of `reverse_bytes_in_4byte_chunks`. -/
def reverseChunkAt (i : ℕ) (bs : List α) : Option (List α) :=
  (sliceSwap bs i (i + 3)).bind fun bs => sliceSwap bs (i + 1) (i + 2)

/-- What follows the loop of `reverse_bytes_in_4byte_chunks`: the first two
    bytes of a remainder of at least two are swapped. -/
def swapRemainder (len : ℕ) (bs : List α) : Option (List α) :=
  if len % 4 ≥ 2 then
    let remStart := len - len % 4
    if remStart + 1 < len then sliceSwap bs remStart (remStart + 1) else some bs
  else some bs

def reverseBytesIn4ByteChunksInPlace (bytes : List α) : Option (List α) :=
  (strideLoop 3 reverseChunkAt bytes.length 0 bytes).bind (swapRemainder bytes.length)

/-- `apply_to_bytes` on a mutable slice; `none` is a panic. -/
def WordOrder.applyInPlace : WordOrder → List α → Option (List α)
  | .ABCD => some
  | .BADC => swapBytesInWordsInPlace
  | .CDAB => swapWordPairsIn4ByteChunksInPlace
  | .DCBA => reverseBytesIn4ByteChunksInPlace

-- ============================================================================
-- The loops compute the reorderings
-- ============================================================================

theorem strideLoop_step {last len i : ℕ} {body : ℕ → List α → Option (List α)} {bs bs' : List α}
    (hi : i + last < len) (hbody : body i bs = some bs') :
    strideLoop last body len i bs = strideLoop last body len (i + (last + 1)) bs' := by
  rw [strideLoop, if_pos hi, hbody, Option.bind_some]

theorem strideLoop_done {last len i : ℕ} {body : ℕ → List α → Option (List α)} {bs : List α}
    (hi : ¬ i + last < len) : strideLoop last body len i bs = some bs := by
  rw [strideLoop, if_neg hi]

/-- From behind any prefix, the loop of `swap_bytes_in_words` swaps the words
    that follow. -/
theorem swapBytesLoop_append : ∀ (bs front : List α),
    strideLoop 1 (fun i bs => sliceSwap bs i (i + 1)) (front ++ bs).length front.length (front ++ bs)
      = some (front ++ swapBytesInWords bs)
  | [], front => strideLoop_done (by simp)
  | [_], front => strideLoop_done (by simp)
  | a :: b :: rest, front => by
      have hbody : sliceSwap (front ++ a :: b :: rest) front.length (front.length + 1)
          = some ((front ++ [b, a]) ++ rest) := by
        simp [sliceSwap]
      rw [strideLoop_step (by simp) hbody]
      have ih := swapBytesLoop_append rest (front ++ [b, a])
      simpa [swapBytesInWords] using ih

/-- From behind any prefix, the loop of `swap_word_pairs_in_4byte_chunks` swaps
    the pairs that follow. -/
theorem swapWordPairsLoop_append : ∀ (bs front : List α),
    strideLoop 3 (fun i bs => (sliceSwap bs i (i + 2)).bind fun bs => sliceSwap bs (i + 1) (i + 3))
        (front ++ bs).length front.length (front ++ bs)
      = some (front ++ swapWordPairsIn4ByteChunks bs)
  | [], front => strideLoop_done (by simp)
  | [_], front => strideLoop_done (by simp)
  | [_, _], front => strideLoop_done (by simp)
  | [_, _, _], front => strideLoop_done (by simp)
  | a :: b :: c :: d :: rest, front => by
      have hfst : sliceSwap (front ++ a :: b :: c :: d :: rest) front.length (front.length + 2)
          = some (front ++ c :: b :: a :: d :: rest) := by
        simp [sliceSwap]
      have hsnd : sliceSwap (front ++ c :: b :: a :: d :: rest) (front.length + 1)
          (front.length + 3) = some ((front ++ [c, d, a, b]) ++ rest) := by
        simp [sliceSwap]
      rw [strideLoop_step (by simp) (by rw [hfst, Option.bind_some, hsnd])]
      have ih := swapWordPairsLoop_append rest (front ++ [c, d, a, b])
      simpa [swapWordPairsIn4ByteChunks] using ih

/-- Behind a prefix of whole chunks, the remainder swap acts on a tail shorter
    than a chunk as `reverseBytesIn4ByteChunks` does. -/
theorem swapRemainder_append {front : List α} (hfront : front.length % 4 = 0) {bs : List α}
    (hbs : bs.length < 4) :
    swapRemainder (front ++ bs).length (front ++ bs)
      = some (front ++ reverseBytesIn4ByteChunks bs) := by
  have hmod : (front ++ bs).length % 4 = bs.length := by
    rw [List.length_append]
    omega
  have hstart : (front ++ bs).length - bs.length = front.length := by
    rw [List.length_append]
    omega
  unfold swapRemainder
  simp only [hmod, hstart]
  rcases bs with _ | ⟨a, _ | ⟨b, _ | ⟨c, _ | ⟨d, rest⟩⟩⟩⟩
  · rfl
  · rfl
  · simp [sliceSwap, reverseBytesIn4ByteChunks]
  · simp [sliceSwap, reverseBytesIn4ByteChunks]
  · simp only [List.length_cons] at hbs
    omega

/-- From behind a prefix of whole chunks, the loop and the remainder swap of
    `reverse_bytes_in_4byte_chunks` reverse what follows. -/
theorem reverseBytesLoop_append : ∀ (bs front : List α), front.length % 4 = 0 →
    (strideLoop 3 reverseChunkAt (front ++ bs).length front.length (front ++ bs)).bind
        (swapRemainder (front ++ bs).length)
      = some (front ++ reverseBytesIn4ByteChunks bs)
  | [], front, hfront => by
      rw [strideLoop_done (by simp), Option.bind_some, swapRemainder_append hfront (by simp)]
  | [_], front, hfront => by
      rw [strideLoop_done (by simp), Option.bind_some, swapRemainder_append hfront (by simp)]
  | [_, _], front, hfront => by
      rw [strideLoop_done (by simp), Option.bind_some, swapRemainder_append hfront (by simp)]
  | [_, _, _], front, hfront => by
      rw [strideLoop_done (by simp), Option.bind_some, swapRemainder_append hfront (by simp)]
  | a :: b :: c :: d :: rest, front, hfront => by
      have hfst : sliceSwap (front ++ a :: b :: c :: d :: rest) front.length (front.length + 3)
          = some (front ++ d :: b :: c :: a :: rest) := by
        simp [sliceSwap]
      have hsnd : sliceSwap (front ++ d :: b :: c :: a :: rest) (front.length + 1)
          (front.length + 2) = some ((front ++ [d, c, b, a]) ++ rest) := by
        simp [sliceSwap]
      have hbody : reverseChunkAt front.length (front ++ a :: b :: c :: d :: rest)
          = some ((front ++ [d, c, b, a]) ++ rest) := by
        rw [reverseChunkAt, hfst, Option.bind_some, hsnd]
      rw [strideLoop_step (by simp) hbody]
      have hwhole : (front ++ [d, c, b, a]).length % 4 = 0 := by
        rw [List.length_append]
        simpa using hfront
      have ih := reverseBytesLoop_append rest (front ++ [d, c, b, a]) hwhole
      simpa [reverseBytesIn4ByteChunks] using ih

/-- The loops never index past the end, and leave the reordered buffer. -/
theorem applyInPlace_eq (o : WordOrder) (bytes : List α) :
    o.applyInPlace bytes = some (o.applyToBytes bytes) := by
  cases o with
  | ABCD => rfl
  | BADC => exact swapBytesLoop_append bytes []
  | CDAB => exact swapWordPairsLoop_append bytes []
  | DCBA => exact reverseBytesLoop_append bytes [] rfl

end InPlace

-- ============================================================================
-- The group of word orders
-- ============================================================================

namespace WordOrder

instance : Fintype WordOrder :=
  ⟨{.ABCD, .BADC, .CDAB, .DCBA}, by intro o; cases o <;> decide⟩

/-- The order that stands for applying two orders one after the other. -/
def compose : WordOrder → WordOrder → WordOrder
  | .ABCD, o => o
  | .BADC, .ABCD => .BADC
  | .BADC, .BADC => .ABCD
  | .BADC, .CDAB => .DCBA
  | .BADC, .DCBA => .CDAB
  | .CDAB, .ABCD => .CDAB
  | .CDAB, .BADC => .DCBA
  | .CDAB, .CDAB => .ABCD
  | .CDAB, .DCBA => .BADC
  | .DCBA, .ABCD => .DCBA
  | .DCBA, .BADC => .CDAB
  | .DCBA, .CDAB => .BADC
  | .DCBA, .DCBA => .ABCD

theorem compose_assoc : ∀ o o' o'' : WordOrder,
    (o.compose o').compose o'' = o.compose (o'.compose o'') := by decide

theorem compose_comm : ∀ o o' : WordOrder, o.compose o' = o'.compose o := by decide

theorem compose_self : ∀ o : WordOrder, o.compose o = .ABCD := by decide

instance : CommGroup WordOrder where
  mul := compose
  one := .ABCD
  inv := id
  mul_assoc := compose_assoc
  one_mul _ := rfl
  mul_one o := compose_comm o .ABCD
  inv_mul_cancel := compose_self
  mul_comm := compose_comm

theorem mul_eq_compose (o o' : WordOrder) : o * o' = o.compose o' := rfl

theorem one_eq : (1 : WordOrder) = .ABCD := rfl

/-- Four orders, each its own inverse. -/
instance : IsKleinFour WordOrder where
  card_four := by rw [Nat.card_eq_fintype_card]; rfl
  exponent_two := by
    have hdvd : Monoid.exponent WordOrder ∣ 2 :=
      Monoid.exponent_dvd_of_forall_pow_eq_one fun o => by rw [pow_two]; exact compose_self o
    have hne : Monoid.exponent WordOrder ≠ 1 := by
      rw [Ne, Monoid.exp_eq_one_iff]
      intro h
      exact absurd (h.elim ABCD BADC) (by decide)
    exact (Nat.prime_two.eq_one_or_self_of_dvd _ hdvd).resolve_left hne

end WordOrder

-- ============================================================================
-- The action on buffers
-- ============================================================================

section Action

variable {α β : Type*}

theorem swapBytesInWords_swapWordPairs : ∀ bs : List α,
    swapBytesInWords (swapWordPairsIn4ByteChunks bs) = reverseBytesIn4ByteChunks bs
  | [] => rfl
  | [_] => rfl
  | [_, _] => rfl
  | [_, _, _] => rfl
  | _ :: _ :: _ :: _ :: rest => by
      simp [swapBytesInWords, swapWordPairsIn4ByteChunks, reverseBytesIn4ByteChunks,
        swapBytesInWords_swapWordPairs rest]

theorem swapWordPairs_swapBytesInWords : ∀ bs : List α,
    swapWordPairsIn4ByteChunks (swapBytesInWords bs) = reverseBytesIn4ByteChunks bs
  | [] => rfl
  | [_] => rfl
  | [_, _] => rfl
  | [_, _, _] => rfl
  | _ :: _ :: _ :: _ :: rest => by
      simp [swapBytesInWords, swapWordPairsIn4ByteChunks, reverseBytesIn4ByteChunks,
        swapWordPairs_swapBytesInWords rest]

/-- Two orders in a row are the order of their product. Two facts give the
    whole table: every order undoes itself, and the two swaps compose to the
    reversal either way round. -/
theorem applyToBytes_mul (o o' : WordOrder) (bs : List α) :
    (o * o').applyToBytes bs = o.applyToBytes (o'.applyToBytes bs) := by
  have hself : ∀ (o : WordOrder) (bs : List α), o.applyToBytes (o.applyToBytes bs) = bs :=
    fun o bs => applyByteOrder_self bs o
  have hbc : ∀ bs : List α, WordOrder.BADC.applyToBytes (WordOrder.CDAB.applyToBytes bs)
      = WordOrder.DCBA.applyToBytes bs := swapBytesInWords_swapWordPairs
  have hcb : ∀ bs : List α, WordOrder.CDAB.applyToBytes (WordOrder.BADC.applyToBytes bs)
      = WordOrder.DCBA.applyToBytes bs := swapWordPairs_swapBytesInWords
  rw [WordOrder.mul_eq_compose]
  cases o with
  | ABCD => rfl
  | BADC =>
      cases o' with
      | ABCD => rfl
      | BADC => rw [hself]; rfl
      | CDAB => rw [hbc]; rfl
      | DCBA => rw [← hbc, hself]; rfl
  | CDAB =>
      cases o' with
      | ABCD => rfl
      | BADC => rw [hcb]; rfl
      | CDAB => rw [hself]; rfl
      | DCBA => rw [← hcb, hself]; rfl
  | DCBA =>
      cases o' with
      | ABCD => rfl
      | BADC => rw [← hcb, hself]; rfl
      | CDAB => rw [← hbc, hself]; rfl
      | DCBA => rw [hself]; rfl

instance : MulAction WordOrder (List α) where
  smul := WordOrder.applyToBytes
  one_smul _ := rfl
  mul_smul := applyToBytes_mul

theorem smul_eq_applyToBytes (o : WordOrder) (bs : List α) : o • bs = o.applyToBytes bs := rfl

theorem swapBytesInWords_map (f : α → β) : ∀ bs : List α,
    swapBytesInWords (bs.map f) = (swapBytesInWords bs).map f
  | [] => rfl
  | [_] => rfl
  | _ :: _ :: rest => by simp [swapBytesInWords, swapBytesInWords_map f rest]

theorem swapWordPairsIn4ByteChunks_map (f : α → β) : ∀ bs : List α,
    swapWordPairsIn4ByteChunks (bs.map f) = (swapWordPairsIn4ByteChunks bs).map f
  | [] => rfl
  | [_] => rfl
  | [_, _] => rfl
  | [_, _, _] => rfl
  | _ :: _ :: _ :: _ :: rest => by
      simp [swapWordPairsIn4ByteChunks, swapWordPairsIn4ByteChunks_map f rest]

theorem reverseBytesIn4ByteChunks_map (f : α → β) : ∀ bs : List α,
    reverseBytesIn4ByteChunks (bs.map f) = (reverseBytesIn4ByteChunks bs).map f
  | [] => rfl
  | [_] => rfl
  | [_, _] => rfl
  | [_, _, _] => rfl
  | _ :: _ :: _ :: _ :: rest => by
      simp [reverseBytesIn4ByteChunks, reverseBytesIn4ByteChunks_map f rest]

/-- A reordering looks at positions only, never at the bytes. -/
theorem applyToBytes_map (o : WordOrder) (f : α → β) (bs : List α) :
    o.applyToBytes (bs.map f) = (o.applyToBytes bs).map f := by
  cases o with
  | ABCD => rfl
  | BADC => exact swapBytesInWords_map f bs
  | CDAB => exact swapWordPairsIn4ByteChunks_map f bs
  | DCBA => exact reverseBytesIn4ByteChunks_map f bs

@[simp] theorem length_applyToBytes (o : WordOrder) (bs : List α) :
    (o.applyToBytes bs).length = bs.length := length_applyByteOrder bs o

-- ============================================================================
-- Positions
-- ============================================================================

/-- Where the byte at position `i` of a reordered buffer of `n` bytes comes
    from: the order applied to the list of positions. -/
def WordOrder.position (o : WordOrder) (n : ℕ) (i : Fin n) : Fin n :=
  (o.applyToBytes (List.finRange n)).get (i.cast (by simp))

/-- Reordering a buffer reads it through `position`. -/
theorem getElem?_applyToBytes (o : WordOrder) {n : ℕ} {bs : List α} (hn : bs.length = n)
    (i : Fin n) : (o.applyToBytes bs)[i.val]? = bs[(o.position n i).val]? := by
  subst hn
  have hbs : bs = (List.finRange bs.length).map bs.get := (List.map_get_finRange bs).symm
  have hmap := applyToBytes_map o bs.get (List.finRange bs.length)
  rw [← hbs] at hmap
  rw [hmap, List.getElem?_map, WordOrder.position,
    List.getElem?_eq_getElem (by simp), Option.map_some]
  simp

/-- Reading the reordered positions again gives the position back. -/
theorem position_involutive (o : WordOrder) (n : ℕ) : Function.Involutive (o.position n) := by
  intro i
  have hlen : (List.finRange n).length = n := List.length_finRange
  have htwice : (o.applyToBytes (o.applyToBytes (List.finRange n)))[i.val]?
      = (List.finRange n)[(o.position n (o.position n i)).val]? := by
    rw [getElem?_applyToBytes o (by simp), getElem?_applyToBytes o hlen]
  rw [← smul_eq_applyToBytes, ← smul_eq_applyToBytes, smul_smul, WordOrder.mul_eq_compose,
    WordOrder.compose_self, ← WordOrder.one_eq, one_smul] at htwice
  simpa using htwice.symm

end Action

/-- The four word orders compose as the Klein four-group and act on byte
    buffers of any length: the loops end without a panic, permute the
    positions of the buffer the same way whatever it holds, undo themselves,
    and `BADC` and `CDAB` in either order make `DCBA`. -/
theorem wordOrders_act_as_kleinFour :
    IsKleinFour WordOrder
      ∧ (∀ (o : WordOrder) (bytes : List UInt8),
          o.applyInPlace bytes = some (o.applyToBytes bytes)
            ∧ (o.applyToBytes bytes).length = bytes.length)
      ∧ (∀ (o : WordOrder) (n : ℕ), ∃ σ : Equiv.Perm (Fin n), ∀ bytes : List UInt8,
          bytes.length = n → ∀ i : Fin n, (o.applyToBytes bytes)[i.val]? = bytes[(σ i).val]?)
      ∧ (∀ (o : WordOrder) (bytes : List UInt8), o.applyToBytes (o.applyToBytes bytes) = bytes)
      ∧ (∀ bytes : List UInt8,
          WordOrder.BADC.applyToBytes (WordOrder.CDAB.applyToBytes bytes)
              = WordOrder.DCBA.applyToBytes bytes
            ∧ WordOrder.CDAB.applyToBytes (WordOrder.BADC.applyToBytes bytes)
              = WordOrder.DCBA.applyToBytes bytes)
      ∧ ∀ (o o' : WordOrder) (bytes : List UInt8),
          (o * o').applyToBytes bytes = o.applyToBytes (o'.applyToBytes bytes) := by
  refine ⟨inferInstance, ?_, ?_, ?_, ?_, ?_⟩
  · intro o bytes
    exact ⟨applyInPlace_eq o bytes, length_applyToBytes o bytes⟩
  · intro o n
    refine ⟨(position_involutive o n).toPerm, ?_⟩
    intro bytes hbytes i
    exact getElem?_applyToBytes o hbytes i
  · intro o bytes
    exact applyByteOrder_self bytes o
  · intro bytes
    exact ⟨swapBytesInWords_swapWordPairs bytes, swapWordPairs_swapBytesInWords bytes⟩
  · intro o o' bytes
    exact applyToBytes_mul o o' bytes

end PlcBridge
