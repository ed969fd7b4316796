/-
  PlcBridge.Fins.Framing

  FINS/TCP framing: the reader of the cycle (an 8-byte header, the payload
  length in its last four bytes, then that many bytes; `run_read_cycle_impl`
  in driver/fins/src/driver.rs) over the bytes a connection delivers, against
  `wrap_fins_tcp`, `build_fins_frame` and `parse_fins_response`.
-/
import PlcBridge.Driver.ReadBack
import PlcBridge.Fins.Frame

namespace PlcBridge.Fins

open PlcBridge.Lib

-- ============================================================================
-- The reader
-- ============================================================================

/-- `read_exact`: the next `n` bytes of a stream and what follows them;
    `none` when the stream ends before. -/
def readExact (n : ℕ) (stream : List UInt8) : Option (List UInt8 × List UInt8) :=
  if n ≤ stream.length then some (stream.take n, stream.drop n) else none

/-- `read_u32::<BigEndian>` of header bytes 4..8, `unwrap_or(0)`. -/
def payloadLength (header : List UInt8) : ℕ :=
  ((readU32 ((header.drop 4).take 4)).getD 0).toNat

/-- Read one response from a stream; `eof` is the text of the error when the
    stream ends within it. -/
def readTransfer (eof : String) (stream : List UInt8) : Transfer × List UInt8 :=
  match readExact 8 stream with
  | none => (.headerFailed eof, [])
  | some (header, rest) =>
      match readExact (payloadLength header) rest with
      | none => (.payloadFailed eof, [])
      | some (payload, rest) => (.answered payload, rest)

/-- `count` responses one after the other, and the bytes left over. -/
def readTransfers (eof : String) : ℕ → List UInt8 → List Transfer × List UInt8
  | 0, stream => ([], stream)
  | count + 1, stream =>
      let (first, rest) := readTransfer eof stream
      let (more, left) := readTransfers eof count rest
      (first :: more, left)

-- ============================================================================
-- Round trips
-- ============================================================================

theorem readExact_append {n : ℕ} {front : List UInt8} (hn : front.length = n)
    (rest : List UInt8) : readExact n (front ++ rest) = some (front, rest) := by
  subst hn
  rw [readExact, if_pos (by simp), List.take_left, List.drop_left]

@[simp] theorem length_u32Bytes (v : UInt32) : (u32Bytes v).length = 4 := by
  rw [u32Bytes, length_beBytes]
  rfl

theorem readU32_u32Bytes (v : UInt32) : readU32 (u32Bytes v) = some v := by
  have htake := readU32_take (le_of_eq (length_u32Bytes v).symm)
  rw [List.take_of_length_le (by simp)] at htake
  rw [htake, Option.some.injEq]
  have hat := u32At_wordsOfU32 v []
  rwa [List.append_nil] at hat

/-- The header of a wrapped payload announces the payload's length. -/
theorem payloadLength_header {payload : List UInt8} (hshort : payload.length < 2 ^ 32) :
    payloadLength ([0x46, 0x49, 0x4E, 0x53] ++ u32Bytes (UInt32.ofNat payload.length))
      = payload.length := by
  have hlen : ((([0x46, 0x49, 0x4E, 0x53] : List UInt8)
      ++ u32Bytes (UInt32.ofNat payload.length)).drop 4).take 4
      = u32Bytes (UInt32.ofNat payload.length) := by
    exact List.take_of_length_le (by simp)
  rw [payloadLength, hlen, readU32_u32Bytes, Option.getD_some,
    UInt32.toNat_ofNat_of_lt' hshort]

/-- One wrapped payload is read back, up to its last byte and no further. -/
theorem readTransfer_wrapFinsTcp (eof : String) {payload : List UInt8}
    (hshort : payload.length < 2 ^ 32) (rest : List UInt8) :
    readTransfer eof (wrapFinsTcp payload ++ rest) = (.answered payload, rest) := by
  have hheader : readExact 8 (wrapFinsTcp payload ++ rest)
      = some ([0x46, 0x49, 0x4E, 0x53] ++ u32Bytes (UInt32.ofNat payload.length),
          payload ++ rest) := by
    rw [wrapFinsTcp, List.append_assoc _ payload]
    exact readExact_append (by simp) _
  have hpayload := readExact_append (payloadLength_header hshort).symm rest
  simp only [readTransfer, hheader, hpayload]

/-- A stream of wrapped payloads is read back frame by frame. -/
theorem readTransfers_flatMap (eof : String) (payloads : List (List UInt8))
    (hshort : ∀ p : List UInt8, p ∈ payloads → p.length < 2 ^ 32) (rest : List UInt8) :
    readTransfers eof payloads.length (payloads.flatMap wrapFinsTcp ++ rest)
      = (payloads.map .answered, rest) := by
  induction payloads with
  | nil => rfl
  | cons p ps ih =>
      have hhead := readTransfer_wrapFinsTcp eof (hshort p List.mem_cons_self)
        (ps.flatMap wrapFinsTcp ++ rest)
      have htail := ih fun q hq => hshort q (List.mem_cons_of_mem p hq)
      rw [List.flatMap_cons, List.append_assoc, List.length_cons, readTransfers, hhead]
      simp only [htail, List.map_cons]

/-- What `build_fins_frame` puts behind the header is parsed as end code and
    data. -/
theorem parseFinsResponse_buildFinsFrame (sid : UInt8) (command : UInt8 × UInt8) (e : UInt16)
    (data : List UInt8) :
    parseFinsResponse (buildFinsFrame sid command (beBytes [e] ++ data)) = .ok (sid, e, data) := by
  have hlong : ¬ (buildFinsFrame sid command (beBytes [e] ++ data)).length < 14 := by
    simp only [buildFinsFrame, List.length_append, length_beBytes, List.length_cons,
      List.length_nil]
    omega
  rw [parseFinsResponse, if_neg hlong]
  simp only [buildFinsFrame, beBytes, List.cons_append, List.nil_append]
  show Except.ok (sid, beWord (e >>> 8).toUInt8 (e &&& 0xFF).toUInt8, data) = _
  rw [beWord_bytes]

/-- FINS/TCP framing round-trips: the reader takes any stream of wrapped
    payloads apart into exactly those payloads and leaves nothing over, the
    parser takes a frame apart into what it was built from, and a frame
    shorter than 14 bytes is an error. -/
theorem fins_framing_round_trips (eof : String) :
    (∀ payloads : List (List UInt8), (∀ p : List UInt8, p ∈ payloads → p.length < 2 ^ 32) →
        readTransfers eof payloads.length (payloads.flatMap wrapFinsTcp)
          = (payloads.map .answered, []))
      ∧ (∀ (sid : UInt8) (command : UInt8 × UInt8) (e : UInt16) (data : List UInt8),
          parseFinsResponse (buildFinsFrame sid command (beBytes [e] ++ data)) = .ok (sid, e, data))
      ∧ ∀ frame : List UInt8, frame.length < 14 →
          parseFinsResponse frame = .error (.protocol "Frame too short") := by
  refine ⟨?_, parseFinsResponse_buildFinsFrame, ?_⟩
  · intro payloads hshort
    have hread := readTransfers_flatMap eof payloads hshort []
    rwa [List.append_nil] at hread
  · intro frame hshort
    rw [parseFinsResponse, if_pos hshort]

/-- Two responses, the second empty, on one connection. -/
theorem fins_framing_round_trips_two :
    readTransfers "early eof" 2 ([[0xC0, 0x00, 0x02], []].flatMap wrapFinsTcp)
      = ([.answered [0xC0, 0x00, 0x02], .answered []], []) :=
  (fins_framing_round_trips "early eof").1 [[0xC0, 0x00, 0x02], []] (by simp)

end PlcBridge.Fins
