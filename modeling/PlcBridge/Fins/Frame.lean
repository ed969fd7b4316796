/-
  PlcBridge.Fins.Frame

  The bytes of FINS/TCP requests and responses (`wrap_fins_tcp`,
  `build_fins_frame`, `build_memory_read`, `build_memory_write` and
  `parse_fins_response` of driver/fins/src/driver.rs), and what a PLC makes of
  a memory request it receives: three address bytes and a 16-bit word count.
-/
import PlcBridge.Fins.Mapping
import PlcBridge.Lib.Words

namespace PlcBridge.Fins

open PlcBridge.Lib

-- ============================================================================
-- Requests
-- ============================================================================

/-- The four bytes of a 32-bit number, most significant first. -/
def u32Bytes (v : UInt32) : List UInt8 := beBytes (wordsOfU32 v)

/-- FINS/TCP header in front of a frame. -/
def wrapFinsTcp (payload : List UInt8) : List UInt8 :=
  [0x46, 0x49, 0x4E, 0x53] ++ u32Bytes (UInt32.ofNat payload.length) ++ payload

/-- FINS header with session id and command code. -/
def buildFinsFrame (sid : UInt8) (command : UInt8 × UInt8) (params : List UInt8) : List UInt8 :=
  [0x80, 0x00, 0x02, 0x00, 0x00, 0x00, 0x00, 0x00, 0x00, sid, command.1, command.2] ++ params

/-- Area, the low three bytes of the address, and the bit offset. -/
def memoryAddress (area : UInt8) (address : UInt32) (bitOffset : UInt8) : List UInt8 :=
  [area, ((address >>> 16) &&& 0xFF).toUInt8, ((address >>> 8) &&& 0xFF).toUInt8,
    (address &&& 0xFF).toUInt8, bitOffset]

def buildMemoryRead (area : UInt8) (address : UInt32) (bitOffset : UInt8) (wordCount : UInt16) :
    List UInt8 := memoryAddress area address bitOffset ++ beBytes [wordCount]

def buildMemoryWrite (area : UInt8) (address : UInt32) (bitOffset : UInt8) (words : List UInt16) :
    List UInt8 :=
  memoryAddress area address bitOffset ++ beBytes [UInt16.ofNat words.length] ++ beBytes words

/-- A memory read as it is sent. -/
def readFrame (sid : UInt8) (area : UInt8) (address : UInt32) (wordCount : UInt16) : List UInt8 :=
  wrapFinsTcp (buildFinsFrame sid (0x01, 0x01) (buildMemoryRead area address 0 wordCount))

/-- A memory write as it is sent. -/
def writeFrame (sid : UInt8) (area : UInt8) (address : UInt32) (bitOffset : UInt8)
    (words : List UInt16) : List UInt8 :=
  wrapFinsTcp (buildFinsFrame sid (0x01, 0x02) (buildMemoryWrite area address bitOffset words))

-- ============================================================================
-- What the PLC reads
-- ============================================================================

/-- A memory request as a PLC understands it. -/
structure MemoryRequest where
  sid : UInt8
  /-- `true` for a write. -/
  write : Bool
  area : UInt8
  address : Nat
  bitOffset : UInt8
  count : Nat
  words : List UInt16
deriving DecidableEq

/-- The request in a received frame: behind the 8-byte TCP header and the
    10-byte FINS header come command, area, a 24-bit address, bit and count. -/
def receive : List UInt8 → Option MemoryRequest
  | _ :: _ :: _ :: _ :: _ :: _ :: _ :: _ ::
      _ :: _ :: _ :: _ :: _ :: _ :: _ :: _ :: _ :: sid ::
      c0 :: c1 :: area :: a2 :: a1 :: a0 :: bit :: n1 :: n0 :: rest =>
      if c0 = 0x01 ∧ (c1 = 0x01 ∨ c1 = 0x02) then
        some ⟨sid, c1 = 0x02, area, a2.toNat * 65536 + a1.toNat * 256 + a0.toNat, bit,
          (beWord n1 n0).toNat, beWords rest⟩
      else none
  | _ => none

/-- The three address bytes carry the address modulo 2^24. -/
theorem address_bytes (address : UInt32) :
    ((address >>> 16) &&& 0xFF).toUInt8.toNat * 65536 + ((address >>> 8) &&& 0xFF).toUInt8.toNat * 256
      + (address &&& 0xFF).toUInt8.toNat = address.toNat % 2 ^ 24 := by
  have hlt := address.toNat_lt
  simp only [UInt32.toNat_toUInt8, UInt32.toNat_and, UInt32.toNat_shiftRight, UInt32.reduceToNat,
    nat_and_255, Nat.shiftRight_eq_div_pow, Nat.reduceMod, Nat.reducePow]
  omega

/-- A read request arrives with its address modulo 2^24. -/
theorem receive_readFrame (sid area : UInt8) (address : UInt32) (wordCount : UInt16) :
    receive (readFrame sid area address wordCount) =
      some ⟨sid, false, area, address.toNat % 2 ^ 24, 0, wordCount.toNat, []⟩ := by
  rw [← address_bytes]
  simp only [readFrame, wrapFinsTcp, buildFinsFrame, buildMemoryRead, memoryAddress, u32Bytes,
    wordsOfU32, beBytes, List.cons_append, List.nil_append, receive, beWord_bytes, beWords]
  rfl

/-- A write request arrives with its address modulo 2^24 and its word count
    modulo 2^16. -/
theorem receive_writeFrame (sid area : UInt8) (address : UInt32) (bit : UInt8) (words : List UInt16) :
    receive (writeFrame sid area address bit words) =
      some ⟨sid, true, area, address.toNat % 2 ^ 24, bit, words.length % 2 ^ 16, words⟩ := by
  rw [← address_bytes]
  simp only [writeFrame, wrapFinsTcp, buildFinsFrame, buildMemoryWrite, memoryAddress, u32Bytes,
    wordsOfU32, beBytes, List.cons_append, List.nil_append, receive, beWord_bytes,
    beWords_beBytes]
  simp

-- ============================================================================
-- Responses
-- ============================================================================

/-- Session id, end code and data of a response frame. -/
def parseFinsResponse (frame : List UInt8) : Except DriverError (UInt8 × UInt16 × List UInt8) :=
  if frame.length < 14 then .error (.protocol "Frame too short")
  else .ok (frame.getD 9 0, beWord (frame.getD 12 0) (frame.getD 13 0), frame.drop 14)

/-- How sending a request and receiving the response ends: one of the three
    I/O steps fails, or the payload announced by the TCP header arrives. -/
inductive Transfer where
  | sendFailed (err : String)
  | headerFailed (err : String)
  | payloadFailed (err : String)
  | answered (payload : List UInt8)
deriving DecidableEq

/-- What the driver makes of the outcome of a request. -/
inductive Response where
  /-- An I/O error. -/
  | lost (err : String)
  /-- The frame could not be parsed. -/
  | malformed (err : DriverError)
  /-- The session id is another request's. -/
  | mismatched
  /-- A non-zero end code. -/
  | refused (code : UInt16)
  /-- End code zero, with the data behind it. -/
  | accepted (data : List UInt8)
deriving DecidableEq

/-- Parse the payload, then check the session id, then the end code. -/
def Transfer.response (sid : UInt8) : Transfer → Response
  | .sendFailed err | .headerFailed err | .payloadFailed err => .lost err
  | .answered payload =>
      match parseFinsResponse payload with
      | .error e => .malformed e
      | .ok (respSid, endCode, data) =>
          if respSid ≠ sid then .mismatched
          else if endCode ≠ 0 then .refused endCode
          else .accepted data

theorem response_answered {payload : List UInt8} (hlong : 14 ≤ payload.length) (sid : UInt8) :
    (Transfer.answered payload).response sid =
      if payload.getD 9 0 ≠ sid then .mismatched
      else if beWord (payload.getD 12 0) (payload.getD 13 0) ≠ 0 then
        .refused (beWord (payload.getD 12 0) (payload.getD 13 0))
      else .accepted (payload.drop 14) := by
  rw [Transfer.response, parseFinsResponse, if_neg (Nat.not_lt.mpr hlong)]

/-- `format!("FINS end code: 0x{:04X}", end_code)`. -/
def endCodeText (code : UInt16) : String := "FINS end code: 0x" ++ hexString (wordBytes code)

/-- A response frame with end code zero. -/
def okResponse (sid : UInt8) (command : UInt8 × UInt8) (data : List UInt8) : List UInt8 :=
  [0xC0, 0x00, 0x02, 0x00, 0x00, 0x00, 0x00, 0x00, 0x00, sid, command.1, command.2, 0x00, 0x00] ++ data

theorem response_okResponse (sid : UInt8) (command : UInt8 × UInt8) (data : List UInt8) :
    (Transfer.answered (okResponse sid command data)).response sid = .accepted data := by
  have hlen : 14 ≤ (okResponse sid command data).length := by
    simp only [okResponse, List.length_append, List.length_cons, List.length_nil]
    omega
  have hsid : (okResponse sid command data).getD 9 0 = sid := rfl
  have hcode : beWord ((okResponse sid command data).getD 12 0) ((okResponse sid command data).getD 13 0)
      = 0 := by
    show beWord 0x00 0x00 = 0
    decide
  rw [response_answered hlen, if_neg (not_not.mpr hsid), if_neg (not_not.mpr hcode)]
  rfl

end PlcBridge.Fins
