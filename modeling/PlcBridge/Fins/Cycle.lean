/-
  PlcBridge.Fins.Cycle

  One read/write cycle of the FINS driver (`FinsDriver::run_read_cycle_impl`
  and `decode_and_update_tag`, driver/fins/src/driver.rs).

  The PLC and the network are an oracle (`Env`) that answers each frame from
  everything that was exchanged before it.  The cycle always returns `Ok(())`,
  unless the decoder panics.  Health events and log lines are not modelled.
-/
import PlcBridge.Driver.Loop
import PlcBridge.Fins.Codec
import PlcBridge.Fins.Frame
import PlcBridge.Fins.Groups

namespace PlcBridge.Fins

open PlcBridge.Lib

/-- One request to the PLC together with its outcome. -/
inductive Exchange where
  | read (ctx : Nat) (sid : UInt8) (group : ReadGroup) (result : Transfer)
  | write (ctx : Nat) (sid : UInt8) (req : WriteRequest) (mapping : TagMapping)
      (words : List UInt16) (result : Transfer)
deriving DecidableEq

/-- The bytes that were sent. -/
def Exchange.sent : Exchange → List UInt8
  | .read _ sid g _ => readFrame sid g.area g.startAddress g.wordCount
  | .write _ sid _ m words _ => writeFrame sid m.area m.address m.bitOffset words

/-- The driver's surroundings: chrono, the clock, and what becomes of a frame
    sent on a connection. -/
structure Env where
  chrono : Chrono
  clock : Nat → DateTime
  transfer : List Exchange → Nat → List UInt8 → Transfer

/-- The session data is the session id counter. -/
abbrev State := DriverState Exchange UInt8

/-- The next session id is drawn. -/
def drawSid (d : State) : State := { d with session := d.session + 1 }

-- ============================================================================
-- Reads
-- ============================================================================

/-- Why the loop over the read groups is left early. -/
inductive Halt where
  | broke
  | panicked
deriving DecidableEq

/-- Decode the bytes of a mapping and store the value. -/
def decodeAndUpdateTag (env : Env) (m : TagMapping) (bytes : List UInt8) (d : State) :
    Attempt Unit × State :=
  match d.registry.getDefinition m.tagId with
  | .error _ => (.failed (.mapping ("Tag id not found in registry: " ++ m.tagId)), d)
  | .ok _ =>
      match decodeBytes env.chrono m.dataType m.bitOffset (applyByteOrder bytes m.byteOrder) with
      | .done v => (.done (), d.updateTagValue env.clock m.tagId v .good)
      | .failed e => (.failed e, d.tick)
      | .panicked => (.panicked, d.tick)

/-- `chunk_end`. -/
def ReadGroup.endAddr (g : ReadGroup) : UInt32 := g.startAddress + g.wordCount.toUInt32 - 1

/-- `map_end < chunk_start || map_start > chunk_end`. -/
def ReadGroup.Misses (g : ReadGroup) (m : TagMapping) : Prop :=
  m.endAddr < g.startAddress ∨ g.endAddr < m.address

instance (g : ReadGroup) (m : TagMapping) : Decidable (g.Misses m) :=
  inferInstanceAs (Decidable (_ ∨ _))

/-- Byte offset and length of the overlap of a mapping with a chunk. -/
def ReadGroup.overlapBytes (g : ReadGroup) (m : TagMapping) : Nat × Nat :=
  let overlapStart := max m.address g.startAddress
  let overlapEnd := min m.endAddr g.endAddr
  ((overlapStart - g.startAddress).toNat * 2, (overlapEnd - overlapStart + 1).toNat * 2)

/-- Extract the portion of a payload that intersects a mapping and decode
    it. -/
def extractMapping (env : Env) (g : ReadGroup) (data : List UInt8) (m : TagMapping) (d : State) :
    Except Halt Unit × State :=
  if g.Misses m then (.ok (), d)
  else
    let offBytes := (g.overlapBytes m).1
    let lenBytes := (g.overlapBytes m).2
    if data.length < offBytes + lenBytes then
      (.ok (), d.setTagQuality env.clock m.tagId (.error "short_payload"))
    else
      match decodeAndUpdateTag env m ((data.drop offBytes).take lenBytes) d with
      | (.done (), d') => (.ok (), d')
      | (.failed e, d') =>
          (.ok (), d'.setTagQuality env.clock m.tagId (.error ("decode_failed: " ++ e.display)))
      | (.panicked, d') => (.error .panicked, d')

/-- Mark the mappings that a short payload concerns. -/
def markShort (env : Env) (g : ReadGroup) (d : State) : State :=
  g.mappings.foldl
    (fun d m => if g.Misses m then d
      else d.setTagQuality env.clock m.tagId (.error "short_payload")) d

/-- What is made of the response to a read. -/
def finishRead (env : Env) (g : ReadGroup) (ctx : Nat) (response : Response) (d : State) :
    Except Halt Unit × State :=
  match response with
  | .lost _ => (.error .broke, (d.markAll env.clock g.ids .commLost).putBack none)
  | .malformed e =>
      (.error .broke, (d.putBack (some ctx)).markAll env.clock g.ids
        (.error ("parse_fins_resp: " ++ e.display)))
  | .mismatched => (.ok (), (d.putBack (some ctx)).markAll env.clock g.ids .commLost)
  | .refused code =>
      (.error .broke, (d.putBack (some ctx)).markAll env.clock g.ids (.error (endCodeText code)))
  | .accepted data =>
      if data.length < g.wordCount.toNat * 2 then (.ok (), markShort env g (d.putBack (some ctx)))
      else runList (extractMapping env g data) g.mappings (d.putBack (some ctx))

/-- One turn of the loop over the read groups. -/
def readStep (env : Env) (g : ReadGroup) (d : State) : Except Halt Unit × State :=
  let sid := d.session
  let ctx := (drawSid d).takeOrConnect.1
  let d := (drawSid d).takeOrConnect.2
  let result := env.transfer d.trace ctx (readFrame sid g.area g.startAddress g.wordCount)
  finishRead env g ctx (result.response sid) (d.record (.read ctx sid g result))

-- ============================================================================
-- Writes
-- ============================================================================

/-- The words a value is written as: standard words, byte-ordered for the
    mapping. -/
def TagMapping.orderedWords (m : TagMapping) (words : List UInt16) : List UInt16 :=
  beWords (applyByteOrder (beBytes words) m.byteOrder)

/-- What is made of the response to a write. -/
def finishWrite (env : Env) (m : TagMapping) (req : WriteRequest) (ctx : Nat) (response : Response)
    (d : State) : State :=
  match response with
  | .lost err =>
      ((d.setTagQuality env.clock m.tagId .commLost).sendReply req
        (.error ("IO error: " ++ err))).putBack none
  | .malformed e =>
      ((d.putBack (some ctx)).setTagQuality env.clock m.tagId
        (.error ("parse_write_resp: " ++ e.display))).sendReply req
          (.error ("Parse error: " ++ e.display))
  | .mismatched =>
      ((d.putBack (some ctx)).setTagQuality env.clock m.tagId .commLost).sendReply req
        (.error "SID mismatch")
  | .refused code =>
      ((d.putBack (some ctx)).setTagQuality env.clock m.tagId
        (.error (endCodeText code))).sendReply req (.error (endCodeText code))
  | .accepted _ =>
      ((d.putBack (some ctx)).updateTagValue env.clock m.tagId req.value .good).sendReply req (.ok ())

/-- Send a write over the connection. -/
def sendWrite (env : Env) (m : TagMapping) (req : WriteRequest) (words : List UInt16) (d : State) :
    State :=
  let sid := d.session
  let ctx := (drawSid d).takeOrConnect.1
  let d := (drawSid d).takeOrConnect.2
  let result := env.transfer d.trace ctx (writeFrame sid m.area m.address m.bitOffset words)
  finishWrite env m req ctx (result.response sid) (d.record (.write ctx sid req m words result))

/-- Process one queued write. -/
def processWrite (env : Env) (mappings : List TagMapping) (req : WriteRequest) (d : State) : State :=
  match mappings.find? fun m => m.tagId = req.tagId with
  | none => d.sendReply req (.error "Unknown tag id")
  | some m =>
      if !m.writable then d.sendReply req (.error "Not writable")
      else
        match tagvalueToWordsStandard req.value with
        | .error e => d.sendReply req (.error ("Conversion error: " ++ e.display))
        | .ok words =>
            if (applyByteOrder (beBytes words) m.byteOrder).length % 2 ≠ 0 then
              d.sendReply req (.error "Ordered bytes length not even")
            else sendWrite env m req (m.orderedWords words) d

/-- Take up to `n` requests from the queue. -/
def drainWrites (env : Env) (mappings : List TagMapping) : Nat → State → State
  | 0, d => d
  | n + 1, d =>
      match d.queue with
      | [] => d
      | req :: rest =>
          drainWrites env mappings n (processWrite env mappings req { d with queue := rest })

-- ============================================================================
-- The cycle
-- ============================================================================

/-- How a cycle ends. -/
inductive Outcome where
  | returned
  | panicked
deriving DecidableEq

/-- Open a connection if the slot is empty. -/
def ensureConnected (d : State) : State := d.takeOrConnect.2.putBack (some d.takeOrConnect.1)

/-- A single read/write cycle. -/
def runReadCycleImpl (env : Env) (drv : FinsDriver) (d : State) : Outcome × State :=
  match runList (readStep env) drv.readGroups
    (drainWrites env drv.mappings 64 (ensureConnected d)) with
  | (.error .panicked, d') => (.panicked, d')
  | (.error .broke, d') => (.returned, d')
  | (.ok (), d') => (.returned, d')

end PlcBridge.Fins
