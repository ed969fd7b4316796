/-
  PlcBridge.Modbus.Cycle

  One read/write cycle of the Modbus driver
  (`ModbusDriver::run_read_cycle_impl`, driver/modbus/src/driver.rs).

  The device, the network and the timeouts are an oracle (`Env`) that answers
  each request from everything that was exchanged before it, so every sequence
  of outcomes is one choice of the oracle.  Health events and log lines are
  not modelled.
-/
import PlcBridge.Driver.Loop
import PlcBridge.Modbus.Codec
import PlcBridge.Modbus.Plan
import Mathlib.Data.List.Infix

namespace PlcBridge.Modbus

open PlcBridge.Lib

-- ============================================================================
-- Requests and their outcomes
-- ============================================================================

/-- Modbus exception codes. -/
inductive ExceptionCode where
  | illegalFunction
  | illegalDataAddress
  | illegalDataValue
  | serverDeviceFailure
  | acknowledge
  | serverDeviceBusy
  | memoryParityError
  | gatewayPathUnavailable
  | gatewayTargetDevice
  | custom (code : UInt8)
deriving DecidableEq, Repr

/-- The text `{:?}` prints for an exception code. -/
def ExceptionCode.debug : ExceptionCode → String
  | .illegalFunction => "IllegalFunction"
  | .illegalDataAddress => "IllegalDataAddress"
  | .illegalDataValue => "IllegalDataValue"
  | .serverDeviceFailure => "ServerDeviceFailure"
  | .acknowledge => "Acknowledge"
  | .serverDeviceBusy => "ServerDeviceBusy"
  | .memoryParityError => "MemoryParityError"
  | .gatewayPathUnavailable => "GatewayPathUnavailable"
  | .gatewayTargetDevice => "GatewayTargetDevice"
  | .custom code => "Custom(" ++ toString code ++ ")"

/-- How a client call under `time::timeout` ends. -/
inductive CallResult (α : Type) where
  | ok (a : α)
  | exception (code : ExceptionCode)
  | transport (msg : String)
  | timeout
deriving DecidableEq

def CallResult.map {α β : Type} (f : α → β) : CallResult α → CallResult β
  | .ok a => .ok (f a)
  | .exception code => .exception code
  | .transport msg => .transport msg
  | .timeout => .timeout

/-- What a successful read delivers. -/
inductive ReadData where
  | registers (regs : List UInt16)
  | bits (bits : List Bool)
deriving DecidableEq

/-- Number of registers or bits delivered. -/
def ReadData.count : ReadData → Nat
  | .registers regs => regs.length
  | .bits bs => bs.length

/-- One request to the device together with its outcome; a write also names
    the queued request it carries out. -/
inductive Exchange where
  | read (ctx : Nat) (func : ModbusFunction) (start qty : UInt16) (result : CallResult ReadData)
  | write (ctx : Nat) (req : WriteRequest) (address : UInt16) (words : List UInt16)
      (result : CallResult Unit)
deriving DecidableEq

/-- The driver's surroundings: chrono, the clock, the iteration order of the
    hash map, and the answers of the device. -/
structure Env where
  chrono : Chrono
  clock : Nat → DateTime
  order : FuncOrder
  readRegisters : List Exchange → Nat → ModbusFunction → UInt16 → UInt16 → CallResult (List UInt16)
  readBits : List Exchange → Nat → ModbusFunction → UInt16 → UInt16 → CallResult (List Bool)
  writeMultipleRegisters : List Exchange → Nat → UInt16 → List UInt16 → CallResult Unit

/-- The read call of a function. -/
def Env.read (env : Env) (history : List Exchange) (ctx : Nat) (func : ModbusFunction)
    (start qty : UInt16) : CallResult ReadData :=
  match func with
  | .holdingRegisters | .inputRegisters =>
      (env.readRegisters history ctx func start qty).map .registers
  | .coils | .discreteInputs => (env.readBits history ctx func start qty).map .bits

abbrev State := DriverState Exchange Unit

-- ============================================================================
-- Error classes
-- ============================================================================

/-- `s.contains(sub)`. -/
def hasSubstr (s sub : String) : Bool := sub.toList <:+: s.toList

/-- An error that hints at a wrong address or function. -/
def isIllegal (err : String) : Bool :=
  hasSubstr err "Illegal" || hasSubstr err "Address" || hasSubstr err "IllegalDataAddress"

/-- An error that hints at a failed device. -/
def isDeviceFailure (err : String) : Bool :=
  hasSubstr err "Slave" &&
    (hasSubstr err "Failure" || hasSubstr err "Device" || hasSubstr err "Unavailable")

/-- An error that ends the cycle. -/
def isFatal (err : String) : Bool := !isIllegal err && (isDeviceFailure err || err = "Timeout")

-- ============================================================================
-- Reads
-- ============================================================================

/-- One packed word: bit `i` is the `i`-th of up to sixteen bits. -/
def packWord (bits : List Bool) : UInt16 :=
  (List.range 16).foldl
    (fun w i => if bits.getD i false then w ||| (1 <<< UInt16.ofNat i) else w) 0

/-- Pack bits into words, sixteen to a word. -/
def packBits (bits : List Bool) : List UInt16 :=
  (List.range ((bits.length + 15) / 16)).map fun k => packWord ((bits.drop (16 * k)).take 16)

/-- The payload the extraction loop slices. -/
def ReadData.rawBytes : ReadData → List UInt8
  | .registers regs => registersToBytes regs
  | .bits bs => registersToBytes (packBits bs)

/-- `read_result`: the payload, or the error text that decides what follows. -/
def CallResult.payload : CallResult ReadData → Except String (List UInt8)
  | .ok data => .ok data.rawBytes
  | .exception code => .error code.debug
  | .transport msg => .error ("Transport: " ++ msg)
  | .timeout => .error "Timeout"

/-- Extract the portion of a payload that intersects a mapping and decode it. -/
def extractMapping (env : Env) (r : ReadRequest) (raw : List UInt8) (d : State)
    (m : ModbusMapping) : State :=
  let chunkStart := r.start.toNat
  let chunkEnd := chunkStart + r.qty.toNat - 1
  let mapStart := m.address.toNat
  let mapEnd := mapStart + m.quantity.toNat - 1
  if mapEnd < chunkStart ∨ chunkEnd < mapStart then d
  else
    let overlapStart := max mapStart chunkStart
    let overlapEnd := min mapEnd chunkEnd
    let offBytes := (overlapStart - chunkStart) * 2
    let lenBytes := (overlapEnd - overlapStart + 1) * 2
    if raw.length < offBytes + lenBytes then d.setTagQuality env.clock m.tagId .configError
    else
      let slice := (raw.drop offBytes).take lenBytes
      match d.registry.getDefinition m.tagId with
      | .error _ => d.setTagQuality env.clock m.tagId .configError
      | .ok _ =>
          match d.registry.getTag m.tagId with
          | .error _ => d.setTagQuality env.clock m.tagId .commLost
          | .ok _ =>
              match decodeBytesToTagvalue env.chrono m.dataType
                (applyByteOrder slice m.byteOrder) m.bitOffset with
              | .ok tv => d.updateTagValue env.clock m.tagId tv .good
              | .error _ => d.setTagQuality env.clock m.tagId .configError

/-- One turn of the chunk loop: the read and what is made of its result. -/
def readStep (env : Env) (ctx : Nat) (r : ReadRequest) (d : State) :
    Except DriverError Unit × State :=
  let result := env.read d.trace ctx r.func r.start r.qty
  let d := d.record (.read ctx r.func r.start r.qty result)
  match result.payload with
  | .ok raw => (.ok (), r.members.foldl (extractMapping env r raw) d)
  | .error err =>
      if isIllegal err then (.ok (), d.markAll env.clock r.ids .configError)
      else if isDeviceFailure err ∨ err = "Timeout" then
        (.error (.modbus err), (d.markAll env.clock r.ids .commLost).putBack none)
      else (.ok (), d)

-- ============================================================================
-- Writes
-- ============================================================================

/-- The words a value is written as: standard words, byte-ordered for the
    mapping. -/
def ModbusMapping.orderedWords (m : ModbusMapping) (words : List UInt16) : List UInt16 :=
  beWords (applyByteOrder (registersToBytes words) m.byteOrder)

/-- What follows the write call. -/
def finishWrite (env : Env) (m : ModbusMapping) (req : WriteRequest) (result : CallResult Unit)
    (d : State) : Except DriverError Unit × State :=
  match result with
  | .ok () => (.ok (), (d.updateTagValue env.clock m.tagId req.value .good).sendReply req (.ok ()))
  | .exception code =>
      let emsg := code.debug
      if isIllegal emsg then
        (.ok (), (d.setTagQuality env.clock m.tagId .configError).sendReply req
          (.error ("Modbus exception: " ++ emsg)))
      else
        (.error (.modbus emsg), ((d.setTagQuality env.clock m.tagId .commLost).sendReply req
          (.error ("Modbus error: " ++ emsg))).putBack none)
  | .transport msg =>
      let emsg := "Transport: " ++ msg
      (.error (.modbus emsg), ((d.setTagQuality env.clock m.tagId .commLost).sendReply req
        (.error emsg)).putBack none)
  | .timeout =>
      (.error .timeout, ((d.setTagQuality env.clock m.tagId .commLost).sendReply req
        (.error "Timeout")).putBack none)

/-- Write to holding registers over the persistent context. -/
def sendWrite (env : Env) (m : ModbusMapping) (req : WriteRequest) (words : List UInt16)
    (d : State) : Except DriverError Unit × State :=
  let ctx := d.takeOrConnect.1
  let d := d.takeOrConnect.2
  let result := env.writeMultipleRegisters d.trace ctx m.address words
  finishWrite env m req result ((d.record (.write ctx req m.address words result)).putBack (some ctx))

/-- Process one queued write. -/
def processWrite (env : Env) (mappings : List ModbusMapping) (req : WriteRequest) (d : State) :
    Except DriverError Unit × State :=
  match mappings.find? fun m => m.tagId = req.tagId with
  | none => (.ok (), d.sendReply req (.error "Unknown tag mapping"))
  | some m =>
      if !m.writable then (.ok (), d.sendReply req (.error "Tag not writable"))
      else
        match tagvalueToRegisters req.value with
        | .error e =>
            (.ok (), (d.setTagQuality env.clock m.tagId .commLost).sendReply req
              (.error ("Conversion error: " ++ e.display)))
        | .ok words =>
            match m.function with
            | .holdingRegisters =>
                if (applyByteOrder (registersToBytes words) m.byteOrder).length % 2 ≠ 0 then
                  (.ok (), (d.setTagQuality env.clock m.tagId .commLost).sendReply req
                    (.error "Ordered bytes length not even"))
                else sendWrite env m req (m.orderedWords words) d
            | _ =>
                (.ok (), (d.setTagQuality env.clock m.tagId .commLost).sendReply req
                  (.error "Unsupported write function"))

/-- Take up to `n` requests from the queue; an aborting write ends the
    cycle. -/
def drainWrites (env : Env) (mappings : List ModbusMapping) : Nat → State →
    Except DriverError Unit × State
  | 0, d => (.ok (), d)
  | n + 1, d =>
      match d.queue with
      | [] => (.ok (), d)
      | req :: rest =>
          match processWrite env mappings req { d with queue := rest } with
          | (.ok (), d') => drainWrites env mappings n d'
          | (.error e, d') => (.error e, d')

-- ============================================================================
-- The cycle
-- ============================================================================

/-- The read phase on a context that is out of the slot. -/
def readPhase (env : Env) (mappings : List ModbusMapping) (d : State) :
    Except DriverError Unit × State :=
  let ctx := d.takeOrConnect.1
  match runList (readStep env ctx) (readPlan env.order mappings) d.takeOrConnect.2 with
  | (.ok (), d') => (.ok (), d'.putBack (some ctx))
  | (.error e, d') => (.error e, d')

/-- A single read/write cycle. -/
def runReadCycleImpl (env : Env) (mappings : List ModbusMapping) (d : State) :
    Except DriverError Unit × State :=
  match drainWrites env mappings 64 d with
  | (.ok (), d') => readPhase env mappings d'
  | (.error e, d') => (.error e, d')

end PlcBridge.Modbus
