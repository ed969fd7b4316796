/-
  PlcBridge.Runtime.WritableTags

  Writes to Modbus tags that the configuration marks writable.

  `tagconfig_to_modbus_mapping` maps `Bool` entries to coils, validation lets a
  writable coil pass (coils are "Read/write" in mapping.rs), but the write phase
  knows holding registers only and refuses the rest.
-/
import PlcBridge.Runtime.Tags
import PlcBridge.WriteQueues

namespace PlcBridge.Runtime

open PlcBridge.Lib PlcBridge.Modbus

variable {mappings : List ModbusMapping} {m : ModbusMapping} {req : WriteRequest}

/-- A device that accepts every write. -/
def acceptingDevice : Env where
  chrono := .rejecting
  clock := fun _ => .unixEpoch
  order := .declared
  readRegisters := fun _ _ _ _ qty => .ok (List.replicate qty.toNat 0)
  readBits := fun _ _ _ _ qty => .ok (List.replicate qty.toNat false)
  writeMultipleRegisters := fun _ _ _ _ => .ok ()

/-- The tags `Setpoint` and `StartCmd` of examples/config.toml. -/
def setpointConfig : TagConfig where
  id := "ns=1;s=ModbusPLC.Setpoint"
  name := "Setpoint"
  address := "100"
  dataType := "UInt16"
  writable := true

def startCmdConfig : TagConfig where
  id := "ns=1;s=ModbusPLC.StartCmd"
  name := "StartCmd"
  address := "0"
  dataType := "Bool"
  writable := true

def setpointMapping : ModbusMapping :=
  ⟨"ns=1;s=ModbusPLC.Setpoint", .uint16, 100, 1, .holdingRegisters, 0, true, .ABCD⟩

end PlcBridge.Runtime
