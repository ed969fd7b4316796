import PlcBridge.Lib.Words
import PlcBridge.Lib.Spans
import PlcBridge.Lib.Runs
import PlcBridge.CoreModel.TagValue
import PlcBridge.CoreModel.TagDefinition
import PlcBridge.CoreModel.TagStore
import PlcBridge.CoreModel.Registry
import PlcBridge.Driver.State
import PlcBridge.Driver.Loop
import PlcBridge.Driver.Accounting
import PlcBridge.Driver.Codec
import PlcBridge.Driver.Pieces
import PlcBridge.Driver.ReadBack
import PlcBridge.Modbus.Mapping
import PlcBridge.Modbus.Overlap
import PlcBridge.Modbus.Codec
import PlcBridge.Modbus.Plan
import PlcBridge.Modbus.Cycle
import PlcBridge.Modbus.Steps
import PlcBridge.Modbus.OrderIndependence
import PlcBridge.Modbus.GroupedReads
import PlcBridge.Modbus.BitReads
import PlcBridge.Modbus.Staleness
import PlcBridge.Modbus.Connection
import PlcBridge.Modbus.WriteReadBack
import PlcBridge.Fins.Mapping
import PlcBridge.Fins.Frame
import PlcBridge.Fins.Codec
import PlcBridge.Fins.Groups
import PlcBridge.Fins.Cycle
import PlcBridge.Fins.Steps
import PlcBridge.Fins.Staleness
import PlcBridge.Fins.GroupedReads
import PlcBridge.WriteQueues
import PlcBridge.Footprint
import PlcBridge.Refusals
import PlcBridge.ValueFormat
import PlcBridge.Runtime.WriteHandler
import PlcBridge.Runtime.Tags
import PlcBridge.Runtime.WritableTags
import PlcBridge.Lib.Transitions
import PlcBridge.CoreModel.Concurrent
import PlcBridge.CoreModel.LostUpdates
import PlcBridge.CoreModel.ChangeEvents
import PlcBridge.Opcua.DataSource
import PlcBridge.Bridge.Drivers
import PlcBridge.Bridge.System
import PlcBridge.Bridge.Growth
import PlcBridge.Bridge.Confirmed
import PlcBridge.Bridge.WriteOrder
import PlcBridge.Bridge.Startup
import PlcBridge.Bridge.Agreement
import PlcBridge.Modbus.Coverage
import PlcBridge.Fins.Coverage
import PlcBridge.Fins.Construction
import PlcBridge.Fins.FaultyAnswers
import PlcBridge.Fins.StrayFrame
import PlcBridge.Modbus.FailedChunks
import PlcBridge.Modbus.PlainArithmetic
import PlcBridge.CoreModel.ByteOrder
import PlcBridge.Fins.Framing
import PlcBridge.CoreModel.StoreRuns
import PlcBridge.RejectedWrites
import PlcBridge.Runtime.FinsRequests
import PlcBridge.Opcua.ClientValues
import PlcBridge.Opcua.Reads
import PlcBridge.Runtime.StaleTags
import PlcBridge.Bridge.GoodData
import PlcBridge.Lib.Unwinding
import PlcBridge.Bridge.Confinement
import PlcBridge.Bridge.Isolation
import PlcBridge.Bridge.ClientView
import PlcBridge.Bridge.Service
import PlcBridge.Bridge.Progress
import PlcBridge.Bridge.Shutdown
import PlcBridge.Runtime.Health
import PlcBridge.WriteProgress
