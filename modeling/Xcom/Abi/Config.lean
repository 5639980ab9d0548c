import Xcom.Abi.Status

/-!
# Port configuration

`XcomPortConfig` as the caller passes it, the checks `queue_open` makes on it
before it looks at the port, and the snapshot the serial owner opens with.
-/

namespace Xcom

/-- `XcomPortConfig`.  The port name is borrowed, so it may be a null pointer. -/
structure XcomPortConfig where
  structSize : Nat
  port : Option (List UInt8)
  baudRate : UInt32
  dataBits : UInt8
  stopBits : UInt8
  parity : UInt8
  flowControl : UInt8
  dtrEnable : UInt8
  rtsEnable : UInt8
  deriving DecidableEq, Repr

/-- `sizeof(XcomPortConfig)`. -/
def sizeofXcomPortConfig : Nat := 32

/-- `XCOM_LINE_LEAVE_ALONE`. -/
def lineLeaveAlone : UInt8 := 2

/-- Capacity of `CoreCtx::port_name`, its terminator included. -/
def portNameCapacity : Nat := 64

/-- `port_name_from_config`: the name is cut to what the fixed buffer holds. -/
def portNameFromConfig (cfg : Option XcomPortConfig) : Except XcomStatus (List UInt8) :=
  match cfg with
  | none => .error .errParam
  | some c =>
    if c.structSize < sizeofXcomPortConfig then .error .errParam
    else match c.port with
      | none => .error .errParam
      | some name => .ok (name.take (portNameCapacity - 1))

/-- `is_virtual_port`: exactly `VIRTUAL`, or the prefix `TEST`. -/
def isVirtualPort (name : List UInt8) : Bool :=
  name = [0x56, 0x49, 0x52, 0x54, 0x55, 0x41, 0x4C] ∨ name.take 4 = [0x54, 0x45, 0x53, 0x54]

/-- The serial configuration snapshot, `port_name` and the `cfg_*` fields. -/
structure SerialConfig where
  portName : List UInt8 := []
  cfgBaud : UInt32 := 0
  cfgDataBits : UInt8 := 8
  cfgStopBits : UInt8 := 0
  cfgParity : UInt8 := 0
  cfgFlowControl : UInt8 := 0
  cfgDtrEnable : UInt8 := 0
  cfgRtsEnable : UInt8 := 0
  deriving DecidableEq, Repr

/-- The parameter checks of `queue_open`, in their order, and the snapshot it
stores once the port state allows the request. -/
def checkConfig (cfg : Option XcomPortConfig) : Except XcomStatus SerialConfig :=
  match cfg, portNameFromConfig cfg with
  | _, .error e => .error e
  | none, .ok _ => .error .errParam
  | some c, .ok name =>
    if c.baudRate = 0 then .error .errParam
    else if c.dataBits < 5 ∨ 8 < c.dataBits then .error .errParam
    else if 2 < c.stopBits then .error .errParam
    else if 4 < c.parity then .error .errParam
    else if 2 < c.flowControl then .error .errParam
    else if lineLeaveAlone < c.dtrEnable ∨ lineLeaveAlone < c.rtsEnable then .error .errParam
    else .ok
      { portName := name
        cfgBaud := c.baudRate
        cfgDataBits := c.dataBits
        cfgStopBits := c.stopBits
        cfgParity := c.parity
        cfgFlowControl := c.flowControl
        cfgDtrEnable := c.dtrEnable
        cfgRtsEnable := c.rtsEnable }

end Xcom
