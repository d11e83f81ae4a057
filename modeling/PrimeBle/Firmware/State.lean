import PrimeBle.HostProtocol.Decode
import PrimeBle.Library.Channel
import PrimeBle.Uicr

/-! # What the application's tasks share

The statics through which the communication task, the BLE task and the radio
events talk to each other, together with the suspension point of the BLE task
and the link the SoftDevice keeps. An uncontended lock is taken without
yielding, so the BLE task is only ever suspended where `Task` says.
-/

namespace PrimeBle.Firmware

open HostProtocol

/-- Maximum number of BLE packets that can be buffered. -/
def btMaxNumPkt : ℕ := 16

/-- Links are told apart by the order in which they were established; a
connection is a handle to one of them and may outlive it. -/
abbrev LinkId := ℕ

/-- The transmit powers the SoftDevice offers. -/
inductive RadioPower where
  | minus40dBm
  | minus20dBm
  | minus16dBm
  | minus12dBm
  | minus8dBm
  | minus4dBm
  | zerodBm
  | plus3dBm
  | plus4dBm
  deriving DecidableEq, Repr

/-- What `run_bluetooth_inner` asks the SoftDevice to advertise. -/
structure Advertisement where
  scanData : List UInt8
  channelMask : Vector UInt8 5
  txPower : RadioPower
  deriving DecidableEq, Repr

/-- Where the BLE task is suspended. -/
inductive Task where
  /-- In `run_bluetooth`, waiting for the start signal. -/
  | waiting
  /-- In the select of `run_bluetooth_inner`, with the connection the
  advertising future has received, if any. -/
  | advertising (advertisement : Advertisement) (accepted : Option LinkId)
  /-- In `gatt_server::run` on a connection. -/
  | serving (connection : LinkId)
  deriving DecidableEq, Repr

inductive Power where
  | running
  | panicked
  | reset
  deriving DecidableEq, Repr

structure State where
  btEnable : Option Bool
  btAdvChan : UInt8
  btDataRx : Channel Message btMaxNumPkt
  btDataRxOverflow : Bool
  txPwrValue : Int8
  deviceName : DeviceName
  btAdvChanged : Bool
  connection : Option LinkId
  irqOutPinHigh : Bool
  btStateCopy : Bool
  task : Task
  /-- The link that is up, whether or not the application still knows it. -/
  link : Option LinkId
  /-- The link was asked to terminate and has not ended yet. -/
  terminating : Bool
  linksSoFar : ℕ
  power : Power

/-- The application as `main` starts its tasks. -/
def State.start : State where
  btEnable := none
  btAdvChan := 0
  btDataRx := .empty
  btDataRxOverflow := false
  txPwrValue := 0
  deviceName := ⟨defaultDeviceName, by decide⟩
  btAdvChanged := false
  connection := none
  irqOutPinHigh := true
  btStateCopy := false
  task := .waiting
  link := none
  terminating := false
  linksSoFar := 0
  power := .running

/-- Request termination of the link behind a connection. It ends later, and
nothing happens if it has already ended. -/
def State.disconnect (state : State) (connection : LinkId) : State :=
  if state.link = some connection then { state with terminating := true } else state

end PrimeBle.Firmware
