import PrimeBle.Firmware.State

/-! # The BLE task

`run_bluetooth` waits for the start signal and then races the advertising and
serving loop against the stop signal; the race drops the loop where it is
suspended. A poll runs the task up to its next suspension point, and the loop is
polled before the stop signal.
-/

namespace PrimeBle.Firmware

open HostProtocol

/-- The advertising element with the complete local name. -/
def fullName (name : DeviceName) : List UInt8 :=
  let bytes := name.text.toUTF8.data.toList
  UInt8.ofNat (bytes.length + 1) :: 0x09 :: bytes

/-- The element tells the name. -/
theorem fullName_injective : Function.Injective fullName := by
  intro first second same
  have bytes : first.text.toUTF8.data.toList = second.text.toUTF8.data.toList :=
    (List.cons.inj (List.cons.inj same).2).2
  have text : first.text = second.text :=
    String.toByteArray_inj.mp (ByteArray.ext (Array.toList_inj.mp bytes))
  cases first
  cases second
  congr

/-- The radio level for a requested power. -/
def radioPower (power : Int8) : RadioPower :=
  if power = -40 then .minus40dBm
  else if power = -20 then .minus20dBm
  else if power = -16 then .minus16dBm
  else if power = -12 then .minus12dBm
  else if power = -8 then .minus8dBm
  else if power = -4 then .minus4dBm
  else if power = 3 then .plus3dBm
  else if power = 4 then .plus4dBm
  else .zerodBm

/-- A call of `advertise_connectable`, with the link that is up at that time. -/
structure AdvertiseCall where
  advertisement : Advertisement
  link : Option LinkId
  deriving DecidableEq, Repr

/-- Whether the SoftDevice starts the advertising it is asked for. -/
abbrev SoftDevice := AdvertiseCall → Bool

def advertisement (state : State) : Advertisement where
  scanData := fullName state.deviceName
  channelMask := #v[0, 0, 0, 0, state.btAdvChan]
  txPower := radioPower state.txPwrValue

variable (softDevice : SoftDevice)

/-- From the head of the loop to the select: the change signal is reset, the
settings are read and advertising starts, or the refusal is unwrapped. -/
def startAdvertising (state : State) : State × Option AdvertiseCall :=
  let state := { state with btAdvChanged := false }
  let call := { advertisement := advertisement state, link := state.link }
  if softDevice call then
    ({ state with task := .advertising call.advertisement none }, some call)
  else ({ state with power := .panicked }, some call)

/-- Serve a connection: the server returns at once if its link has ended, and
then the connection is forgotten and the loop starts over. -/
def serve (connection : LinkId) (state : State) : State × Option AdvertiseCall :=
  if state.link = some connection then ({ state with task := .serving connection }, none)
  else startAdvertising softDevice { state with connection := none }

/-- Poll the loop. An accepted connection wins over a change of settings. -/
def runBluetoothInner (state : State) : State × Option AdvertiseCall :=
  match state.task with
  | .waiting => (state, none)
  | .advertising _ (some connection) =>
      serve softDevice connection { state with connection := some connection }
  | .advertising _ none =>
      if state.btAdvChanged then startAdvertising softDevice state else (state, none)
  | .serving connection => serve softDevice connection state

/-- Poll the stop signal of a running loop; a stop drops the loop. -/
def checkStopped (state : State) : State :=
  match state.btEnable with
  | none => state
  | some true => { state with btEnable := none }
  | some false => { state with btEnable := none, task := .waiting }

/-- Poll the loop and then, unless it panicked, the stop signal. -/
def pollRunning (polled : State × Option AdvertiseCall) : State × Option AdvertiseCall :=
  if polled.1.power = .running then (checkStopped polled.1, polled.2) else polled

/-- Poll the BLE task. -/
def runBluetooth (state : State) : State × Option AdvertiseCall :=
  match state.task with
  | .waiting =>
      match state.btEnable with
      | none => (state, none)
      | some false => ({ state with btEnable := none }, none)
      | some true => pollRunning (startAdvertising softDevice { state with btEnable := none })
  | _ => pollRunning (runBluetoothInner softDevice state)

/-- The Nordic UART service takes a packet: it is queued or dropped, and the
host is notified. -/
def nusHandle (state : State) (data : Message) : State :=
  match state.btDataRx.trySend data with
  | some btDataRx => { state with btDataRx, irqOutPinHigh := false }
  | none => { state with btDataRxOverflow := true, irqOutPinHigh := false }

end PrimeBle.Firmware
