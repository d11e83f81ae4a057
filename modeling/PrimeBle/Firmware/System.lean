import PrimeBle.Firmware.Comms
import PrimeBle.Firmware.Server
import PrimeBle.Library.Machine

/-! # The application as a system of tasks and events

Host requests, polls of the BLE task and radio events happen in any order, each
as one step. Events that cannot happen in a state leave it alone, and so does
everything once the application has panicked or reset.
-/

namespace PrimeBle.Firmware

open HostProtocol

/-- What happens besides host requests. -/
inductive Background where
  /-- The executor polls the BLE task. -/
  | poll
  /-- A peer connects to the advertisement on air. -/
  | peerConnects
  /-- The link ends, by itself or because it was asked to. -/
  | linkEnds
  /-- A peer writes to the receive characteristic. -/
  | rxWrite (data : Message)

inductive Event where
  | request (radio : RadioReadings) (request : Request)
  | background (event : Background)

/-- The host switches Bluetooth on. -/
abbrev Event.enable (radio : RadioReadings) : Event := .request radio (some (.bluetooth .enable))

/-- The host switches Bluetooth off. -/
abbrev Event.disable (radio : RadioReadings) : Event := .request radio (some (.bluetooth .disable))

structure Output where
  response : Option HostProtocolMessage
  advertised : Option AdvertiseCall

/-- What the application runs on. -/
structure Platform where
  hmac : HmacSha256
  context : CommsContext
  softDevice : SoftDevice

/-- A platform for concrete runs, whose SoftDevice starts advertising unless a
link is up. -/
def Platform.bare : Platform where
  hmac := { newFromSlice _ := some fun _ => Vector.replicate 32 0, accepts _ := rfl }
  context := { address := Vector.replicate 6 0, deviceId := Vector.replicate 8 0 }
  softDevice call := call.link.isNone

def peerConnects (state : State) : State :=
  match state.task, state.link with
  | .advertising advertisement none, none =>
      { state with
        task := .advertising advertisement (some state.linksSoFar)
        link := some state.linksSoFar
        terminating := false
        linksSoFar := state.linksSoFar + 1 }
  | _, _ => state

def linkEnds (state : State) : State := { state with link := none, terminating := false }

/-- The packet reaches the service only while its connection is being served. -/
def rxWrite (state : State) (data : Message) : State :=
  match state.task with
  | .serving connection => if state.link = some connection then nusHandle state data else state
  | _ => state

def backgroundStep (softDevice : SoftDevice) (state : State) :
    Background → State × Option AdvertiseCall
  | .poll => runBluetooth softDevice state
  | .peerConnects => (peerConnects state, none)
  | .linkEnds => (linkEnds state, none)
  | .rxWrite data => (rxWrite state data, none)

variable (platform : Platform) (uicr : Uicr)

def step (state : State) (event : Event) : State × Output :=
  if state.power = .running then
    match event with
    | .request radio request =>
        let answer := commsTask platform.hmac uicr platform.context radio state request
        (answer.1, { response := answer.2, advertised := none })
    | .background event =>
        let polled := backgroundStep platform.softDevice state event
        (polled.1, { response := none, advertised := polled.2 })
  else (state, { response := none, advertised := none })

/-- The application, from one event to the next. -/
def machine : Machine State Event Output where
  step := step platform uicr

@[simp] theorem machine_step (state : State) (event : Event) :
    (machine platform uicr).step state event = step platform uicr state event := rfl

end PrimeBle.Firmware
