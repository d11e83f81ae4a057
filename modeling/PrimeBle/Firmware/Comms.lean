import PrimeBle.Firmware.State

/-! # The communication task

The handler for requests that arrive over SPI. It runs from request to response
without yielding. What the SoftDevice reports while it runs is an input.
-/

namespace PrimeBle.Firmware

open HostProtocol

/-- Identity of the device, read once at start. -/
structure CommsContext where
  address : Vector UInt8 6
  deviceId : Vector UInt8 8

/-- What the SoftDevice answers while one request is handled. -/
structure RadioReadings where
  rssi : Option Int8
  /-- `send_notify` found room for the data. -/
  notified : Bool

def getState (state : State) : HostProtocol.State :=
  match state.btStateCopy with
  | true => .enabled
  | false => .disabled

/-- The answer to `GetStatus`; the overflow flag is read and cleared. -/
def getStatus (radio : RadioReadings) (state : State) : State × BluetoothStatus :=
  let queueOverflow := state.btDataRxOverflow
  let connection :=
    match state.connection with
    | some _ => ConnectionStatus.connected (radio.rssi.getD (-128))
    | none => if state.btStateCopy then .waitingForConnection else .disabled
  ({ state with btDataRxOverflow := false }, { connection, queueOverflow })

def hmacChallengeResponse (hmac : HmacSha256) (uicr : Uicr) (nonce : UInt64) :
    HostProtocolMessage :=
  if uicr.sealRegister ≠ uicrSealedSecret then .challengeResult (Vector.replicate 32 0xFF)
  else
    match hmac.newFromSlice uicr.secretAsSlice with
    | some mac => .challengeResult (mac (toBeBytes nonce))
    | none => .challengeResult (Vector.replicate 32 0xFF)

/-- Disconnect the current connection, if there is one. -/
def disconnectCurrent (state : State) : State :=
  match state.connection with
  | some connection => state.disconnect connection
  | none => state

def bluetoothHandler (context : CommsContext) (radio : RadioReadings) (state : State) :
    Bluetooth → State × HostProtocolMessage
  | .disableChannels chan =>
      if chan = AdvChan.all then (state, .bluetooth .nackDisableChannels)
      else
        ({ state with btAdvChan := chan.bits, btAdvChanged := true },
          .bluetooth .ackDisableChannels)
  | .enable =>
      ({ state with btEnable := some true, btStateCopy := true }, .bluetooth .ackEnable)
  | .disable =>
      ({ disconnectCurrent state with btEnable := some false, btStateCopy := false },
        .bluetooth .ackDisable)
  | .getStatus =>
      let answer := getStatus radio state
      (answer.1, .bluetooth (.status answer.2))
  | .getFirmwareVersion => (state, .bluetooth (.ackFirmwareVersion "4.0.0"))
  | .getReceivedData =>
      match state.btDataRx.tryReceive with
      | some (data, btDataRx) => ({ state with btDataRx }, .bluetooth (.receivedData data))
      | none => ({ state with irqOutPinHigh := true }, .bluetooth .noReceivedData)
  | .sendData _ =>
      match state.connection with
      | some _ =>
          (state, .bluetooth (.sendDataResponse (if radio.notified then .sent else .bufferFull)))
      | none => (state, .bluetooth (.sendDataResponse .bufferFull))
  | .getBtAddress => (state, .bluetooth (.ackBtAddress context.address))
  | .setTxPower power =>
      ({ state with txPwrValue := power.toInt8, btAdvChanged := true }, .bluetooth .ackTxPower)
  | .getDeviceId => (state, .bluetooth (.ackDeviceId context.deviceId))
  | .disconnect => (disconnectCurrent state, .bluetooth .ackDisconnect)
  | .setDeviceName name =>
      ({ state with deviceName := name, btAdvChanged := true }, .bluetooth .ackSetDeviceName)
  | .echo data => (state, .bluetooth (.echoResponse data))
  | _ => (state, .inappropriateMessage (getState state))

/-- Handle a message; a reset never returns. -/
def hostProtocolHandler (hmac : HmacSha256) (uicr : Uicr) (context : CommsContext)
    (radio : RadioReadings) (state : State) :
    HostProtocolMessage → State × Option HostProtocolMessage
  | .bluetooth msg =>
      let answer := bluetoothHandler context radio state msg
      (answer.1, some answer.2)
  | .reset => ({ state with power := .reset }, none)
  | .challengeRequest nonce => (state, some (hmacChallengeResponse hmac uicr nonce))
  | .getState => (state, some (.ackState (getState state)))
  | _ => (state, some (.inappropriateMessage (getState state)))

/-- One turn of the communication task, from the decoded request to the
response. -/
def commsTask (hmac : HmacSha256) (uicr : Uicr) (context : CommsContext) (radio : RadioReadings)
    (state : State) : Request → State × Option HostProtocolMessage
  | some msg => hostProtocolHandler hmac uicr context radio state msg
  | none => (state, some (.postcardError .deser))

theorem commsTask_bluetooth (hmac : HmacSha256) (uicr : Uicr) (context : CommsContext)
    (radio : RadioReadings) (state : State) (msg : Bluetooth) :
    commsTask hmac uicr context radio state (some (.bluetooth msg)) =
      ((bluetoothHandler context radio state msg).1,
        some (bluetoothHandler context radio state msg).2) := rfl

theorem commsTask_challengeRequest (hmac : HmacSha256) (uicr : Uicr) (context : CommsContext)
    (radio : RadioReadings) (state : State) (nonce : UInt64) :
    commsTask hmac uicr context radio state (some (.challengeRequest nonce)) =
      (state, some (hmacChallengeResponse hmac uicr nonce)) := rfl

theorem commsTask_getState (hmac : HmacSha256) (uicr : Uicr) (context : CommsContext)
    (radio : RadioReadings) (state : State) :
    commsTask hmac uicr context radio state (some .getState) =
      (state, some (.ackState (getState state))) := rfl

end PrimeBle.Firmware
