import PrimeBle.HostProtocol.Messages
import PrimeBle.Library.Postcard

/-! # Decoding requests

The decoders serde derives for the message types, over the postcard wire format.
Variants are numbered in order of declaration at each level.
-/

namespace PrimeBle.HostProtocol

open Postcard

/-- A received transaction: the message it carries, or nothing when its bytes do
not decode. -/
abbrev Request := Option HostProtocolMessage

namespace Decode

/-- The flags keep every bit of their byte in a binary format. -/
def advChan : Decoder AdvChan := do pure ⟨← u8⟩

def message : Decoder Message := do
  let data ← bytes
  if capacity : data.length ≤ appMtu then pure ⟨data, capacity⟩ else failure

def deviceName : Decoder DeviceName := do
  let text ← str
  if capacity : text.utf8ByteSize ≤ maxDeviceNameLen then pure ⟨text, capacity⟩ else failure

def txPower : Decoder TxPower := do
  match ← variant with
  | 0 => pure .negative40dBm
  | 1 => pure .negative20dBm
  | 2 => pure .negative16dBm
  | 3 => pure .negative12dBm
  | 4 => pure .negative8dBm
  | 5 => pure .negative4dBm
  | 6 => pure .zerodBm
  | 7 => pure .positive3dBm
  | 8 => pure .positive4dBm
  | _ => failure

def secretSaveResponse : Decoder SecretSaveResponse := do
  match ← variant with
  | 0 => pure .notAllowed
  | 1 => pure .sealed
  | 2 => pure .error
  | _ => failure

def trustLevel : Decoder TrustLevel := do
  match ← variant with
  | 0 => pure .full
  | 1 => pure .developer
  | _ => failure

def state : Decoder State := do
  match ← variant with
  | 0 => pure .enabled
  | 1 => pure .disabled
  | 2 => pure .firmwareUpgrade
  | 3 => pure .unknown
  | _ => failure

def postcardError : Decoder PostcardError := do
  match ← variant with
  | 0 => pure .deser
  | 1 => pure .overFull
  | _ => failure

def sendDataResponse : Decoder SendDataResponse := do
  match ← variant with
  | 0 => pure .sent
  | 1 => pure .bufferFull
  | _ => failure

def connectionStatus : Decoder ConnectionStatus := do
  match ← variant with
  | 0 => pure .disabled
  | 1 => pure .waitingForConnection
  | 2 => pure (.connected (← i8))
  | _ => failure

def bluetoothStatus : Decoder BluetoothStatus := do
  let connection ← connectionStatus
  let queueOverflow ← bool
  pure { connection, queueOverflow }

def bluetooth : Decoder Bluetooth := do
  match ← variant with
  | 0 => pure (.disableChannels (← advChan))
  | 1 => pure .ackDisableChannels
  | 2 => pure .nackDisableChannels
  | 3 => pure .enable
  | 4 => pure .ackEnable
  | 5 => pure .disable
  | 6 => pure .ackDisable
  | 7 => pure .getStatus
  | 8 => pure (.status (← bluetoothStatus))
  | 9 => pure (.sendData (← message))
  | 10 => pure (.sendDataResponse (← sendDataResponse))
  | 11 => pure .getReceivedData
  | 12 => pure (.receivedData (← message))
  | 13 => pure .noReceivedData
  | 14 => pure .getFirmwareVersion
  | 15 => pure (.ackFirmwareVersion (← str))
  | 16 => pure .getBtAddress
  | 17 => pure (.ackBtAddress (← array u8 6))
  | 18 => pure (.setTxPower (← txPower))
  | 19 => pure .ackTxPower
  | 20 => pure .getDeviceId
  | 21 => pure (.ackDeviceId (← array u8 8))
  | 22 => pure .disconnect
  | 23 => pure .ackDisconnect
  | 24 => pure (.setDeviceName (← deviceName))
  | 25 => pure .ackSetDeviceName
  | 26 => pure (.echo (← message))
  | 27 => pure (.echoResponse (← message))
  | _ => failure

def bootloader : Decoder Bootloader := do
  match ← variant with
  | 0 => pure .eraseFirmware
  | 1 => pure .ackEraseFirmware
  | 2 => pure .nackEraseFirmwareRead
  | 3 => pure .nackEraseFirmware
  | 4 => pure .nackEraseFirmwareWrite
  | 5 => do
      let result ← bool
      let hash ← array u8 32
      pure (.ackVerifyFirmware result hash)
  | 6 => pure (.nackWithIdx (← usize))
  | 7 => pure (.ackWithIdx (← usize))
  | 8 => do
      let blockIdx ← usize
      let crc ← u32
      pure (.ackWithIdxCrc blockIdx crc)
  | 9 => do
      let blockIdx ← usize
      let blockData ← bytes
      pure (.writeFirmwareBlock blockIdx blockData)
  | 10 => pure (.firmwareOutOfBounds (← usize))
  | 11 => pure .noCosignHeader
  | 12 => pure .firmwareVersion
  | 13 => pure (.ackFirmwareVersion (← str))
  | 14 => pure .bootloaderVersion
  | 15 => pure (.ackBootloaderVersion (← str))
  | 16 => pure (.challengeSet (← array u32 8))
  | 17 => pure (.ackChallengeSet (← secretSaveResponse))
  | 18 => pure (.bootFirmware (← trustLevel))
  | _ => failure

def hostProtocolMessage : Decoder HostProtocolMessage := do
  match ← variant with
  | 0 => pure (.bluetooth (← bluetooth))
  | 1 => pure (.bootloader (← bootloader))
  | 2 => pure .reset
  | 3 => pure .getState
  | 4 => pure (.ackState (← state))
  | 5 => pure (.challengeRequest (← u64))
  | 6 => pure (.challengeResult (← array u8 32))
  | 7 => pure (.postcardError (← postcardError))
  | 8 => pure (.inappropriateMessage (← state))
  | _ => failure

end Decode

/-- What a program makes of the bytes an SPI transaction delivers into a receive
buffer of the given size. -/
def fromBytes (bufferSize : ℕ) (transaction : List UInt8) : Request :=
  Postcard.fromBytes Decode.hostProtocolMessage (transaction.take bufferSize)

/-- The encodings the protocol's tests fix. -/
example : fromBytes maxMsgSize [0, 0, 96] =
    some (.bluetooth (.disableChannels ⟨AdvChan.c37.bits ||| AdvChan.c38.bits⟩)) := by decide

example : fromBytes maxMsgSize [1, 8, 255, 255, 255, 255, 15, 255, 255, 255, 255, 15] =
    some (.bootloader (.ackWithIdxCrc 0xFFFFFFFF 0xFFFFFFFF)) := by decide

end PrimeBle.HostProtocol
