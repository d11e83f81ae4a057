import PrimeBle.Consts

/-! # Messages between the host and the BLE controller

The message types of the `host-protocol` crate. Bounded strings and vectors
carry their bound, so a value over its capacity cannot be built; borrowed text
and data are owned here.
-/

namespace PrimeBle.HostProtocol

/-- Maximum supported message size to be serialized or deserialized by
`postcard`. -/
def maxMsgSize : ℕ := 270

/-- The maximum length of the full device name. -/
def maxDeviceNameLen : ℕ := 31

/-- A set of advertising channels. Bits without a name are kept. -/
structure AdvChan where
  bits : UInt8
  deriving DecidableEq, Repr

namespace AdvChan

def c39 : AdvChan := ⟨(1 : UInt8) <<< 7⟩

def c38 : AdvChan := ⟨(1 : UInt8) <<< 6⟩

def c37 : AdvChan := ⟨(1 : UInt8) <<< 5⟩

/-- Every named channel. -/
def all : AdvChan := ⟨c39.bits ||| c38.bits ||| c37.bits⟩

/-- Every channel of `other` is in the set. -/
def contains (chan other : AdvChan) : Bool := chan.bits &&& other.bits == other.bits

end AdvChan

/-- A BLE payload. -/
structure Message where
  data : List UInt8
  capacity : data.length ≤ appMtu
  deriving DecidableEq, Repr

/-- A device name, bounded in UTF-8 bytes. -/
structure DeviceName where
  text : String
  capacity : text.utf8ByteSize ≤ maxDeviceNameLen
  deriving DecidableEq, Repr

inductive TxPower where
  | negative40dBm
  | negative20dBm
  | negative16dBm
  | negative12dBm
  | negative8dBm
  | negative4dBm
  | zerodBm
  | positive3dBm
  | positive4dBm
  deriving DecidableEq, Repr

/-- The transmit power in dBm. -/
def TxPower.toInt8 : TxPower → Int8
  | .negative40dBm => -40
  | .negative20dBm => -20
  | .negative16dBm => -16
  | .negative12dBm => -12
  | .negative8dBm => -8
  | .negative4dBm => -4
  | .zerodBm => 0
  | .positive3dBm => 3
  | .positive4dBm => 4

/-- Response codes for challenge secret saving operations. -/
inductive SecretSaveResponse where
  | notAllowed
  | sealed
  | error
  deriving DecidableEq, Repr

/-- Firmware trust levels. -/
inductive TrustLevel where
  | full
  | developer
  deriving DecidableEq, Repr

/-- Current operational state of the BLE controller. -/
inductive State where
  | enabled
  | disabled
  | firmwareUpgrade
  | unknown
  deriving DecidableEq, Repr

/-- Errors that can occur during postcard serialization or deserialization. -/
inductive PostcardError where
  | deser
  | overFull
  deriving DecidableEq, Repr

/-- Response codes for sending data over BLE connection. -/
inductive SendDataResponse where
  | sent
  | bufferFull
  deriving DecidableEq, Repr

inductive ConnectionStatus where
  | disabled
  | waitingForConnection
  | connected (rssi : Int8)
  deriving DecidableEq, Repr

/-- Bluetooth stack status variables. -/
structure BluetoothStatus where
  connection : ConnectionStatus
  queueOverflow : Bool
  deriving DecidableEq, Repr

/-- Bluetooth-specific messages for controlling the BLE radio and data
transfer. -/
inductive Bluetooth where
  | disableChannels (chan : AdvChan)
  | ackDisableChannels
  | nackDisableChannels
  | enable
  | ackEnable
  | disable
  | ackDisable
  | getStatus
  | status (status : BluetoothStatus)
  | sendData (data : Message)
  | sendDataResponse (response : SendDataResponse)
  | getReceivedData
  | receivedData (data : Message)
  | noReceivedData
  | getFirmwareVersion
  | ackFirmwareVersion (version : String)
  | getBtAddress
  | ackBtAddress (btAddress : Vector UInt8 6)
  | setTxPower (power : TxPower)
  | ackTxPower
  | getDeviceId
  | ackDeviceId (deviceId : Vector UInt8 8)
  | disconnect
  | ackDisconnect
  | setDeviceName (name : DeviceName)
  | ackSetDeviceName
  | echo (data : Message)
  | echoResponse (data : Message)
  deriving DecidableEq, Repr

/-- Bootloader-specific messages for firmware updates and verification. -/
inductive Bootloader where
  | eraseFirmware
  | ackEraseFirmware
  | nackEraseFirmwareRead
  | nackEraseFirmware
  | nackEraseFirmwareWrite
  | ackVerifyFirmware (result : Bool) (hash : Vector UInt8 32)
  | nackWithIdx (blockIdx : UInt32)
  | ackWithIdx (blockIdx : UInt32)
  | ackWithIdxCrc (blockIdx crc : UInt32)
  | writeFirmwareBlock (blockIdx : UInt32) (blockData : List UInt8)
  | firmwareOutOfBounds (blockIdx : UInt32)
  | noCosignHeader
  | firmwareVersion
  | ackFirmwareVersion (version : String)
  | bootloaderVersion
  | ackBootloaderVersion (version : String)
  | challengeSet (secret : Vector UInt32 8)
  | ackChallengeSet (result : SecretSaveResponse)
  | bootFirmware (trust : TrustLevel)
  deriving DecidableEq, Repr

/-- Top-level message types for host-target communication. -/
inductive HostProtocolMessage where
  | bluetooth (msg : Bluetooth)
  | bootloader (msg : Bootloader)
  | reset
  | getState
  | ackState (state : State)
  | challengeRequest (nonce : UInt64)
  | challengeResult (result : Vector UInt8 32)
  | postcardError (error : PostcardError)
  | inappropriateMessage (state : State)
  deriving DecidableEq, Repr

/-- Messages that the host sends. -/
def Bluetooth.isRequest : Bluetooth → Bool
  | .disableChannels _ | .enable | .disable | .getStatus | .sendData _ | .getReceivedData
  | .getFirmwareVersion | .getBtAddress | .setTxPower _ | .getDeviceId | .disconnect
  | .setDeviceName _ | .echo _ => true
  | .ackDisableChannels | .nackDisableChannels | .ackEnable | .ackDisable | .status _
  | .sendDataResponse _ | .receivedData _ | .noReceivedData | .ackFirmwareVersion _
  | .ackBtAddress _ | .ackTxPower | .ackDeviceId _ | .ackDisconnect | .ackSetDeviceName
  | .echoResponse _ => false

def Bootloader.isRequest : Bootloader → Bool
  | .eraseFirmware | .writeFirmwareBlock _ _ | .firmwareVersion | .bootloaderVersion
  | .challengeSet _ | .bootFirmware _ => true
  | .ackEraseFirmware | .nackEraseFirmwareRead | .nackEraseFirmware | .nackEraseFirmwareWrite
  | .ackVerifyFirmware _ _ | .nackWithIdx _ | .ackWithIdx _ | .ackWithIdxCrc _ _
  | .firmwareOutOfBounds _ | .noCosignHeader | .ackFirmwareVersion _ | .ackBootloaderVersion _
  | .ackChallengeSet _ => false

def HostProtocolMessage.isRequest : HostProtocolMessage → Bool
  | .bluetooth sub => sub.isRequest
  | .bootloader sub => sub.isRequest
  | .reset | .getState | .challengeRequest _ => true
  | .ackState _ | .challengeResult _ | .postcardError _ | .inappropriateMessage _ => false

end PrimeBle.HostProtocol
