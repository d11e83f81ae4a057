import PrimeBle.HostProtocol.Decode
import PrimeBle.Library.PostcardEncoding

/-! # Encoding messages

The encoders serde derives for the message types. Every message whose text and
data have a length that a `usize` holds is decoded from its encoding, whatever
follows it (`HostProtocol.fromBytes_encode`).
-/

namespace PrimeBle.HostProtocol

open Postcard Postcard.Encode

namespace Encode

def advChan (chan : AdvChan) : List UInt8 := u8 chan.bits

def message (data : Message) : List UInt8 := bytes data.data

def deviceName (name : DeviceName) : List UInt8 := str name.text

def txPower : TxPower → List UInt8
  | .negative40dBm => variant 0
  | .negative20dBm => variant 1
  | .negative16dBm => variant 2
  | .negative12dBm => variant 3
  | .negative8dBm => variant 4
  | .negative4dBm => variant 5
  | .zerodBm => variant 6
  | .positive3dBm => variant 7
  | .positive4dBm => variant 8

def secretSaveResponse : SecretSaveResponse → List UInt8
  | .notAllowed => variant 0
  | .sealed => variant 1
  | .error => variant 2

def trustLevel : TrustLevel → List UInt8
  | .full => variant 0
  | .developer => variant 1

def state : State → List UInt8
  | .enabled => variant 0
  | .disabled => variant 1
  | .firmwareUpgrade => variant 2
  | .unknown => variant 3

def postcardError : PostcardError → List UInt8
  | .deser => variant 0
  | .overFull => variant 1

def sendDataResponse : SendDataResponse → List UInt8
  | .sent => variant 0
  | .bufferFull => variant 1

def connectionStatus : ConnectionStatus → List UInt8
  | .disabled => variant 0
  | .waitingForConnection => variant 1
  | .connected rssi => variant 2 ++ i8 rssi

def bluetoothStatus (status : BluetoothStatus) : List UInt8 :=
  connectionStatus status.connection ++ bool status.queueOverflow

def bluetooth : Bluetooth → List UInt8
  | .disableChannels chan => variant 0 ++ advChan chan
  | .ackDisableChannels => variant 1
  | .nackDisableChannels => variant 2
  | .enable => variant 3
  | .ackEnable => variant 4
  | .disable => variant 5
  | .ackDisable => variant 6
  | .getStatus => variant 7
  | .status status => variant 8 ++ bluetoothStatus status
  | .sendData data => variant 9 ++ message data
  | .sendDataResponse response => variant 10 ++ sendDataResponse response
  | .getReceivedData => variant 11
  | .receivedData data => variant 12 ++ message data
  | .noReceivedData => variant 13
  | .getFirmwareVersion => variant 14
  | .ackFirmwareVersion version => variant 15 ++ str version
  | .getBtAddress => variant 16
  | .ackBtAddress btAddress => variant 17 ++ array u8 btAddress
  | .setTxPower power => variant 18 ++ txPower power
  | .ackTxPower => variant 19
  | .getDeviceId => variant 20
  | .ackDeviceId deviceId => variant 21 ++ array u8 deviceId
  | .disconnect => variant 22
  | .ackDisconnect => variant 23
  | .setDeviceName name => variant 24 ++ deviceName name
  | .ackSetDeviceName => variant 25
  | .echo data => variant 26 ++ message data
  | .echoResponse data => variant 27 ++ message data

def bootloader : Bootloader → List UInt8
  | .eraseFirmware => variant 0
  | .ackEraseFirmware => variant 1
  | .nackEraseFirmwareRead => variant 2
  | .nackEraseFirmware => variant 3
  | .nackEraseFirmwareWrite => variant 4
  | .ackVerifyFirmware result hash => variant 5 ++ (bool result ++ array u8 hash)
  | .nackWithIdx blockIdx => variant 6 ++ usize blockIdx
  | .ackWithIdx blockIdx => variant 7 ++ usize blockIdx
  | .ackWithIdxCrc blockIdx crc => variant 8 ++ (usize blockIdx ++ u32 crc)
  | .writeFirmwareBlock blockIdx blockData =>
      variant 9 ++ (usize blockIdx ++ Encode.bytes blockData)
  | .firmwareOutOfBounds blockIdx => variant 10 ++ usize blockIdx
  | .noCosignHeader => variant 11
  | .firmwareVersion => variant 12
  | .ackFirmwareVersion version => variant 13 ++ str version
  | .bootloaderVersion => variant 14
  | .ackBootloaderVersion version => variant 15 ++ str version
  | .challengeSet secret => variant 16 ++ array u32 secret
  | .ackChallengeSet result => variant 17 ++ secretSaveResponse result
  | .bootFirmware trust => variant 18 ++ trustLevel trust

def hostProtocolMessage : HostProtocolMessage → List UInt8
  | .bluetooth msg => variant 0 ++ bluetooth msg
  | .bootloader msg => variant 1 ++ bootloader msg
  | .reset => variant 2
  | .getState => variant 3
  | .ackState current => variant 4 ++ state current
  | .challengeRequest nonce => variant 5 ++ u64 nonce
  | .challengeResult result => variant 6 ++ array u8 result
  | .postcardError error => variant 7 ++ postcardError error
  | .inappropriateMessage current => variant 8 ++ state current

end Encode

/-- Text and data have a length that a `usize` holds, as borrowed ones do. -/
def Bluetooth.Sized : Bluetooth → Prop
  | .ackFirmwareVersion version => version.utf8ByteSize < 2 ^ 32
  | _ => True

def Bootloader.Sized : Bootloader → Prop
  | .ackFirmwareVersion version | .ackBootloaderVersion version => version.utf8ByteSize < 2 ^ 32
  | .writeFirmwareBlock _ blockData => blockData.length < 2 ^ 32
  | _ => True

def HostProtocolMessage.Sized : HostProtocolMessage → Prop
  | .bluetooth msg => msg.Sized
  | .bootloader msg => msg.Sized
  | _ => True

/-- Text is no longer than a version string, and data no longer than a BLE
payload. -/
def Bluetooth.Short : Bluetooth → Prop
  | .ackFirmwareVersion version => version.utf8ByteSize ≤ 20
  | _ => True

def Bootloader.Short : Bootloader → Prop
  | .ackFirmwareVersion version | .ackBootloaderVersion version => version.utf8ByteSize ≤ 20
  | .writeFirmwareBlock _ blockData => blockData.length ≤ appMtu
  | _ => True

def HostProtocolMessage.Short : HostProtocolMessage → Prop
  | .bluetooth msg => msg.Short
  | .bootloader msg => msg.Short
  | _ => True

section Length

/-- No field is longer. -/
def fieldMax : ℕ := 10 + appMtu

/-- A variant takes at most five bytes besides its fields. -/
theorem length_case_le {index : UInt32} {most : ℕ} {fields : List UInt8}
    (bound : fields.length ≤ most) : (variant index ++ fields).length ≤ 5 + most := by
  rw [List.length_append]
  exact Nat.add_le_add (length_variant_le index) bound

theorem length_unit_le {index : UInt32} {most : ℕ} : (variant index).length ≤ 5 + most :=
  (length_variant_le index).trans (Nat.le_add_right 5 most)

theorem le_fieldMax {length : ℕ} (small : length ≤ 5 + appMtu) : length ≤ fieldMax :=
  small.trans (Nat.add_le_add_right (by decide) appMtu)

theorem length_variant_field (index : UInt32) : (variant index).length ≤ fieldMax :=
  (length_variant_le index).trans (by decide)

theorem length_u32_field (value : UInt32) : (u32 value).length ≤ fieldMax :=
  (length_u32_le value).trans (by decide)

theorem length_message_le (data : Message) : (Encode.message data).length ≤ fieldMax :=
  le_fieldMax ((length_bytes_le data.data).trans (Nat.add_le_add_left data.capacity 5))

theorem length_deviceName_le (name : DeviceName) :
    (Encode.deviceName name).length ≤ fieldMax := by
  have bound := length_str_le name.text
  have capacity := name.capacity
  unfold maxDeviceNameLen at capacity
  exact (bound.trans (Nat.add_le_add_left capacity 5)).trans (by decide)

theorem length_version_le {version : String} (short : version.utf8ByteSize ≤ 20) :
    (str version).length ≤ fieldMax :=
  ((length_str_le version).trans (Nat.add_le_add_left short 5)).trans (by decide)

theorem length_u8_le (value : UInt8) : (u8 value).length ≤ 1 := Nat.le_refl 1

/-- The bytes of an address, an identity or a hash. -/
theorem length_bytes_field {count : ℕ} (values : Vector UInt8 count) (few : count ≤ 32) :
    (array u8 values).length ≤ 32 := by
  have bound := length_array_le length_u8_le values
  rw [Nat.mul_one] at bound
  exact bound.trans few

theorem length_bytes_le_fieldMax {count : ℕ} (values : Vector UInt8 count) (few : count ≤ 32) :
    (array u8 values).length ≤ fieldMax :=
  (length_bytes_field values few).trans (by decide)

theorem length_bluetoothStatus_le (status : BluetoothStatus) :
    (Encode.bluetoothStatus status).length ≤ fieldMax := by
  have connection : (Encode.connectionStatus status.connection).length ≤ 5 + 1 := by
    cases status.connection with
    | connected rssi => exact length_case_le (Nat.le_refl 1)
    | _ => exact length_unit_le
  have overflow : (bool status.queueOverflow).length ≤ 1 := Nat.le_refl 1
  rw [Encode.bluetoothStatus, List.length_append]
  exact (Nat.add_le_add connection overflow).trans (by decide)

theorem length_bluetooth_le {msg : Bluetooth} (short : msg.Short) :
    (Encode.bluetooth msg).length ≤ 5 + fieldMax := by
  cases msg with
  | disableChannels chan =>
      exact length_case_le ((length_u8_le chan.bits).trans (by decide))
  | status status => exact length_case_le (length_bluetoothStatus_le status)
  | sendData data => exact length_case_le (length_message_le data)
  | sendDataResponse response =>
      cases response with
      | _ => exact length_case_le (length_variant_field _)
  | receivedData data => exact length_case_le (length_message_le data)
  | ackFirmwareVersion version => exact length_case_le (length_version_le short)
  | ackBtAddress btAddress =>
      exact length_case_le (length_bytes_le_fieldMax btAddress (by decide))
  | setTxPower power =>
      cases power with
      | _ => exact length_case_le (length_variant_field _)
  | ackDeviceId deviceId =>
      exact length_case_le (length_bytes_le_fieldMax deviceId (by decide))
  | setDeviceName name => exact length_case_le (length_deviceName_le name)
  | echo data => exact length_case_le (length_message_le data)
  | echoResponse data => exact length_case_le (length_message_le data)
  | _ => exact length_unit_le

theorem length_bootloader_le {msg : Bootloader} (short : msg.Short) :
    (Encode.bootloader msg).length ≤ 5 + fieldMax := by
  cases msg with
  | ackVerifyFirmware result hash =>
      apply length_case_le
      rw [List.length_append]
      have bytes := length_bytes_field hash (Nat.le_refl 32)
      exact (Nat.add_le_add (Nat.le_refl 1) bytes).trans (by decide)
  | nackWithIdx blockIdx => exact length_case_le (length_u32_field blockIdx)
  | ackWithIdx blockIdx => exact length_case_le (length_u32_field blockIdx)
  | ackWithIdxCrc blockIdx crc =>
      apply length_case_le
      rw [List.length_append]
      exact (Nat.add_le_add (length_u32_le blockIdx) (length_u32_le crc)).trans (by decide)
  | writeFirmwareBlock blockIdx blockData =>
      apply length_case_le
      rw [List.length_append]
      have data := (length_bytes_le blockData).trans (Nat.add_le_add_left short 5)
      exact (Nat.add_le_add (length_u32_le blockIdx) data).trans (by decide)
  | firmwareOutOfBounds blockIdx => exact length_case_le (length_u32_field blockIdx)
  | ackFirmwareVersion version => exact length_case_le (length_version_le short)
  | ackBootloaderVersion version => exact length_case_le (length_version_le short)
  | challengeSet secret =>
      exact length_case_le ((length_array_le length_u32_le secret).trans (by decide))
  | ackChallengeSet result =>
      cases result with
      | _ => exact length_case_le (length_variant_field _)
  | bootFirmware trust =>
      cases trust with
      | _ => exact length_case_le (length_variant_field _)
  | _ => exact length_unit_le

/-- A variant with one of the fields above also fits below another variant. -/
theorem length_field_case_le {index : UInt32} {fields : List UInt8}
    (bound : fields.length ≤ fieldMax) :
    (variant index ++ fields).length ≤ 5 + (5 + fieldMax) :=
  length_case_le (bound.trans (Nat.le_add_left _ _))

/-- **Sizes.** A message with a short text and a short payload fits a frame. -/
theorem length_hostProtocolMessage_le {msg : HostProtocolMessage} (short : msg.Short) :
    2 + (Encode.hostProtocolMessage msg).length ≤ maxMsgSize := by
  have room : (Encode.hostProtocolMessage msg).length ≤ 5 + (5 + fieldMax) := by
    cases msg with
    | bluetooth msg => exact length_case_le (length_bluetooth_le short)
    | bootloader msg => exact length_case_le (length_bootloader_le short)
    | ackState current =>
        cases current with
        | _ => exact length_field_case_le (length_variant_field _)
    | challengeRequest nonce =>
        exact length_field_case_le ((length_u64_le nonce).trans (by decide))
    | challengeResult result =>
        exact length_field_case_le (length_bytes_le_fieldMax result (Nat.le_refl 32))
    | postcardError error =>
        cases error with
        | _ => exact length_field_case_le (length_variant_field _)
    | inappropriateMessage current =>
        cases current with
        | _ => exact length_field_case_le (length_variant_field _)
    | _ => exact length_unit_le
  calc 2 + (Encode.hostProtocolMessage msg).length
    _ ≤ 2 + (5 + (5 + fieldMax)) := Nat.add_le_add_left room 2
    _ ≤ maxMsgSize := by decide

end Length

section RoundTrip

variable {α : Type}

/-- A variant with fields is read back if its fields are. -/
theorem reads_case {cases : ℕ → Decoder α} {index : UInt32} {fields : List UInt8} {value : α}
    (reads : Reads (cases index.toNat) fields value) :
    Reads (Postcard.variant >>= cases) (variant index ++ fields) value :=
  (reads_variant index).bind reads

/-- A variant without fields is read back. -/
theorem reads_unit {cases : ℕ → Decoder α} {index : UInt32} {value : α}
    (same : cases index.toNat = pure value) :
    Reads (Postcard.variant >>= cases) (variant index) value := by
  have empty : Reads (cases index.toNat) [] value := by
    rw [same]
    exact .pure value
  have read := reads_case empty
  rw [List.append_nil] at read
  exact read

theorem reads_advChan (chan : AdvChan) : Reads Decode.advChan (Encode.advChan chan) chan :=
  (reads_u8 chan.bits).map AdvChan.mk

theorem Message.sized (data : Message) : data.data.length < 2 ^ 32 :=
  Nat.lt_of_le_of_lt data.capacity (by decide)

theorem DeviceName.sized (name : DeviceName) : name.text.utf8ByteSize < 2 ^ 32 :=
  Nat.lt_of_le_of_lt name.capacity (by decide)

theorem reads_message (data : Message) :
    Reads Decode.message (Encode.message data) data := by
  have checked : Reads
      (if capacity : data.data.length ≤ appMtu then pure ⟨data.data, capacity⟩ else failure :
        Decoder Message) [] data := by
    rw [dif_pos data.capacity]
    exact .pure data
  have both : Reads Decode.message (Encode.message data ++ []) data :=
    (reads_bytes data.sized).bind checked
  rw [List.append_nil] at both
  exact both

theorem reads_deviceName (name : DeviceName) :
    Reads Decode.deviceName (Encode.deviceName name) name := by
  have checked : Reads
      (if capacity : name.text.utf8ByteSize ≤ maxDeviceNameLen then pure ⟨name.text, capacity⟩
        else failure : Decoder DeviceName) [] name := by
    rw [dif_pos name.capacity]
    exact .pure name
  have both : Reads Decode.deviceName (Encode.deviceName name ++ []) name :=
    (reads_str name.sized).bind checked
  rw [List.append_nil] at both
  exact both

theorem reads_txPower (power : TxPower) :
    Reads Decode.txPower (Encode.txPower power) power := by
  cases power with
  | _ => exact reads_unit rfl

theorem reads_secretSaveResponse (response : SecretSaveResponse) :
    Reads Decode.secretSaveResponse (Encode.secretSaveResponse response) response := by
  cases response with
  | _ => exact reads_unit rfl

theorem reads_trustLevel (trust : TrustLevel) :
    Reads Decode.trustLevel (Encode.trustLevel trust) trust := by
  cases trust with
  | _ => exact reads_unit rfl

theorem reads_state (current : State) :
    Reads Decode.state (Encode.state current) current := by
  cases current with
  | _ => exact reads_unit rfl

theorem reads_postcardError (error : PostcardError) :
    Reads Decode.postcardError (Encode.postcardError error) error := by
  cases error with
  | _ => exact reads_unit rfl

theorem reads_sendDataResponse (response : SendDataResponse) :
    Reads Decode.sendDataResponse (Encode.sendDataResponse response) response := by
  cases response with
  | _ => exact reads_unit rfl

theorem reads_connectionStatus (status : ConnectionStatus) :
    Reads Decode.connectionStatus (Encode.connectionStatus status) status := by
  cases status with
  | connected rssi => exact reads_case ((reads_i8 rssi).map ConnectionStatus.connected)
  | _ => exact reads_unit rfl

theorem reads_bluetoothStatus (status : BluetoothStatus) :
    Reads Decode.bluetoothStatus (Encode.bluetoothStatus status) status :=
  (reads_connectionStatus status.connection).bind
    ((reads_bool status.queueOverflow).map (BluetoothStatus.mk status.connection))

theorem reads_bluetooth {msg : Bluetooth} (sized : msg.Sized) :
    Reads Decode.bluetooth (Encode.bluetooth msg) msg := by
  cases msg with
  | disableChannels chan =>
      exact reads_case ((reads_advChan chan).map Bluetooth.disableChannels)
  | status status =>
      exact reads_case ((reads_bluetoothStatus status).map Bluetooth.status)
  | sendData data => exact reads_case ((reads_message data).map Bluetooth.sendData)
  | sendDataResponse response =>
      apply reads_case
      exact (reads_sendDataResponse response).map Bluetooth.sendDataResponse
  | receivedData data =>
      exact reads_case ((reads_message data).map Bluetooth.receivedData)
  | ackFirmwareVersion version =>
      exact reads_case ((reads_str sized).map Bluetooth.ackFirmwareVersion)
  | ackBtAddress btAddress =>
      exact reads_case ((reads_array reads_u8 btAddress).map Bluetooth.ackBtAddress)
  | setTxPower power =>
      exact reads_case ((reads_txPower power).map Bluetooth.setTxPower)
  | ackDeviceId deviceId =>
      exact reads_case ((reads_array reads_u8 deviceId).map Bluetooth.ackDeviceId)
  | setDeviceName name =>
      exact reads_case ((reads_deviceName name).map Bluetooth.setDeviceName)
  | echo data => exact reads_case ((reads_message data).map Bluetooth.echo)
  | echoResponse data =>
      exact reads_case ((reads_message data).map Bluetooth.echoResponse)
  | _ => exact reads_unit rfl

theorem reads_bootloader {msg : Bootloader} (sized : msg.Sized) :
    Reads Decode.bootloader (Encode.bootloader msg) msg := by
  cases msg with
  | ackVerifyFirmware result hash =>
      apply reads_case
      exact (reads_bool result).bind
        ((reads_array reads_u8 hash).map (Bootloader.ackVerifyFirmware result))
  | nackWithIdx blockIdx =>
      exact reads_case ((reads_usize blockIdx).map Bootloader.nackWithIdx)
  | ackWithIdx blockIdx =>
      exact reads_case ((reads_usize blockIdx).map Bootloader.ackWithIdx)
  | ackWithIdxCrc blockIdx crc =>
      apply reads_case
      exact (reads_usize blockIdx).bind ((reads_u32 crc).map (Bootloader.ackWithIdxCrc blockIdx))
  | writeFirmwareBlock blockIdx blockData =>
      apply reads_case
      exact (reads_usize blockIdx).bind
        ((reads_bytes sized).map (Bootloader.writeFirmwareBlock blockIdx))
  | firmwareOutOfBounds blockIdx =>
      exact reads_case ((reads_usize blockIdx).map Bootloader.firmwareOutOfBounds)
  | ackFirmwareVersion version =>
      exact reads_case ((reads_str sized).map Bootloader.ackFirmwareVersion)
  | ackBootloaderVersion version =>
      exact reads_case ((reads_str sized).map Bootloader.ackBootloaderVersion)
  | challengeSet secret =>
      exact reads_case ((reads_array reads_u32 secret).map Bootloader.challengeSet)
  | ackChallengeSet result =>
      apply reads_case
      exact (reads_secretSaveResponse result).map Bootloader.ackChallengeSet
  | bootFirmware trust =>
      exact reads_case ((reads_trustLevel trust).map Bootloader.bootFirmware)
  | _ => exact reads_unit rfl

theorem reads_hostProtocolMessage {msg : HostProtocolMessage} (sized : msg.Sized) :
    Reads Decode.hostProtocolMessage (Encode.hostProtocolMessage msg) msg := by
  cases msg with
  | bluetooth msg =>
      exact reads_case ((reads_bluetooth sized).map HostProtocolMessage.bluetooth)
  | bootloader msg =>
      exact reads_case ((reads_bootloader sized).map HostProtocolMessage.bootloader)
  | ackState current =>
      exact reads_case ((reads_state current).map HostProtocolMessage.ackState)
  | challengeRequest nonce =>
      exact reads_case ((reads_u64 nonce).map HostProtocolMessage.challengeRequest)
  | challengeResult result =>
      apply reads_case
      exact (reads_array reads_u8 result).map HostProtocolMessage.challengeResult
  | postcardError error =>
      apply reads_case
      exact (reads_postcardError error).map HostProtocolMessage.postcardError
  | inappropriateMessage current =>
      apply reads_case
      exact (reads_state current).map HostProtocolMessage.inappropriateMessage
  | _ => exact reads_unit rfl

end RoundTrip

theorem encode_ne_nil (msg : HostProtocolMessage) : Encode.hostProtocolMessage msg ≠ [] := by
  have variant : ∀ index fields, Encode.variant index ++ fields ≠ [] := fun index fields empty =>
    variant_ne_nil index (List.append_eq_nil_iff.mp empty).1
  cases msg with
  | reset => exact variant_ne_nil _
  | getState => exact variant_ne_nil _
  | _ => exact variant _ _

/-- **Round trip.** A message is decoded from a transaction that starts with its
encoding, if the receive buffer has room for the encoding. -/
theorem fromBytes_encode {msg : HostProtocolMessage} (sized : msg.Sized) {bufferSize : ℕ}
    (room : (Encode.hostProtocolMessage msg).length ≤ bufferSize) (padding : List UInt8) :
    fromBytes bufferSize (Encode.hostProtocolMessage msg ++ padding) = some msg := by
  unfold fromBytes
  rw [List.take_append, List.take_of_length_le room]
  exact (reads_hostProtocolMessage sized).shows _

end PrimeBle.HostProtocol
