import PrimeBle.Analyzer.Decode
import PrimeBle.HostProtocol.Encode

/-! # The analyzer agrees with the messages

What should be shown of a message is said in terms of the message
(`Analyzer.describe`). The tables and readers of the analyzer follow the encoding,
variant by variant and field by field, so that is what they show of every message
(`Analyzer.shows_message`).
-/

namespace PrimeBle.Analyzer

open HostProtocol Postcard

section Descriptions

def describeTxPower : TxPower → String
  | .negative40dBm => "-40dBm"
  | .negative20dBm => "-20dBm"
  | .negative16dBm => "-16dBm"
  | .negative12dBm => "-12dBm"
  | .negative8dBm => "-8dBm"
  | .negative4dBm => "-4dBm"
  | .zerodBm => "0dBm"
  | .positive3dBm => "+3dBm"
  | .positive4dBm => "+4dBm"

def describeState : HostProtocol.State → String
  | .enabled => "Enabled"
  | .disabled => "Disabled"
  | .firmwareUpgrade => "FirmwareUpgrade"
  | .unknown => "Unknown"

def describeSendDataResponse : SendDataResponse → String
  | .sent => "Sent"
  | .bufferFull => "BufferFull"

def describeSecretSaveResponse : SecretSaveResponse → String
  | .notAllowed => "NotAllowed"
  | .sealed => "Sealed"
  | .error => "Error"

def describeTrustLevel : TrustLevel → String
  | .full => "Full"
  | .developer => "Developer"

def describePostcardError : PostcardError → String
  | .deser => "Deser"
  | .overFull => "OverFull"

/-- The named channels of a set, or its bits if it has none. -/
def describeAdvChan (chan : AdvChan) : String :=
  let named := [(AdvChan.c37, "C37"), (AdvChan.c38, "C38"), (AdvChan.c39, "C39")]
  let parts := named.filterMap fun (flag, name) => if chan.contains flag then some name else none
  if parts.isEmpty then "0x" ++ upperHex 2 chan.bits.toNat else String.intercalate " | " parts

def describeOverflow (queueOverflow : Bool) : String := if queueOverflow then ", overflow" else ""

def describeStatus (status : BluetoothStatus) : String :=
  match status.connection with
  | .disabled => "BT::Status(" ++ "Disabled" ++ describeOverflow status.queueOverflow ++ ")"
  | .waitingForConnection =>
      "BT::Status(" ++ "WaitingForConnection" ++ describeOverflow status.queueOverflow ++ ")"
  | .connected rssi =>
      "BT::Status(Connected, rssi=" ++ toString rssi.toInt ++
        describeOverflow status.queueOverflow ++ ")"

def describeBluetooth : Bluetooth → String
  | .disableChannels chan => "BT::DisableChannels(" ++ describeAdvChan chan ++ ")"
  | .ackDisableChannels => "BT::AckDisableChannels"
  | .nackDisableChannels => "BT::NackDisableChannels"
  | .enable => "BT::Enable"
  | .ackEnable => "BT::AckEnable"
  | .disable => "BT::Disable"
  | .ackDisable => "BT::AckDisable"
  | .getStatus => "BT::GetStatus"
  | .status status => describeStatus status
  | .sendData data => "BT::SendData(" ++ toString data.data.length ++ "B)"
  | .sendDataResponse response =>
      "BT::SendDataResponse(" ++ describeSendDataResponse response ++ ")"
  | .getReceivedData => "BT::GetReceivedData"
  | .receivedData data => "BT::ReceivedData(" ++ toString data.data.length ++ "B)"
  | .noReceivedData => "BT::NoReceivedData"
  | .getFirmwareVersion => "BT::GetFirmwareVersion"
  | .ackFirmwareVersion version => "BT::AckFirmwareVersion(" ++ version ++ ")"
  | .getBtAddress => "BT::GetBtAddress"
  | .ackBtAddress btAddress => "BT::AckBtAddress(" ++ fmtAddress btAddress.toList ++ ")"
  | .setTxPower power => "BT::SetTxPower(" ++ describeTxPower power ++ ")"
  | .ackTxPower => "BT::AckTxPower"
  | .getDeviceId => "BT::GetDeviceId"
  | .ackDeviceId deviceId => "BT::AckDeviceId(" ++ hex deviceId.toList ++ ")"
  | .disconnect => "BT::Disconnect"
  | .ackDisconnect => "BT::AckDisconnect"
  | .setDeviceName name => "BT::SetDeviceName(" ++ name.text ++ ")"
  | .ackSetDeviceName => "BT::AckSetDeviceName"
  | .echo data => "BT::Echo(" ++ toString data.data.length ++ "B)"
  | .echoResponse data => "BT::EchoResponse(" ++ toString data.data.length ++ "B)"

def describeBootloader : Bootloader → String
  | .eraseFirmware => "BL::EraseFirmware"
  | .ackEraseFirmware => "BL::AckEraseFirmware"
  | .nackEraseFirmwareRead => "BL::NackEraseFirmwareRead"
  | .nackEraseFirmware => "BL::NackEraseFirmware"
  | .nackEraseFirmwareWrite => "BL::NackEraseFirmwareWrite"
  | .ackVerifyFirmware result hash =>
      "BL::AckVerifyFirmware(ok=" ++ truth result ++ ", hash=" ++ hex (hash.toList.take 4) ++
        "...)"
  | .nackWithIdx blockIdx => "BL::NackWithIdx(" ++ toString blockIdx.toNat ++ ")"
  | .ackWithIdx blockIdx => "BL::AckWithIdx(" ++ toString blockIdx.toNat ++ ")"
  | .ackWithIdxCrc blockIdx crc =>
      "BL::AckWithIdxCrc(idx=" ++ toString blockIdx.toNat ++ ", crc=0x" ++
        upperHex 8 crc.toNat ++ ")"
  | .writeFirmwareBlock blockIdx blockData =>
      "BL::WriteFirmwareBlock(idx=" ++ toString blockIdx.toNat ++ ", " ++
        toString blockData.length ++ "B)"
  | .firmwareOutOfBounds blockIdx => "BL::FirmwareOutOfBounds(" ++ toString blockIdx.toNat ++ ")"
  | .noCosignHeader => "BL::NoCosignHeader"
  | .firmwareVersion => "BL::FirmwareVersion"
  | .ackFirmwareVersion version => "BL::AckFirmwareVersion(" ++ version ++ ")"
  | .bootloaderVersion => "BL::BootloaderVersion"
  | .ackBootloaderVersion version => "BL::AckBootloaderVersion(" ++ version ++ ")"
  | .challengeSet _ => "BL::ChallengeSet"
  | .ackChallengeSet result =>
      "BL::AckChallengeSet(" ++ describeSecretSaveResponse result ++ ")"
  | .bootFirmware trust => "BL::BootFirmware(" ++ describeTrustLevel trust ++ ")"

/-- The name of a message's variant and what is shown of its fields. -/
def describe : HostProtocolMessage → String
  | .bluetooth msg => describeBluetooth msg
  | .bootloader msg => describeBootloader msg
  | .reset => "Reset"
  | .getState => "GetState"
  | .ackState current => "AckState(" ++ describeState current ++ ")"
  | .challengeRequest nonce => "ChallengeRequest(nonce=0x" ++ upperHex 1 nonce.toNat ++ ")"
  | .challengeResult _ => "ChallengeResult"
  | .postcardError error => "PostcardError(" ++ describePostcardError error ++ ")"
  | .inappropriateMessage current => "InappropriateMessage(" ++ describeState current ++ ")"

end Descriptions

section Readers

/-- The two halves of a varint's byte. -/
theorem byte_masks (byte : UInt8) :
    byte.toNat &&& 0x7F = byte.toNat % 128 ∧ (byte.toNat &&& 0x80 = 0 ↔ byte.toNat < 128) := by
  have masks : ∀ value : Fin 256, value.val &&& 0x7F = value.val % 128 ∧
      (value.val &&& 0x80 = 0 ↔ value.val < 128) := by decide +kernel
  exact masks ⟨byte.toNat, byte.toNat_lt⟩

/-- Groups of bits that do not overlap are added. -/
theorem or_shiftLeft {result shift : ℕ} (below : result < 2 ^ shift) (value : ℕ) :
    result ||| value <<< shift = result + value * 2 ^ shift := by
  rw [Nat.or_comm, ← Nat.shiftLeft_add_eq_or_of_lt below, Nat.shiftLeft_eq, Nat.add_comm]

/-- The last byte of a varint ends it. -/
theorem readVarintFrom_last {result shift : ℕ} {byte : UInt8} (below : result < 2 ^ shift)
    (last : byte.toNat < 128) (data : List UInt8) :
    readVarintFrom result shift (byte :: data) =
      some (result + byte.toNat * 2 ^ shift, data) := by
  obtain ⟨low, high⟩ := byte_masks byte
  rw [readVarintFrom, if_pos (high.mpr last), low, Nat.mod_eq_of_lt last, or_shiftLeft below]

/-- A byte with its upper bit set adds a group, and the varint goes on. -/
theorem readVarintFrom_more {result shift : ℕ} {byte : UInt8} (below : result < 2 ^ shift)
    (more : 128 ≤ byte.toNat) (room : shift + 7 < 70) (data : List UInt8) :
    readVarintFrom result shift (byte :: data) =
      readVarintFrom (result + byte.toNat % 128 * 2 ^ shift) (shift + 7) data := by
  obtain ⟨low, high⟩ := byte_masks byte
  have goesOn : ¬ byte.toNat &&& 0x80 = 0 :=
    fun last => absurd (high.mp last) (Nat.not_lt.mpr more)
  rw [readVarintFrom, if_neg goesOn, if_neg (Nat.not_le.mpr room), low, or_shiftLeft below]

/-- **Varints.** The analyzer reads every varint of up to ten bytes. -/
theorem reads_readVarintFrom (remaining groups result value : ℕ) (room : groups + remaining < 10)
    (below : result < 2 ^ (7 * groups)) (fits : value < 2 ^ (7 * (remaining + 1))) :
    Reads (readVarintFrom result (7 * groups)) (varintOf (remaining + 1) value)
      (result + value * 2 ^ (7 * groups)) := by
  induction remaining generalizing groups result value with
  | zero =>
      intro rest
      have small : value < 128 := fits
      have byte := toNat_lastByte small
      rw [varintOf_last small, List.singleton_append, readVarintFrom_last below (by omega), byte]
  | succ remaining ih =>
      intro rest
      by_cases small : value < 128
      · have byte := toNat_lastByte small
        rw [varintOf_last small, List.singleton_append, readVarintFrom_last below (by omega), byte]
      · have byte := toNat_moreByte value
        have shift : 7 * groups + 7 = 7 * (groups + 1) := by ring
        have power : 2 ^ (7 * (groups + 1)) = 2 ^ (7 * groups) * 128 := by
          rw [← shift, Nat.pow_add]
        have fewer : value / 128 < 2 ^ (7 * (remaining + 1)) := div_lt_of_fits fits
        have next : result + value % 128 * 2 ^ (7 * groups) < 2 ^ (7 * (groups + 1)) := by
          have low : value % 128 ≤ 127 := Nat.le_of_lt_succ (Nat.mod_lt value (by decide))
          have high := Nat.mul_le_mul_right (2 ^ (7 * groups)) low
          rw [power]
          omega
        have later := ih (groups + 1) (result + value % 128 * 2 ^ (7 * groups)) (value / 128)
          (by omega) next fewer rest
        have low : (value % 128 + 128) % 128 = value % 128 := by omega
        rw [varintOf_more small, List.cons_append, readVarintFrom_more below (by omega) (by omega),
          byte, low, shift, later, power, Nat.add_assoc, groups_add]

/-- The varint of a 64-bit number is read. -/
theorem reads_varint64 (value : UInt64) : Reads readVarint (Encode.u64 value) value.toNat := by
  have read := reads_readVarintFrom 9 0 0 value.toNat (by decide) (by decide)
    (value.toNat_lt.trans (by decide))
  simp only [Nat.mul_zero, Nat.pow_zero, Nat.mul_one, Nat.zero_add] at read
  exact read

/-- So is that of a 32-bit number. -/
theorem reads_varintU32 (value : UInt32) : Reads readVarint (Encode.u32 value) value.toNat := by
  have read := reads_readVarintFrom 4 0 0 value.toNat (by decide) (by decide)
    (value.toNat_lt.trans (by decide))
  simp only [Nat.mul_zero, Nat.pow_zero, Nat.mul_one, Nat.zero_add] at read
  exact read

/-- A length is read as the number that it is. -/
theorem reads_length {length : ℕ} (sized : length < 2 ^ 32) :
    Reads readVarint (Encode.usize (UInt32.ofNat length)) length := by
  have read := reads_varintU32 (UInt32.ofNat length)
  rw [UInt32.toNat_ofNat_of_lt' sized] at read
  exact read

/-- A byte is read as it is. -/
theorem reads_readU8 (value : UInt8) : Reads readU8 (Encode.u8 value) value := fun _ => rfl

/-- Truth values are read. -/
theorem reads_readBool (value : Bool) : Reads readBool (Encode.bool value) value := by
  intro rest
  cases value with
  | false => rfl
  | true => rfl

/-- A byte in two's complement. -/
theorem reads_readI8 (value : Int8) : Reads readI8 (Encode.i8 value) value.toInt := by
  have signed : (if value.toUInt8.toNat ≥ 128 then (value.toUInt8.toNat : ℤ) - 256
      else value.toUInt8.toNat) = value.toInt := by
    have cond := BitVec.toInt_eq_toNat_cond value.toBitVec
    change value.toInt = _ at cond
    have nat : value.toUInt8.toNat = value.toBitVec.toNat := rfl
    rw [cond, nat]
    split <;> split <;> omega
  intro rest
  change some ((if value.toUInt8.toNat ≥ 128 then (value.toUInt8.toNat : ℤ) - 256
      else value.toUInt8.toNat), rest) = _
  rw [signed]

/-- So many bytes are taken as they are. -/
theorem reads_readBytes {n : ℕ} {data : List UInt8} (length : data.length = n) :
    Reads (readBytes n) data data := by
  subst length
  intro rest
  have enough : ¬ data.length > (data ++ rest).length := by
    rw [List.length_append]
    omega
  rw [readBytes, if_neg enough, List.take_left, List.drop_left]

/-- An array of bytes has no length in front. -/
theorem reads_byteArray {count : ℕ} (values : Vector UInt8 count) :
    Reads (readBytes count) (Encode.array Encode.u8 values) values.toList := by
  have bytes : Encode.array Encode.u8 values = values.toList := List.flatMap_singleton' _
  rw [bytes]
  exact reads_readBytes values.length_toList

/-- Text is read back from its UTF-8 bytes. -/
theorem reads_readString {text : String} (sized : text.utf8ByteSize < 2 ^ 32) :
    Reads readString (Encode.str text) text := by
  have length : text.toUTF8.data.toList.length = text.utf8ByteSize := rfl
  have decoded : decodeUtf8 text.toUTF8.data.toList = text := by
    rw [decodeUtf8, fromUTF8_bytes]
  have read := (reads_readBytes length).map decodeUtf8
  rw [decoded] at read
  exact (reads_length sized).bind read

/-- The overflow flag is read as its remark. -/
theorem reads_readOverflow (value : Bool) :
    Reads readOverflow (Encode.bool value) (describeOverflow value) := by
  intro rest
  cases value with
  | false => rfl
  | true => rfl

/-- An array of numbers is read one by one. -/
theorem reads_readVarints {count : ℕ} (values : Vector UInt32 count) :
    Reads (readVarints count) (Encode.array Encode.u32 values)
      (values.toList.map UInt32.toNat) := by
  induction count with
  | zero =>
      obtain rfl : values = #v[] := Vector.eq_empty
      exact .pure _
  | succ count ih =>
      obtain ⟨front, last, rfl⟩ := exists_push values
      rw [Encode.array_push, Vector.toList_push, List.map_append]
      apply (ih front).bind
      exact (reads_varintU32 last).map fun val => front.toList.map UInt32.toNat ++ [val]

end Readers

section Fields

variable (before after : String)

/-- The bytes are the number of a name in a table. -/
def Named (table : ℕ → Option String) (bytes : List UInt8) (name : String) : Prop :=
  ∃ index, bytes = Encode.variant index ∧ nameOr table index.toNat = name

/-- A field that is named in a table is shown by its name. -/
theorem Named.shows {table : ℕ → Option String} {bytes : List UInt8} {name : String}
    (named : Named table bytes name) :
    Shows (do pure (before ++ nameOr table (← readVarint) ++ after)) bytes
      (before ++ name ++ after) := by
  obtain ⟨index, rfl, rfl⟩ := named
  exact ((reads_varintU32 index).map fun index => before ++ nameOr table index ++ after).shows

/-- The table of powers has every power, in the order of the encoding. -/
theorem named_txPower (power : TxPower) :
    Named txPower (Encode.txPower power) (describeTxPower power) := by
  cases power with
  | _ => exact ⟨_, rfl, rfl⟩

/-- The table of states has every state. -/
theorem named_state (current : HostProtocol.State) :
    Named state (Encode.state current) (describeState current) := by
  cases current with
  | _ => exact ⟨_, rfl, rfl⟩

/-- The table of answers to sent data is complete. -/
theorem named_sendDataResponse (response : SendDataResponse) :
    Named sendDataResponse (Encode.sendDataResponse response)
      (describeSendDataResponse response) := by
  cases response with
  | _ => exact ⟨_, rfl, rfl⟩

/-- The table of answers to a secret is complete. -/
theorem named_secretSaveResponse (response : SecretSaveResponse) :
    Named secretSaveResponse (Encode.secretSaveResponse response)
      (describeSecretSaveResponse response) := by
  cases response with
  | _ => exact ⟨_, rfl, rfl⟩

/-- The table of trust levels is complete. -/
theorem named_trustLevel (trust : TrustLevel) :
    Named trustLevel (Encode.trustLevel trust) (describeTrustLevel trust) := by
  cases trust with
  | _ => exact ⟨_, rfl, rfl⟩

/-- The table of errors is complete. -/
theorem named_postcardError (error : PostcardError) :
    Named postcardError (Encode.postcardError error) (describePostcardError error) := by
  cases error with
  | _ => exact ⟨_, rfl, rfl⟩

/-- Of a vector, the length is shown. -/
theorem shows_vecLen {data : List UInt8} (sized : data.length < 2 ^ 32) :
    Shows (do pure (before ++ toString (← readVecLen) ++ after)) (Encode.bytes data)
      (before ++ toString data.length ++ after) :=
  ((reads_length sized).map fun length => before ++ toString length ++ after).shows.append data

/-- Text is shown as it is. -/
theorem shows_string {text : String} (sized : text.utf8ByteSize < 2 ^ 32) :
    Shows (do pure (before ++ (← readString) ++ after)) (Encode.str text)
      (before ++ text ++ after) :=
  ((reads_readString sized).map fun text => before ++ text ++ after).shows

/-- A number is shown in its format. -/
theorem shows_u32 (format : ℕ → String) (value : UInt32) :
    Shows (do pure (before ++ format (← readVarint) ++ after)) (Encode.u32 value)
      (before ++ format value.toNat ++ after) :=
  ((reads_varintU32 value).map fun number => before ++ format number ++ after).shows

/-- So is a longer one. -/
theorem shows_u64 (format : ℕ → String) (value : UInt64) :
    Shows (do pure (before ++ format (← readVarint) ++ after)) (Encode.u64 value)
      (before ++ format value.toNat ++ after) :=
  ((reads_varint64 value).map fun number => before ++ format number ++ after).shows

/-- So are the bytes of an array. -/
theorem shows_bytes (format : List UInt8 → String) {count : ℕ} (values : Vector UInt8 count) :
    Shows (do pure (before ++ format (← readBytes count) ++ after))
      (Encode.array Encode.u8 values) (before ++ format values.toList ++ after) :=
  ((reads_byteArray values).map fun data => before ++ format data ++ after).shows

/-- The analyzer knows the bits of the named channels. -/
theorem fmtAdvChan_eq (chan : AdvChan) : fmtAdvChan chan.bits = describeAdvChan chan := by
  have bits : ∀ value : Fin 256,
      (value.val &&& 1 <<< 5 ≠ 0 ↔ AdvChan.contains ⟨.ofFin value⟩ .c37) ∧
      (value.val &&& 1 <<< 6 ≠ 0 ↔ AdvChan.contains ⟨.ofFin value⟩ .c38) ∧
      (value.val &&& 1 <<< 7 ≠ 0 ↔ AdvChan.contains ⟨.ofFin value⟩ .c39) := by decide +kernel
  obtain ⟨c37, c38, c39⟩ := bits chan.bits.toFin
  have same : (⟨.ofFin chan.bits.toFin⟩ : AdvChan) = chan := rfl
  rw [same] at c37 c38 c39
  change (chan.bits.toNat &&& 1 <<< 5 ≠ 0 ↔ _) at c37
  change (chan.bits.toNat &&& 1 <<< 6 ≠ 0 ↔ _) at c38
  change (chan.bits.toNat &&& 1 <<< 7 ≠ 0 ↔ _) at c39
  simp only [fmtAdvChan, describeAdvChan, advChanBits, List.filterMap_cons, List.filterMap_nil,
    c37, c38, c39]

/-- The channels are shown by their names. -/
theorem shows_advChan (chan : AdvChan) :
    Shows (do pure (before ++ fmtAdvChan (← readU8) ++ after)) (Encode.advChan chan)
      (before ++ describeAdvChan chan ++ after) := by
  rw [← fmtAdvChan_eq]
  exact ((reads_readU8 chan.bits).map fun chan => before ++ fmtAdvChan chan ++ after).shows

end Fields

section Messages

/-- A variant with fields is shown if its fields are. -/
theorem shows_case {cases : ℕ → Reader String} {index : UInt32} {fields : List UInt8}
    {text : String} (shown : Shows (cases index.toNat) fields text) :
    Shows (readVarint >>= cases) (Encode.variant index ++ fields) text :=
  (reads_varintU32 index).bind_shows shown

/-- A variant without fields is shown by its name. -/
theorem shows_unit {cases : ℕ → Reader String} {index : UInt32} {text : String}
    (same : cases index.toNat = pure text) :
    Shows (readVarint >>= cases) (Encode.variant index) text := by
  have shown : Shows (cases index.toNat) [] text := by
    rw [same]
    exact shows_pure [] text
  have whole := shows_case shown
  rw [List.append_nil] at whole
  exact whole

/-- The remark on the overflow flag closes a status. -/
theorem shows_overflow (before : String) (overflow : Bool) :
    Shows (do pure (before ++ (← readOverflow) ++ ")")) (Encode.bool overflow)
      (before ++ describeOverflow overflow ++ ")") :=
  ((reads_readOverflow overflow).map fun extra => before ++ extra ++ ")").shows

/-- A status is shown with its connection and its overflow. -/
theorem shows_status (status : BluetoothStatus) :
    Shows decodeStatus (Encode.bluetoothStatus status) (describeStatus status) := by
  obtain ⟨connection, queueOverflow⟩ := status
  cases connection with
  | connected rssi =>
      simp only [Encode.bluetoothStatus, Encode.connectionStatus, List.append_assoc]
      refine shows_case ((reads_readI8 rssi).bind_shows ?_)
      exact shows_overflow _ queueOverflow
  | _ => exact shows_case (shows_overflow _ queueOverflow)

/-- Every message for the application is shown as described. -/
theorem shows_bluetooth {msg : Bluetooth} (sized : msg.Sized) :
    Shows decodeBluetooth (Encode.bluetooth msg) (describeBluetooth msg) := by
  cases msg with
  | disableChannels chan => exact shows_case (shows_advChan _ _ chan)
  | status status => exact shows_case (shows_status status)
  | sendData data => exact shows_case (shows_vecLen _ _ data.sized)
  | sendDataResponse response =>
      exact shows_case ((named_sendDataResponse response).shows _ _)
  | receivedData data => exact shows_case (shows_vecLen _ _ data.sized)
  | ackFirmwareVersion version => exact shows_case (shows_string _ _ sized)
  | ackBtAddress btAddress =>
      exact shows_case (shows_bytes _ _ fmtAddress btAddress)
  | setTxPower power => exact shows_case ((named_txPower power).shows _ _)
  | ackDeviceId deviceId =>
      exact shows_case (shows_bytes _ _ hex deviceId)
  | setDeviceName name => exact shows_case (shows_string _ _ name.sized)
  | echo data => exact shows_case (shows_vecLen _ _ data.sized)
  | echoResponse data => exact shows_case (shows_vecLen _ _ data.sized)
  | _ => exact shows_unit rfl

/-- So is every message for the bootloader. -/
theorem shows_bootloader {msg : Bootloader} (sized : msg.Sized) :
    Shows decodeBootloader (Encode.bootloader msg) (describeBootloader msg) := by
  cases msg with
  | ackVerifyFirmware result hash =>
      refine shows_case ((reads_readBool result).bind_shows ?_)
      exact shows_bytes _ _ (fun hashBytes => hex (hashBytes.take 4)) hash
  | nackWithIdx blockIdx => exact shows_case (shows_u32 _ _ toString blockIdx)
  | ackWithIdx blockIdx => exact shows_case (shows_u32 _ _ toString blockIdx)
  | ackWithIdxCrc blockIdx crc =>
      refine shows_case ((reads_varintU32 blockIdx).bind_shows ?_)
      exact shows_u32 _ _ (upperHex 8) crc
  | writeFirmwareBlock blockIdx blockData =>
      refine shows_case ((reads_varintU32 blockIdx).bind_shows ?_)
      exact shows_vecLen _ _ sized
  | firmwareOutOfBounds blockIdx => exact shows_case (shows_u32 _ _ toString blockIdx)
  | ackFirmwareVersion version => exact shows_case (shows_string _ _ sized)
  | ackBootloaderVersion version => exact shows_case (shows_string _ _ sized)
  | challengeSet secret =>
      refine shows_case ?_
      exact ((reads_readVarints secret).map fun _ => "BL::ChallengeSet").shows
  | ackChallengeSet result =>
      exact shows_case ((named_secretSaveResponse result).shows _ _)
  | bootFirmware trust => exact shows_case ((named_trustLevel trust).shows _ _)
  | _ => exact shows_unit rfl

/-- **Messages.** The analyzer shows every message as described, whatever follows
it. -/
theorem shows_message {msg : HostProtocolMessage} (sized : msg.Sized) :
    Shows readMessage (Encode.hostProtocolMessage msg) (describe msg) := by
  cases msg with
  | bluetooth msg => exact shows_case (shows_bluetooth sized)
  | bootloader msg => exact shows_case (shows_bootloader sized)
  | ackState current => exact shows_case ((named_state current).shows _ _)
  | challengeRequest nonce =>
      exact shows_case (shows_u64 _ _ (upperHex 1) nonce)
  | challengeResult result => exact shows_case (shows_pure _ _)
  | postcardError error => exact shows_case ((named_postcardError error).shows _ _)
  | inappropriateMessage current =>
      exact shows_case ((named_state current).shows _ _)
  | _ => exact shows_unit rfl

end Messages

end PrimeBle.Analyzer
