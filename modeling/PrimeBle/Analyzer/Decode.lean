import PrimeBle.Library.Machine
import PrimeBle.Library.Postcard

/-! # The protocol analyzer

The high level analyzer for captures of the bus. Its readers take values off the
front of the bytes that are left, and fail where it raises an error. A message is
shown as text, and a transaction is taken for a request or a response by what its
two lines carry.
-/

namespace PrimeBle.Analyzer

open Postcard (Decoder)

/-- A reader is a decoder of a value, or of what is shown of it. -/
abbrev Reader := Decoder

section Primitives

/-- Read the rest of a varint. -/
def readVarintFrom (result shift : ℕ) : Reader ℕ
  | [] => none
  | byte :: data =>
      let result := result ||| (byte.toNat &&& 0x7F) <<< shift
      if byte.toNat &&& 0x80 = 0 then some (result, data)
      else if shift + 7 ≥ 70 then none
      else readVarintFrom result (shift + 7) data

def readVarint : Reader ℕ := readVarintFrom 0 0

def readU8 : Reader UInt8
  | [] => none
  | byte :: data => some (byte, data)

def readI8 : Reader ℤ := do
  let val ← readU8
  pure (if val.toNat ≥ 128 then (val.toNat : ℤ) - 256 else val.toNat)

def readBool : Reader Bool := do pure ((← readU8) != 0)

def readBytes (n : ℕ) : Reader (List UInt8) := fun data =>
  if n > data.length then none else some (data.take n, data.drop n)

section Utf8

def isContinuation (byte : UInt8) : Bool := 0x80 ≤ byte && byte ≤ 0xBF

/-- How many bytes follow the first one of a character. -/
def followers (first : UInt8) : ℕ :=
  if 0xC2 ≤ first ∧ first ≤ 0xDF then 1
  else if 0xE0 ≤ first ∧ first ≤ 0xEF then 2
  else if 0xF0 ≤ first ∧ first ≤ 0xF4 then 3
  else 0

/-- The second byte keeps the character from being overlong, a surrogate or too
large. -/
def canFollow (first second : UInt8) : Bool :=
  if first = 0xE0 then 0xA0 ≤ second && second ≤ 0xBF
  else if first = 0xED then 0x80 ≤ second && second ≤ 0x9F
  else if first = 0xF0 then 0x90 ≤ second && second ≤ 0xBF
  else if first = 0xF4 then 0x80 ≤ second && second ≤ 0x8F
  else isContinuation second

/-- The bytes behind the first one that belong to its character. -/
def charTail (first : UInt8) : List UInt8 → List UInt8
  | [] => []
  | second :: data =>
      if followers first ≠ 0 ∧ canFollow first second then
        second :: (data.takeWhile isContinuation).take (followers first - 1)
      else []

/-- Decode bytes that are not valid text: every longest piece of a character that
is not complete becomes one replacement character. -/
def replaceInvalid : (skip : ℕ) → List UInt8 → List Char
  | _, [] => []
  | skip + 1, _ :: data => replaceInvalid skip data
  | 0, first :: data =>
      if first < 0x80 then Char.ofNat first.toNat :: replaceInvalid 0 data
      else
        let tail := charTail first data
        let char :=
          if followers first ≠ 0 ∧ tail.length = followers first then
            Char.ofNat (tail.foldl (fun code byte => code * 64 + byte.toNat % 64)
              (first.toNat % 2 ^ (6 - followers first)))
          else Char.ofNat 0xFFFD
        char :: replaceInvalid tail.length data

/-- `decode("utf-8", errors="replace")`. -/
def decodeUtf8 (data : List UInt8) : String :=
  match String.fromUTF8? ⟨data.toArray⟩ with
  | some text => text
  | none => String.ofList (replaceInvalid 0 data)

end Utf8

def readString : Reader String := do
  let length ← readVarint
  pure (decodeUtf8 (← readBytes length))

def readVecLen : Reader ℕ := readVarint

/-- Nothing is left to read. -/
def atEnd : Reader Bool := fun data => some (data.isEmpty, data)

end Primitives

section Text

/-- Hexadecimal digits, padded with zeros. -/
def hexDigits (width value : ℕ) : List Char := (Nat.toDigits 16 value).leftpad width '0'

def upperHex (width value : ℕ) : String := String.ofList ((hexDigits width value).map Char.toUpper)

/-- `bytes.hex()`. -/
def hex (data : List UInt8) : String :=
  String.ofList (data.flatMap fun byte => hexDigits 2 byte.toNat)

/-- The bytes of an address, as they are joined. -/
def fmtAddress (addr : List UInt8) : String :=
  String.intercalate ":" (addr.map fun byte => upperHex 2 byte.toNat)

/-- A truth value as it is printed. -/
def truth (value : Bool) : String := if value then "True" else "False"

/-- A looked up name, or the number behind a question mark. -/
def nameOr (table : ℕ → Option String) (value : ℕ) : String :=
  (table value).getD ("?" ++ toString value)

end Text

section Tables

def txPower : ℕ → Option String
  | 0 => "-40dBm"
  | 1 => "-20dBm"
  | 2 => "-16dBm"
  | 3 => "-12dBm"
  | 4 => "-8dBm"
  | 5 => "-4dBm"
  | 6 => "0dBm"
  | 7 => "+3dBm"
  | 8 => "+4dBm"
  | _ => none

def state : ℕ → Option String
  | 0 => "Enabled"
  | 1 => "Disabled"
  | 2 => "FirmwareUpgrade"
  | 3 => "Unknown"
  | _ => none

def connectionStatus : ℕ → Option String
  | 0 => "Disabled"
  | 1 => "WaitingForConnection"
  | 2 => "Connected"
  | _ => none

def sendDataResponse : ℕ → Option String
  | 0 => "Sent"
  | 1 => "BufferFull"
  | _ => none

def secretSaveResponse : ℕ → Option String
  | 0 => "NotAllowed"
  | 1 => "Sealed"
  | 2 => "Error"
  | _ => none

def trustLevel : ℕ → Option String
  | 0 => "Full"
  | 1 => "Developer"
  | _ => none

def postcardError : ℕ → Option String
  | 0 => "Deser"
  | 1 => "OverFull"
  | _ => none

/-- The flags with a name, by bit. -/
def advChanBits : List (ℕ × String) := [(5, "C37"), (6, "C38"), (7, "C39")]

/-- The first byte on MISO that a target identifies itself with. -/
def misoTarget : ℕ → Option String
  | 0x69 => "Bootloader"
  | 0x51 => "Application"
  | _ => none

/-- Bluetooth variants without fields. -/
def btSimple : ℕ → Option String
  | 1 => "AckDisableChannels"
  | 2 => "NackDisableChannels"
  | 3 => "Enable"
  | 4 => "AckEnable"
  | 5 => "Disable"
  | 6 => "AckDisable"
  | 7 => "GetStatus"
  | 11 => "GetReceivedData"
  | 13 => "NoReceivedData"
  | 14 => "GetFirmwareVersion"
  | 16 => "GetBtAddress"
  | 19 => "AckTxPower"
  | 20 => "GetDeviceId"
  | 22 => "Disconnect"
  | 23 => "AckDisconnect"
  | 25 => "AckSetDeviceName"
  | _ => none

/-- Bootloader variants without fields. -/
def blSimple : ℕ → Option String
  | 0 => "EraseFirmware"
  | 1 => "AckEraseFirmware"
  | 2 => "NackEraseFirmwareRead"
  | 3 => "NackEraseFirmware"
  | 4 => "NackEraseFirmwareWrite"
  | 11 => "NoCosignHeader"
  | 12 => "FirmwareVersion"
  | 14 => "BootloaderVersion"
  | _ => none

end Tables

def fmtAdvChan (byte : UInt8) : String :=
  let parts := advChanBits.filterMap fun (bit, name) =>
    if byte.toNat &&& 1 <<< bit ≠ 0 then some name else none
  if parts.isEmpty then "0x" ++ upperHex 2 byte.toNat else String.intercalate " | " parts

/-- The overflow flag came later, so it may be missing. -/
def readOverflow : Reader String := do
  if ← atEnd then pure ""
  else pure (if ← readBool then ", overflow" else "")

/-- The fields of a status. -/
def decodeStatus : Reader String := do
  let conn ← readVarint
  if conn = 2 then
    let rssi ← readI8
    let extra ← readOverflow
    pure ("BT::Status(Connected, rssi=" ++ toString rssi ++ extra ++ ")")
  else
    let extra ← readOverflow
    pure ("BT::Status(" ++ nameOr connectionStatus conn ++ extra ++ ")")

def decodeBluetooth : Reader String := do
  let sub ← readVarint
  match btSimple sub with
  | some name => pure ("BT::" ++ name)
  | none =>
      match sub with
      | 0 => do pure ("BT::DisableChannels(" ++ fmtAdvChan (← readU8) ++ ")")
      | 8 => decodeStatus
      | 9 => do pure ("BT::SendData(" ++ toString (← readVecLen) ++ "B)")
      | 10 => do
          pure ("BT::SendDataResponse(" ++ nameOr sendDataResponse (← readVarint) ++ ")")
      | 12 => do pure ("BT::ReceivedData(" ++ toString (← readVecLen) ++ "B)")
      | 15 => do pure ("BT::AckFirmwareVersion(" ++ (← readString) ++ ")")
      | 17 => do pure ("BT::AckBtAddress(" ++ fmtAddress (← readBytes 6) ++ ")")
      | 18 => do pure ("BT::SetTxPower(" ++ nameOr txPower (← readVarint) ++ ")")
      | 21 => do pure ("BT::AckDeviceId(" ++ hex (← readBytes 8) ++ ")")
      | 24 => do pure ("BT::SetDeviceName(" ++ (← readString) ++ ")")
      | 26 => do pure ("BT::Echo(" ++ toString (← readVecLen) ++ "B)")
      | 27 => do pure ("BT::EchoResponse(" ++ toString (← readVecLen) ++ "B)")
      | sub => pure ("BT::?" ++ toString sub)

/-- Read a number of varints. -/
def readVarints : ℕ → Reader (List ℕ)
  | 0 => pure []
  | count + 1 => do
      let vals ← readVarints count
      pure (vals ++ [← readVarint])

def decodeBootloader : Reader String := do
  let sub ← readVarint
  match blSimple sub with
  | some name => pure ("BL::" ++ name)
  | none =>
      match sub with
      | 5 => do
          let ok ← readBool
          let hashBytes ← readBytes 32
          pure ("BL::AckVerifyFirmware(ok=" ++ truth ok ++ ", hash=" ++ hex (hashBytes.take 4) ++
            "...)")
      | 6 => do pure ("BL::NackWithIdx(" ++ toString (← readVarint) ++ ")")
      | 7 => do pure ("BL::AckWithIdx(" ++ toString (← readVarint) ++ ")")
      | 8 => do
          let idx ← readVarint
          let crc ← readVarint
          pure ("BL::AckWithIdxCrc(idx=" ++ toString idx ++ ", crc=0x" ++ upperHex 8 crc ++ ")")
      | 9 => do
          let idx ← readVarint
          let length ← readVecLen
          pure ("BL::WriteFirmwareBlock(idx=" ++ toString idx ++ ", " ++ toString length ++ "B)")
      | 10 => do pure ("BL::FirmwareOutOfBounds(" ++ toString (← readVarint) ++ ")")
      | 13 => do pure ("BL::AckFirmwareVersion(" ++ (← readString) ++ ")")
      | 15 => do pure ("BL::AckBootloaderVersion(" ++ (← readString) ++ ")")
      | 16 => do
          let _ ← readVarints 8
          pure "BL::ChallengeSet"
      | 17 => do
          pure ("BL::AckChallengeSet(" ++ nameOr secretSaveResponse (← readVarint) ++ ")")
      | 18 => do pure ("BL::BootFirmware(" ++ nameOr trustLevel (← readVarint) ++ ")")
      | sub => pure ("BL::?" ++ toString sub)

/-- Show a message; an unknown top-level variant is not one. -/
def readMessage : Reader String := do
  match ← readVarint with
  | 0 => decodeBluetooth
  | 1 => decodeBootloader
  | 2 => pure "Reset"
  | 3 => pure "GetState"
  | 4 => do pure ("AckState(" ++ nameOr state (← readVarint) ++ ")")
  | 5 => do pure ("ChallengeRequest(nonce=0x" ++ upperHex 1 (← readVarint) ++ ")")
  | 6 => pure "ChallengeResult"
  | 7 => do pure ("PostcardError(" ++ nameOr postcardError (← readVarint) ++ ")")
  | 8 => do pure ("InappropriateMessage(" ++ nameOr state (← readVarint) ++ ")")
  | _ => failure

def decodeMessage (data : List UInt8) : Option String :=
  if data.isEmpty then none else Postcard.fromBytes readMessage data

/-- What is shown of a transaction. -/
inductive Bubble where
  | request (message target : String)
  | response (message : String)
  | error (error : String)
  deriving DecidableEq, Repr

variable {Time : Type}

structure AnalyzerFrame (Time : Type) where
  bubble : Bubble
  startTime : Option Time
  endTime : Option Time

/-- What was collected since the chip was selected. -/
structure HostProtocolAnalyzer (Time : Type) where
  mosi : List UInt8
  miso : List UInt8
  startTime : Option Time
  endTime : Option Time

namespace HostProtocolAnalyzer

def reset : HostProtocolAnalyzer Time where
  mosi := []
  miso := []
  startTime := none
  endTime := none

def frame (analyzer : HostProtocolAnalyzer Time) (bubble : Bubble) : AnalyzerFrame Time where
  bubble := bubble
  startTime := analyzer.startTime
  endTime := analyzer.endTime

/-- A message that is shown, since an empty text is not. -/
def shown (data : List UInt8) : Option String := (decodeMessage data).filter (· ≠ "")

/-- The error shown for bytes that do not decode, unless all are zero. -/
def undecoded (analyzer : HostProtocolAnalyzer Time) : Option (AnalyzerFrame Time) :=
  let mosiNz := analyzer.mosi.any (· != 0)
  let misoNz := analyzer.miso.any (· != 0)
  if mosiNz || misoNz then
    let parts :=
      (if mosiNz then ["MOSI " ++ toString analyzer.mosi.length ++ "B"] else []) ++
        if misoNz then ["MISO " ++ toString analyzer.miso.length ++ "B"] else []
    some (analyzer.frame (.error ("undecoded (" ++ String.intercalate ", " parts ++ ")")))
  else none

/-- The request on MOSI, or an error. -/
def requestFrame (analyzer : HostProtocolAnalyzer Time) (target : String) :
    Option (AnalyzerFrame Time) :=
  match shown analyzer.mosi with
  | some msg => some (analyzer.frame (.request msg target))
  | none => analyzer.undecoded

/-- The message behind the length on MISO. -/
def responseText (miso : List UInt8) : Option String :=
  match miso with
  | high :: low :: rest =>
      let length := high.toNat <<< 8 ||| low.toNat
      if rest ≠ [] ∧ 0 < length ∧ length ≤ rest.length then shown (rest.take length) else none
  | _ => none

def processTransaction (analyzer : HostProtocolAnalyzer Time) : Option (AnalyzerFrame Time) :=
  if analyzer.mosi.isEmpty && analyzer.miso.isEmpty then none
  else if analyzer.miso.all (· == 0) then analyzer.requestFrame ""
  else
    match analyzer.miso.head?.bind fun first => misoTarget first.toNat with
    | some target => analyzer.requestFrame target
    | none =>
        match responseText analyzer.miso with
        | some msg => some (analyzer.frame (.response msg))
        | none => analyzer.requestFrame ""

end HostProtocolAnalyzer

/-- A frame of the SPI analyzer below. -/
inductive SpiFrame (Time : Type) where
  | enable (startTime endTime : Time)
  | result (mosi miso : List UInt8) (startTime endTime : Time)
  | disable (startTime endTime : Time)
  | other (startTime endTime : Time)

/-- The frame handler. -/
def decode (analyzer : HostProtocolAnalyzer Time) :
    SpiFrame Time → HostProtocolAnalyzer Time × Option (AnalyzerFrame Time)
  | .enable startTime _ => ({ HostProtocolAnalyzer.reset with startTime := some startTime }, none)
  | .result mosi miso _ endTime =>
      ({ analyzer with
          mosi := analyzer.mosi ++ mosi
          miso := analyzer.miso ++ miso
          endTime := some endTime }, none)
  | .disable _ endTime =>
      if analyzer.startTime.isNone then (analyzer, none)
      else (.reset, { analyzer with endTime := some endTime }.processTransaction)
  | .other _ _ => (analyzer, none)

/-- The analyzer, from one frame to the next. -/
def machine (Time : Type) :
    Machine (HostProtocolAnalyzer Time) (SpiFrame Time) (Option (AnalyzerFrame Time)) where
  step := decode

end PrimeBle.Analyzer
