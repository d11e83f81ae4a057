import PrimeBle.Boot.Verify
import PrimeBle.HostProtocol.Decode
import PrimeBle.Library.Crc32

/-! # The bootloader's command loop

One iteration of the loop takes the request a transaction carries and either
answers it and goes on, resets the chip, or acknowledges a boot and jumps to the
application. The flash and the UICR outlive the iteration whatever its outcome;
the cached seal and the update state live only as long as the loop.
-/

namespace PrimeBle.Boot

open HostProtocol

/-- Tracks the state of firmware updates. -/
structure BootState where
  offset : UInt32 := 0
  actualSector : UInt32 := 0
  actualPktIdx : UInt32 := 0
  deriving DecidableEq, Repr

def BootState.reset (bootStatus : BootState) : BootState :=
  { bootStatus with offset := 0, actualSector := 0, actualPktIdx := 0 }

/-- The update state after a block of the given index and length. -/
def BootState.advance (bootStatus : BootState) (idx : UInt32) (len : ℕ) : BootState :=
  let offset := bootStatus.offset + UInt32.ofNat len
  { offset
    actualSector := baseAppAddr + offset / flashPage * flashPage
    actualPktIdx := idx }

/-- What the loop works on between two iterations. -/
structure Loop where
  flash : Flash
  uicr : Uicr
  cachedSeal : UInt32
  bootStatus : BootState

/-- The loop as `main` enters it after a reset. -/
def Loop.start (flash : Flash) (uicr : Uicr) : Loop where
  flash := flash
  uicr := uicr
  cachedSeal := uicr.sealRegister
  bootStatus := {}

/-- How the peripherals behave while one request is served. -/
structure Peripherals where
  flash : FlashDriver
  customer : CellWrite UInt32

/-- The crates the bootloader links. -/
structure Platform where
  cosign : Cosign
  hmac : HmacSha256

inductive Outcome where
  /-- The loop goes on, after sending the response if there is one. -/
  | next (loop : Loop) (response : Option HostProtocolMessage)
  | sysReset (loop : Loop)
  | jumpToApp (loop : Loop) (sent : HostProtocolMessage)

def eraseFirmware (driver : FlashDriver) (loop : Loop) : Loop × Bootloader :=
  let start := baseAppAddr / flashPage * flashPage
  if start = baseAppAddr then
    match driver.erase loop.flash baseAppAddr baseBootloaderAddr with
    | (true, flash) =>
        ({ loop with flash, bootStatus := loop.bootStatus.reset }, .ackEraseFirmware)
    | (false, flash) => ({ loop with flash }, .nackEraseFirmware)
  else
    match driver.read loop.flash start (baseAppAddr % flashPage).toNat with
    | none => (loop, .nackEraseFirmwareRead)
    | some saved =>
        match driver.erase loop.flash start baseBootloaderAddr with
        | (false, flash) => ({ loop with flash }, .nackEraseFirmware)
        | (true, flash) =>
            let bootStatus := loop.bootStatus.reset
            match driver.write flash start saved with
            | (false, flash) => ({ loop with flash, bootStatus }, .nackEraseFirmwareWrite)
            | (true, flash) => ({ loop with flash, bootStatus }, .ackEraseFirmware)

/-- Where the next block goes. -/
def Loop.cursor (loop : Loop) : UInt32 := baseAppAddr + loop.bootStatus.offset

def writeFirmwareBlock (driver : FlashDriver) (loop : Loop) (idx : UInt32) (data : List UInt8) :
    Loop × Bootloader :=
  let cursor := loop.cursor
  -- The upper end is included, and the length of the block is not looked at.
  if baseAppAddr ≤ cursor ∧ cursor ≤ baseBootloaderAddr then
    match driver.write loop.flash cursor data with
    | (true, flash) =>
        ({ loop with flash, bootStatus := loop.bootStatus.advance idx data.length },
          .ackWithIdxCrc idx (Crc32.iscsi.checksum data))
    | (false, flash) => ({ loop with flash }, .nackWithIdx idx)
  else (loop, .firmwareOutOfBounds idx)

variable (platform : Platform)

def firmwareVersion (loop : Loop) : Bootloader :=
  let image := getFwImageSlice loop.flash baseAppAddr signatureHeaderSize
  match readVersionAndBuildDate platform.cosign image false with
  | some (version, _) => .ackFirmwareVersion version
  | none => .noCosignHeader

def challengeSet (write : CellWrite UInt32) (loop : Loop) (secret : Vector UInt32 8) :
    Loop × SecretSaveResponse :=
  if loop.cachedSeal = uicrSealedSecret ∨ loop.cachedSeal = uicrSealedWiped then
    (loop, .notAllowed)
  else if secret.all (· == 0) ∨ secret.all (· == 0xFFFFFFFF) then (loop, .error)
  else
    match writeSecret write loop.uicr secret uicrSealedSecret with
    | (true, uicr) => ({ loop with uicr, cachedSeal := uicrSealedSecret }, .sealed)
    | (false, uicr) => ({ loop with uicr }, .error)

def bootFirmware (write : CellWrite UInt32) (loop : Loop) (trust : TrustLevel) : Outcome :=
  match verifyFwImage platform.cosign loop.flash trust with
  | some (.valid, .valid, hash) =>
      let uicr :=
        if loop.cachedSeal = uicrSealedSecret ∧ trust = .developer then
          -- Whether the secret could be wiped is not looked at.
          (writeSecret write loop.uicr (Vector.replicate 8 0) uicrSealedWiped).2
        else loop.uicr
      .jumpToApp { loop with uicr } (.bootloader (.ackVerifyFirmware true hash))
  | some (_, _, hash) => .next loop (some (.bootloader (.ackVerifyFirmware false hash)))
  | none => .next loop (some (.bootloader .noCosignHeader))

def challengeRequest (loop : Loop) (nonce : UInt64) : HostProtocolMessage :=
  if loop.cachedSeal = uicrSealedSecret then
    match platform.hmac.newFromSlice loop.uicr.secretAsSlice with
    | some mac => .challengeResult (mac (toBeBytes nonce))
    | none => .challengeResult (Vector.replicate 32 0xFF)
  else .challengeResult (Vector.replicate 32 0xFF)

/-- The answer to a request, for a loop that goes on. -/
def reply (answer : Loop × Bootloader) : Outcome :=
  .next answer.1 (some (.bootloader answer.2))

/-- One iteration of the loop, from the decoded request to the response. -/
def dispatch (hw : Peripherals) (loop : Loop) : Request → Outcome
  | some (.bootloader msg) =>
      match msg with
      | .eraseFirmware => reply (eraseFirmware hw.flash loop)
      | .writeFirmwareBlock idx data => reply (writeFirmwareBlock hw.flash loop idx data)
      | .firmwareVersion => reply (loop, firmwareVersion platform loop)
      | .bootloaderVersion => reply (loop, .ackBootloaderVersion "3.0.3")
      | .challengeSet secret =>
          let answer := challengeSet hw.customer loop secret
          reply (answer.1, .ackChallengeSet answer.2)
      | .bootFirmware trust => bootFirmware platform hw.customer loop trust
      | _ => .next loop none
  | some .reset => .sysReset loop
  | some (.challengeRequest nonce) => .next loop (some (challengeRequest platform loop nonce))
  | some .getState => .next loop (some (.ackState .firmwareUpgrade))
  | some _ => .next loop (some (.inappropriateMessage .firmwareUpgrade))
  | none => .next loop (some (.postcardError .deser))

/-- The size of the receive buffer. -/
def rawBufSize : ℕ := 512

/-- One turn of the loop on what the SPI read returned: failed and empty reads
are skipped. -/
def turn (hw : Peripherals) (loop : Loop) (read : Option (List UInt8)) : Outcome :=
  match read with
  | none => .next loop none
  | some [] => .next loop none
  | some transaction => dispatch platform hw loop (fromBytes rawBufSize transaction)

end PrimeBle.Boot
