import PrimeBle.Chip.Protection

/-! # What runs has been verified

The bootloader enters an application only after it has verified the image in
flash twice, and the protection keeps the image as it was from then on. So
whatever the host, the flash controller and the application do, an application
that runs is the one whose hash the host was told, under the trust level the host
asked for (`Chip.running_is_verified`), and it was entered through the vector
table of that image.
-/

namespace PrimeBle

open Boot HostProtocol

namespace Boot

/-- The vector table comes right after the signature header. -/
def intVectorTableBase : UInt32 := baseAppAddr + signatureHeaderSize

/-- The little-endian word in the first four bytes. -/
def wordOfBytes (bytes : List UInt8) : UInt32 :=
  bytes.foldr (fun byte word => (word <<< 8) ||| byte.toUInt32) 0

/-- The stack pointer and the entry point that an application starts with. -/
structure Entry where
  msp : UInt32
  rv : UInt32
  deriving DecidableEq, Repr

/-- Where the jump to the application leads. -/
def jumpToApp (flash : Flash) : Entry where
  msp := wordOfBytes (flash.slice intVectorTableBase.toNat 4)
  rv := wordOfBytes (flash.slice (intVectorTableBase + 4).toNat 4)

/-- The entry that an image asks for. -/
def imageEntry (image : List UInt8) : Entry where
  msp := wordOfBytes ((image.drop signatureHeaderSize.toNat).take 4)
  rv := wordOfBytes ((image.drop (signatureHeaderSize.toNat + 4)).take 4)

/-- The image that is verified. -/
abbrev appImage (flash : Flash) : List UInt8 := getFwImageSlice flash baseAppAddr appSize

/-- It is the whole application area. -/
theorem appImage_eq (flash : Flash) :
    appImage flash = flash.slice baseAppAddr.toNat appSize.toNat := by
  have inside : ¬ (baseAppAddr < baseAppAddr ∨
      baseAppAddr + appSize > baseAppAddr + appSize) := by decide
  exact if_neg inside

theorem appImage_congr {first second : Flash}
    (same : ∀ address < flashSize, first address = second address) :
    appImage first = appImage second := by
  have size : baseAppAddr.toNat + appSize.toNat ≤ flashSize := by decide
  rw [appImage_eq, appImage_eq]
  apply Memory.slice_congr
  intro address _ upper
  exact same address (by omega)

/-- The jump leads where the image says. -/
theorem jumpToApp_eq (flash : Flash) : jumpToApp flash = imageEntry (appImage flash) := by
  have size : signatureHeaderSize.toNat + 4 + 4 ≤ appSize.toNat := by decide
  unfold jumpToApp imageEntry
  rw [appImage_eq, Memory.take_drop_slice flash (by omega), Memory.take_drop_slice flash size]
  rfl

/-- The image carries the signatures that a trust level asks for, over the binary
with a hash. -/
def Trusted (cosign : Cosign) (trust : TrustLevel) (hash : Vector UInt8 32)
    (image : List UInt8) : Prop :=
  ∃ header, cosign.parse image signatureHeaderSize.toNat = some header ∧
    header.binaryHash = hash ∧ (trust = .full → header.fullyTrusted = true)

/-- What it takes to verify. -/
theorem verifyImage_valid_iff (cosign : Cosign) (image : List UInt8) (trust : TrustLevel)
    (hash : Vector UInt8 32) :
    verifyImage cosign image trust = (.valid, hash) ↔ Trusted cosign trust hash image := by
  unfold verifyImage Trusted
  cases cosign.parse image signatureHeaderSize.toNat with
  | none => simp
  | some header =>
      cases trust with
      | full => cases trusted : header.fullyTrusted <;> simp [trusted]
      | developer => simp

/-- What it takes for the image in flash to verify twice. -/
theorem verifyFwImage_valid_iff (cosign : Cosign) (flash : Flash) (trust : TrustLevel)
    (hash : Vector UInt8 32) :
    verifyFwImage cosign flash trust = some (.valid, .valid, hash) ↔
      (readVersionAndBuildDate cosign (appImage flash) true).isSome ∧
        Trusted cosign trust hash (appImage flash) := by
  rw [← verifyImage_valid_iff]
  simp only [verifyFwImage]
  cases readVersionAndBuildDate cosign (appImage flash) true with
  | none => simp
  | some texts => simp [Prod.ext_iff]

/-- When a boot request is answered with a hash. -/
theorem bootFirmware_acked_iff (platform : Platform) (write : CellWrite UInt32) (loop : Loop)
    (trust : TrustLevel) (hash : Vector UInt8 32) :
    (Device.ofOutcome (bootFirmware platform write loop trust)).2 =
        some (.bootloader (.ackVerifyFirmware true hash)) ↔
      verifyFwImage platform.cosign loop.flash trust = some (.valid, .valid, hash) := by
  constructor
  · intro acked
    unfold bootFirmware at acked
    split at acked
    · next told valid =>
        simp only [Device.ofOutcome, Option.some.injEq, HostProtocolMessage.bootloader.injEq,
          Bootloader.ackVerifyFirmware.injEq, true_and] at acked
        rw [valid, acked]
    · simp [Device.ofOutcome] at acked
    · simp [Device.ofOutcome] at acked
  · intro valid
    rw [bootFirmware_of_valid platform loop write valid]
    rfl

end Boot

namespace Chip

/-- An application runs. -/
def Running (chip : Chip) : Prop := chip.device.isApplication = true

/-- The step in which the host asked for the application of a chip to be booted,
and was told the hash of the image that is in flash. -/
def Authorises (platform : Device.Platform) (transition : Transition) (chip : Chip) : Prop :=
  ∃ loop hw radio trust hash, transition.source.device = .bootloader loop ∧
    transition.event = .device (.request hw radio (some (.bootloader (.bootFirmware trust)))) ∧
    transition.output = some (.bootloader (.ackVerifyFirmware true hash)) ∧
    Trusted platform.cosign trust hash (appImage chip.device.flash) ∧
    jumpToApp transition.target.device.flash = imageEntry (appImage chip.device.flash)

variable {platform : Device.Platform}

/-- An authorisation is about the image alone. -/
theorem Authorises.congr {transition : Transition} {chip next : Chip}
    (authorises : Authorises platform transition chip)
    (same : appImage next.device.flash = appImage chip.device.flash) :
    Authorises platform transition next := by
  unfold Authorises
  rw [same]
  exact authorises

/-- Only a boot leads from the bootloader to an application. -/
theorem boots_of_running {loop : Loop} {event : Device.Event}
    (running : (Device.step platform (.bootloader loop) event).1.isApplication = true) :
    ∃ hw radio trust hash, event = .request hw radio (some (.bootloader (.bootFirmware trust))) ∧
      verifyFwImage platform.cosign loop.flash trust = some (.valid, .valid, hash) ∧
      (Device.step platform (.bootloader loop) event).1.flash = loop.flash ∧
      (Device.step platform (.bootloader loop) event).2 =
        some (.bootloader (.ackVerifyFirmware true hash)) := by
  cases event with
  | background event => cases running
  | reset => cases running
  | request hw radio request =>
      have stepped : Device.step platform (.bootloader loop) (.request hw radio request) =
        Device.ofOutcome (dispatch platform.boot hw loop request) := rfl
      rw [stepped] at running ⊢
      rcases dispatch_cases platform.boot hw loop request with
        ⟨-, outcome⟩ | ⟨idx, data, -, outcome⟩ | ⟨secret, -, outcome⟩ | ⟨trust, rfl, outcome⟩ |
          ⟨-, outcome⟩ | ⟨-, response, outcome⟩
      · rw [outcome] at running
        cases running
      · rw [outcome] at running
        cases running
      · rw [outcome] at running
        cases running
      · rw [outcome] at running ⊢
        cases result : bootFirmware platform.boot hw.customer loop trust with
        | next next response =>
            rw [result] at running
            cases running
        | sysReset next =>
            rw [result] at running
            cases running
        | jumpToApp next sent =>
            obtain ⟨hash, valid⟩ := valid_of_jumpToApp platform.boot loop result
            rw [← result, bootFirmware_of_valid platform.boot loop hw.customer valid]
            exact ⟨hw, radio, trust, hash, rfl, valid, rfl, rfl⟩
      · rw [outcome] at running
        cases running
      · rw [outcome] at running
        cases running

/-- A running application was just authorised, or was running before with the same
image. -/
theorem authorised_or_running {chip : Chip} (configured : chip.Configured) (event : Event)
    (running : (step platform chip event).1.Running) :
    Authorises platform ((machine platform).fire chip event) (step platform chip event).1 ∨
      chip.Running ∧ ∀ transition, Authorises platform transition chip →
        Authorises platform transition (step platform chip event).1 := by
  cases here : chip.device.isApplication with
  | true =>
      refine Or.inr ⟨here, fun transition authorises => authorises.congr ?_⟩
      exact appImage_congr fun address inside => step_running configured here event inside
  | false =>
      refine Or.inl ?_
      obtain ⟨device, bprot⟩ := chip
      cases device with
      | application flash uicr app => cases here
      | bootloader loop =>
          cases event with
          | tamper attempt => cases running
          | device event =>
              obtain ⟨hw, radio, trust, hash, rfl, verifies, kept, told⟩ := boots_of_running running
              refine ⟨loop, hw, radio, trust, hash, rfl, rfl, told, ?_, ?_⟩
              · have valid := (verifyFwImage_valid_iff platform.cosign loop.flash trust hash).mp
                  verifies
                have image : appImage (step platform ⟨.bootloader loop, bprot⟩ (.device (.request
                    hw radio (some (.bootloader (.bootFirmware trust)))))).1.device.flash =
                    appImage loop.flash := congrArg appImage kept
                rw [image]
                exact valid.2
              · exact jumpToApp_eq _

/-- **Secure boot.** Whatever happens from a reset on, an application that runs was
authorised: the host asked for it to be booted and was told the hash of the image
that is in flash now; the image carries the signatures that the trust level asks
for; and the application was entered where the image says. -/
theorem running_is_verified (platform : Device.Platform) (flash : Flash) (uicr : Uicr)
    {events : List Event}
    (running : ((machine platform).run (.start flash uicr) events).Running) :
    ∃ transition ∈ (machine platform).trace (.start flash uicr) events,
      Authorises platform transition ((machine platform).run (.start flash uicr) events) := by
  have configured : ∀ transition ∈ (machine platform).trace (.start flash uicr) events,
      transition.source.Configured := by
    intro transition member
    obtain ⟨before, event, after, rfl, rfl⟩ := (machine platform).mem_trace_iff.mp member
    have atStart : (start flash uicr).Configured := rfl
    exact (machine platform).run_invariant (configured_step platform) atStart before
  have turns : ∀ chip event, chip.Configured →
      ((machine platform).step chip event).1.Running →
      Authorises platform ((machine platform).fire chip event)
          ((machine platform).step chip event).1 ∨
        chip.Running ∧ ∀ transition, Authorises platform transition chip →
          Authorises platform transition ((machine platform).step chip event).1 :=
    fun chip event configured running => authorised_or_running configured event running
  have asleep : ¬ (start flash uicr).Running := Bool.false_ne_true
  exact (machine platform).exists_origin turns asleep configured running

private def bootHw : Peripherals := ⟨nvmc, .nor⟩

private def signed : Header := ⟨"4.0.0", "2024", true, Vector.replicate 32 1⟩

private def trusting : Device.Platform where
  cosign := { parse _ _ := some signed, parseUnverified _ _ _ := some signed }
  firmware := .bare

private def bootsOnce : List Event :=
  [.device (.request bootHw ⟨none, false⟩ (some (.bootloader (.bootFirmware .full)))),
    .tamper fun _ => 0]

private theorem bootsOnce_running :
    ((machine trusting).run (.start (fun _ => 7) (fun _ => 0)) bootsOnce).Running := by
  rfl

/-- A boot, and an application that tries to overwrite itself. -/
theorem running_is_verified_sample :
    ∃ transition ∈ (machine trusting).trace (.start (fun _ => 7) (fun _ => 0)) bootsOnce,
      Authorises trusting transition
        ((machine trusting).run (.start (fun _ => 7) (fun _ => 0)) bootsOnce) :=
  running_is_verified trusting (fun _ => 7) (fun _ => 0) bootsOnce_running

end Chip

end PrimeBle
