import PrimeBle.Boot.Serve
import PrimeBle.Device

/-! # Writing the secret registers

Writing the secret succeeds exactly when every word takes (`Secret.Takes`), and
only then is the seal written. Besides a secret that arrives, only the boot of
developer firmware with a sealed secret touches the registers (`Secret.step_cases`).
-/

namespace PrimeBle.Secret

open Boot Device HostProtocol

/-- Every word of the secret reads back after it is written. -/
def Takes (write : CellWrite UInt32) (uicr : Uicr) (secret : Vector UInt32 8) : Prop :=
  ∀ index (below : index < 8), write index (uicr index) secret[index] = secret[index]

variable (write : CellWrite UInt32) (uicr : Uicr)

theorem sealRegister_set (word : UInt32) :
    Uicr.sealRegister (uicr.set write uicrSealIndex word) =
      write uicrSealIndex uicr.sealRegister word :=
  Memory.set_self write uicr uicrSealIndex word

theorem secret_set (word : UInt32) :
    Uicr.secret (uicr.set write uicrSealIndex word) = Uicr.secret uicr := by
  apply Memory.slice_congr
  intro index _ below
  apply Memory.set_of_ne write uicr word
  unfold uicrSealIndex
  omega

theorem sealRegister_program (secret : Vector UInt32 8) :
    Uicr.sealRegister (uicr.program write 0 secret.toList) = Uicr.sealRegister uicr := by
  apply Memory.program_outside write
  rw [Vector.length_toList]
  exact Or.inr (Nat.le_refl _)

theorem secret_program_iff (secret : Vector UInt32 8) :
    Uicr.secret (uicr.program write 0 secret.toList) = secret.toList ↔ Takes write uicr secret := by
  have eight : secret.toList.length = 8 := secret.length_toList
  have whole : Uicr.secret (uicr.program write 0 secret.toList) =
      (uicr.program write 0 secret.toList).slice 0 secret.toList.length := by
    rw [eight]
    rfl
  have cell : ∀ index (below : index < secret.toList.length),
      uicr.program write 0 secret.toList (0 + index) =
        write index (uicr index) secret.toList[index] := by
    intro index below
    rw [Nat.zero_add, Memory.program_inside write (Nat.zero_le _) (by omega)]
    simp only [Nat.sub_zero]
  rw [whole, Memory.slice_eq_iff]
  constructor
  · intro reads index below
    have read := reads index (by omega)
    rw [cell index (by omega), Vector.getElem_toList] at read
    exact read
  · intro takes index below
    rw [cell index below, Vector.getElem_toList]
    exact takes index (by omega)

/-- What a successful write leaves. -/
theorem writeSecret_of_takes {write : CellWrite UInt32} {uicr : Uicr} {secret : Vector UInt32 8}
    (takes : Takes write uicr secret) (sealWord : UInt32) :
    (writeSecret write uicr secret sealWord).1 = true ∧
      Uicr.secret (writeSecret write uicr secret sealWord).2 = secret.toList ∧
      Uicr.sealRegister (writeSecret write uicr secret sealWord).2 =
        write uicrSealIndex uicr.sealRegister sealWord := by
  have read := (secret_program_iff write uicr secret).mpr takes
  rw [writeSecret_eq, ite_cond_eq_true _ _ (eq_true read)]
  refine ⟨rfl, ?_, ?_⟩
  · rw [secret_set, read]
  · rw [sealRegister_set, sealRegister_program]

/-- A failed write leaves the seal alone, and some word is not what was
written. -/
theorem writeSecret_of_fails {write : CellWrite UInt32} {uicr : Uicr} {secret : Vector UInt32 8}
    (fails : ¬ Takes write uicr secret) (sealWord : UInt32) :
    (writeSecret write uicr secret sealWord).1 = false ∧
      Uicr.secret (writeSecret write uicr secret sealWord).2 ≠ secret.toList ∧
      Uicr.sealRegister (writeSecret write uicr secret sealWord).2 = uicr.sealRegister := by
  have stale := mt (secret_program_iff write uicr secret).mp fails
  rw [writeSecret_eq, ite_cond_eq_false _ _ (eq_false stale)]
  exact ⟨rfl, stale, sealRegister_program write uicr secret⟩

/-- Once sealed, a secret cannot be set. -/
theorem challengeSet_notAllowed {loop : Loop}
    (known : loop.cachedSeal = uicrSealedSecret ∨ loop.cachedSeal = uicrSealedWiped)
    (write : CellWrite UInt32) (secret : Vector UInt32 8) :
    challengeSet write loop secret = (loop, .notAllowed) := by
  unfold challengeSet
  simp only [known, ↓reduceIte]

section ChallengeSet

variable {write : CellWrite UInt32} {loop : Loop} {secret : Vector UInt32 8}
  (unknown : ¬ (loop.cachedSeal = uicrSealedSecret ∨ loop.cachedSeal = uicrSealedWiped))
include unknown

/-- A secret of zeros or ones is not written. -/
theorem challengeSet_of_improper
    (improper : secret.all (· == 0) ∨ secret.all (· == 0xFFFFFFFF)) :
    challengeSet write loop secret = (loop, .error) := by
  unfold challengeSet
  rw [if_neg unknown, if_pos improper]

variable (proper : ¬ (secret.all (· == 0) ∨ secret.all (· == 0xFFFFFFFF)))
include proper

/-- A secret that takes is answered with `sealed`. -/
theorem challengeSet_of_takes (takes : Takes write loop.uicr secret) :
    challengeSet write loop secret =
      ({ loop with
          uicr := (writeSecret write loop.uicr secret uicrSealedSecret).2
          cachedSeal := uicrSealedSecret }, .sealed) := by
  have succeeds := (writeSecret_of_takes takes uicrSealedSecret).1
  unfold challengeSet
  rw [if_neg unknown, if_neg proper]
  split
  · next uicr same => rw [same]
  · next uicr same =>
      rw [same] at succeeds
      cases succeeds

/-- One that does not is an error. -/
theorem challengeSet_of_fails (fails : ¬ Takes write loop.uicr secret) :
    challengeSet write loop secret =
      ({ loop with uicr := (writeSecret write loop.uicr secret uicrSealedSecret).2 },
        .error) := by
  have failed := (writeSecret_of_fails fails uicrSealedSecret).1
  unfold challengeSet
  rw [if_neg unknown, if_neg proper]
  split
  · next uicr same =>
      rw [same] at failed
      cases failed
  · next uicr same => rw [same]

end ChallengeSet

/-- The cache holds the seal register. -/
def Cached (loop : Loop) : Prop := loop.cachedSeal = loop.uicr.sealRegister

/-- A secret arrives. -/
abbrev challengeSetEvent (hw : Peripherals) (radio : Firmware.RadioReadings)
    (secret : Vector UInt32 8) : Device.Event :=
  .request hw radio (some (.bootloader (.challengeSet secret)))

/-- The host asks for the firmware to be booted under a trust level. -/
abbrev bootEvent (hw : Peripherals) (radio : Firmware.RadioReadings) (trust : TrustLevel) :
    Device.Event :=
  .request hw radio (some (.bootloader (.bootFirmware trust)))

/-- The image in flash verifies twice under a trust level. -/
def VerifiesTwice (platform : Device.Platform) (flash : Flash) (trust : TrustLevel) : Prop :=
  ∃ hash, verifyFwImage platform.cosign flash trust = some (.valid, .valid, hash)

/-- The registers after an attempt to wipe them. -/
def wiped (write : CellWrite UInt32) (uicr : Uicr) : Uicr :=
  (writeSecret write uicr (Vector.replicate 8 0) uicrSealedWiped).2

/-- The step changes no register and keeps the cache in step with the seal. -/
structure Untouched (before after : Device) : Prop where
  uicr : after.uicr = before.uicr
  cached : before.AtLoop Cached → after.AtLoop Cached

section Steps

variable (platform : Device.Platform) {loop : Loop} (hw : Peripherals)
  (radio : Firmware.RadioReadings)

theorem step_challengeSet (loop : Loop) (hw : Peripherals) (radio : Firmware.RadioReadings)
    (secret : Vector UInt32 8) :
    step platform (.bootloader loop) (challengeSetEvent hw radio secret) =
      (.bootloader (challengeSet hw.customer loop secret).1,
        some (.bootloader (.ackChallengeSet (challengeSet hw.customer loop secret).2))) := rfl

theorem step_boot_of_verifies {trust : TrustLevel}
    (verifies : VerifiesTwice platform loop.flash trust) :
    (step platform (.bootloader loop) (bootEvent hw radio trust)).1 =
      .application loop.flash
        (if loop.cachedSeal = uicrSealedSecret ∧ trust = .developer then
          wiped hw.customer loop.uicr else loop.uicr) .start := by
  obtain ⟨hash, valid⟩ := verifies
  change (ofOutcome (bootFirmware platform.boot hw.customer loop trust)).1 = _
  rw [bootFirmware_of_valid platform.boot loop hw.customer valid]
  rfl

theorem step_boot_of_fails {trust : TrustLevel}
    (fails : ¬ VerifiesTwice platform loop.flash trust) :
    (step platform (.bootloader loop) (bootEvent hw radio trust)).1 = .bootloader loop := by
  change (ofOutcome (bootFirmware platform.boot hw.customer loop trust)).1 = _
  cases outcome : bootFirmware platform.boot hw.customer loop trust with
  | next next response =>
      rw [bootFirmware_next platform.boot outcome]
      rfl
  | sysReset next =>
      unfold bootFirmware at outcome
      split at outcome <;> cases outcome
  | jumpToApp next sent => exact absurd (valid_of_jumpToApp platform.boot loop outcome) fails

end Steps

/-- **What touches the registers.** A secret arrives, or developer firmware is
booted while the secret is sealed; every other step leaves them alone. -/
theorem step_cases (platform : Device.Platform) (device : Device) (event : Device.Event) :
    Untouched device (step platform device event).1 ∨
    (∃ loop hw radio secret, device = .bootloader loop ∧
      event = challengeSetEvent hw radio secret) ∨
    (∃ loop hw radio, device = .bootloader loop ∧ event = bootEvent hw radio .developer ∧
      VerifiesTwice platform loop.flash .developer ∧ loop.cachedSeal = uicrSealedSecret) := by
  cases device with
  | application flash uicr app =>
      refine Or.inl ?_
      rcases step_application platform flash uicr app event with reset | ⟨next, same⟩
      · rw [reset]
        exact ⟨rfl, fun _ => rfl⟩
      · rw [same]
        exact ⟨rfl, fun _ => trivial⟩
  | bootloader loop =>
      cases event with
      | background event => exact Or.inl ⟨rfl, id⟩
      | reset => exact Or.inl ⟨rfl, fun _ => rfl⟩
      | request hw radio request =>
          have stepped : (step platform (.bootloader loop) (.request hw radio request)).1 =
            (ofOutcome (dispatch platform.boot hw loop request)).1 := rfl
          rcases dispatch_cases platform.boot hw loop request with
            ⟨rfl, outcome⟩ | ⟨idx, data, rfl, outcome⟩ | ⟨secret, rfl, -⟩ | ⟨trust, rfl, -⟩ |
              ⟨rfl, -⟩ | ⟨-, response, outcome⟩
          · have frame := eraseFirmware_frame loop hw.flash
            refine Or.inl ⟨frame.1, fun cached => ?_⟩
            exact frame.2.1.trans (cached.trans (congrArg Uicr.sealRegister frame.1.symm))
          · have frame := writeFirmwareBlock_frame loop hw.flash idx data
            refine Or.inl ⟨frame.1, fun cached => ?_⟩
            exact frame.2.trans (cached.trans (congrArg Uicr.sealRegister frame.1.symm))
          · exact Or.inr (Or.inl ⟨loop, hw, radio, secret, rfl, rfl⟩)
          · by_cases verifies : VerifiesTwice platform loop.flash trust
            · by_cases wipes : loop.cachedSeal = uicrSealedSecret ∧ trust = .developer
              · obtain ⟨sealing, rfl⟩ := wipes
                exact Or.inr (Or.inr ⟨loop, hw, radio, rfl, rfl, verifies, sealing⟩)
              · refine Or.inl ?_
                rw [step_boot_of_verifies platform _ radio verifies,
                  ite_cond_eq_false _ _ (eq_false wipes)]
                exact ⟨rfl, fun _ => trivial⟩
            · refine Or.inl ?_
              rw [step_boot_of_fails platform _ radio verifies]
              exact ⟨rfl, id⟩
          · exact Or.inl ⟨rfl, fun _ => rfl⟩
          · refine Or.inl ?_
            rw [stepped, outcome]
            exact ⟨rfl, id⟩

end PrimeBle.Secret
