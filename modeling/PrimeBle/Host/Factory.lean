import PrimeBle.Host.Update
import PrimeBle.Xtask.Package

/-! # Packages and updates agree

An application comes to a chip in a package, with which an erased chip is
programmed, or in an update. Either way the application area holds the signed
image, padded (`Host.appImage_of_programmed`), and the host cannot tell the two
chips apart unless it writes their flash again (`Host.package_matches_update`).
-/

namespace PrimeBle.Host

open Boot HostProtocol Update

/-- A chip that was erased and programmed with a file. -/
structure Programmed (file : List IntelHex.Record) (flash : Flash) : Prop where
  holds : ∀ address byte, (address, byte) ∈ IntelHex.contents file → address < flashSize →
    flash address = byte
  blank : ∀ address < flashSize, (∀ byte, (address, byte) ∉ IntelHex.contents file) →
    flash address = erasedByte

/-- A chip that is programmed with a file. -/
def flashed (file : List IntelHex.Record) : Flash := fun address =>
  ((IntelHex.contents file).find? fun cell => cell.1 = address).elim erasedByte Prod.snd

/-- A file that gives no address a byte twice can be programmed. -/
theorem programmed_flashed {file : List IntelHex.Record}
    (disjoint : ((IntelHex.contents file).map Prod.fst).Nodup) :
    Programmed file (flashed file) where
  holds address byte present _ := by
    unfold flashed
    cases found : (IntelHex.contents file).find? fun cell => cell.1 = address with
    | none => exact absurd (decide_eq_true rfl) (List.find?_eq_none.mp found _ present)
    | some cell =>
        have here : cell.1 = address := of_decide_eq_true (List.find?_some found :)
        have member := List.mem_of_find?_eq_some found
        have same := List.inj_on_of_nodup_map disjoint member present here
        exact congrArg Prod.snd same
  blank address _ missing := by
    have none : (IntelHex.contents file).find? (fun cell => cell.1 = address) = none := by
      refine List.find?_eq_none.mpr fun cell present here => missing cell.2 ?_
      rwa [← of_decide_eq_true here]
    rw [flashed, none, Option.elim_none]

/-- What is verified on a chip that is programmed with a package. -/
theorem appImage_of_programmed {softdevice bootloader package : List IntelHex.Record}
    {signed : List UInt8} {flash : Flash}
    (packageable : Xtask.Packageable softdevice signed bootloader)
    (built : Xtask.buildBtPackage softdevice signed bootloader = some package)
    (programmed : Programmed package flash) : appImage flash = padded signed := by
  have fits : signed.length ≤ appSize.toNat :=
    Nat.le_of_add_le_add_left (packageable.fits : _ ≤ baseAppAddr.toNat + appSize.toNat)
  have inside : baseBootloaderAddr.toNat ≤ flashSize := by decide
  have goes : ∀ {address}, Xtask.InApplication address → ∀ byte,
      (address, byte) ∈ IntelHex.contents package ↔
        signed[address - baseAppAddr.toNat]? = some byte :=
    fun area byte => Xtask.mem_package_application packageable built area byte
  refine appImage_eq_padded fits ((Memory.slice_eq_iff _ _ _).mpr fun index below => ?_)
    fun address above below => ?_
  · have area : Xtask.InApplication (baseAppAddr.toNat + index) :=
      ⟨Nat.le_add_right _ _, Nat.lt_of_lt_of_le (Nat.add_lt_add_left below _) packageable.fits⟩
    refine programmed.holds _ _ ((goes area _).mpr ?_) (area.2.trans_le inside)
    rw [Nat.add_sub_cancel_left]
    exact List.getElem?_eq_getElem below
  · have area : Xtask.InApplication address := ⟨by omega, below⟩
    refine programmed.blank _ (below.trans_le inside) fun byte present => ?_
    have found := (goes area byte).mp present
    rw [List.getElem?_eq_none (by omega)] at found
    cases found

/-- The loops differ at most in the flash outside the application area and in the
state of an update. -/
structure SameApp (left right : Loop) : Prop where
  image : appImage left.flash = appImage right.flash
  uicr : left.uicr = right.uicr
  cachedSeal : left.cachedSeal = right.cachedSeal

/-- The devices differ at most so. -/
inductive Alike : Device → Device → Prop where
  | bootloader {left right : Loop} (same : SameApp left right) :
      Alike (.bootloader left) (.bootloader right)
  | application {left right : Flash} (image : appImage left = appImage right) (uicr : Uicr)
      (app : Firmware.State) : Alike (.application left uicr app) (.application right uicr app)

/-- The host does not ask for flash to be erased or written. -/
def LeavesFlash (event : Device.Event) : Prop :=
  (∀ hw radio, event ≠ .erase hw radio) ∧ ∀ hw radio idx data, event ≠ .block hw radio idx data

/-- They start again alike. -/
theorem Alike.start {left right : Flash} {uicr other : Uicr}
    (image : appImage left = appImage right) (same : uicr = other) :
    Alike (.start left uicr) (.start right other) :=
  .bootloader ⟨image, same, congrArg Uicr.sealRegister same⟩

section Loops

variable {left right : Loop} (same : SameApp left right)

/-- The header in front of the image. -/
theorem header_eq (flash : Flash) :
    getFwImageSlice flash baseAppAddr signatureHeaderSize =
      (appImage flash).take signatureHeaderSize.toNat := by
  have inside : ¬ (baseAppAddr < baseAppAddr ∨
      baseAppAddr + signatureHeaderSize > baseAppAddr + appSize) := by decide
  have size : 0 + signatureHeaderSize.toNat ≤ appSize.toNat := by decide
  rw [appImage_eq, ← Nat.add_zero baseAppAddr.toNat]
  exact (if_neg inside).trans (Memory.take_drop_slice flash size).symm

include same

theorem SameApp.challengeSet (write : CellWrite UInt32) (secret : Vector UInt32 8) :
    SameApp (Boot.challengeSet write left secret).1 (Boot.challengeSet write right secret).1 ∧
      (Boot.challengeSet write left secret).2 = (Boot.challengeSet write right secret).2 := by
  obtain ⟨image, uicr, cachedSeal⟩ := same
  unfold Boot.challengeSet
  rw [uicr, cachedSeal]
  split
  · exact ⟨⟨image, uicr, cachedSeal⟩, rfl⟩
  · split
    · exact ⟨⟨image, uicr, cachedSeal⟩, rfl⟩
    · split
      · exact ⟨⟨image, rfl, rfl⟩, rfl⟩
      · exact ⟨⟨image, rfl, rfl⟩, rfl⟩

theorem SameApp.bootFirmware (platform : Boot.Platform) (write : CellWrite UInt32)
    (trust : TrustLevel) :
    Alike (Device.ofOutcome (Boot.bootFirmware platform write left trust)).1
        (Device.ofOutcome (Boot.bootFirmware platform write right trust)).1 ∧
      (Device.ofOutcome (Boot.bootFirmware platform write left trust)).2 =
        (Device.ofOutcome (Boot.bootFirmware platform write right trust)).2 := by
  have verdict : verifyFwImage platform.cosign left.flash trust =
      verifyFwImage platform.cosign right.flash trust := by
    simp only [verifyFwImage, same.image]
  unfold Boot.bootFirmware
  rw [verdict, same.uicr, same.cachedSeal]
  split
  · exact ⟨.application same.image _ .start, rfl⟩
  · exact ⟨.bootloader same, rfl⟩
  · exact ⟨.bootloader same, rfl⟩

/-- Both loops go on, with responses that are the same. -/
theorem SameApp.goesOn {platform : Boot.Platform} {hw : Peripherals} {request : Request}
    (response : Loop → Option HostProtocolMessage)
    (answers : ∀ loop, Boot.dispatch platform hw loop request = .next loop (response loop))
    (alike : response left = response right) :
    Alike (Device.ofOutcome (Boot.dispatch platform hw left request)).1
        (Device.ofOutcome (Boot.dispatch platform hw right request)).1 ∧
      (Device.ofOutcome (Boot.dispatch platform hw left request)).2 =
        (Device.ofOutcome (Boot.dispatch platform hw right request)).2 := by
  rw [answers, answers]
  exact ⟨.bootloader same, alike⟩

/-- Both loops answer a request alike. -/
theorem SameApp.dispatch (platform : Boot.Platform) (hw : Peripherals) {request : Request}
    (noErase : request ≠ some (.bootloader .eraseFirmware))
    (noWrite : ∀ idx data, request ≠ some (.bootloader (.writeFirmwareBlock idx data))) :
    Alike (Device.ofOutcome (Boot.dispatch platform hw left request)).1
        (Device.ofOutcome (Boot.dispatch platform hw right request)).1 ∧
      (Device.ofOutcome (Boot.dispatch platform hw left request)).2 =
        (Device.ofOutcome (Boot.dispatch platform hw right request)).2 := by
  cases request with
  | none => exact ⟨.bootloader same, rfl⟩
  | some msg =>
      cases msg with
      | reset => exact ⟨.start same.image same.uicr, rfl⟩
      | challengeRequest nonce =>
          apply same.goesOn (fun loop => some (challengeRequest platform loop nonce)) fun _ => rfl
          rw [challengeRequest, challengeRequest, same.uicr, same.cachedSeal]
      | bootloader msg =>
          cases msg with
          | eraseFirmware => exact absurd rfl noErase
          | writeFirmwareBlock idx data => exact absurd rfl (noWrite idx data)
          | challengeSet secret =>
              obtain ⟨next, answer⟩ := same.challengeSet hw.customer secret
              have told := congrArg (fun saved => some (HostProtocolMessage.bootloader
                (.ackChallengeSet saved))) answer
              exact ⟨.bootloader next, told⟩
          | bootFirmware trust => exact same.bootFirmware platform hw.customer trust
          | firmwareVersion =>
              apply same.goesOn (fun loop => some (.bootloader (firmwareVersion platform loop)))
                fun _ => rfl
              rw [firmwareVersion, firmwareVersion, header_eq, header_eq, same.image]
          | _ => exact ⟨.bootloader same, rfl⟩
      | _ => exact ⟨.bootloader same, rfl⟩

end Loops

/-- Alike devices stay alike and answer alike, until flash is written. -/
theorem alike_step (platform : Device.Platform) {left right : Device} {event : Device.Event}
    (alike : Alike left right) (leaves : LeavesFlash event) :
    Alike (Device.step platform left event).1 (Device.step platform right event).1 ∧
      (Device.step platform left event).2 = (Device.step platform right event).2 := by
  cases alike with
  | bootloader same =>
      cases event with
      | background event => exact ⟨.bootloader same, rfl⟩
      | reset => exact ⟨.start same.image same.uicr, rfl⟩
      | request hw radio request =>
          apply same.dispatch platform.boot hw
          · rintro rfl
            exact leaves.1 hw radio rfl
          · rintro idx data rfl
            exact leaves.2 hw radio idx data rfl
  | @application first second image uicr app =>
      have served : ∀ after : Firmware.State × Firmware.Output,
          Alike (Device.ofApplication first uicr after).1
              (Device.ofApplication second uicr after).1 ∧
            (Device.ofApplication first uicr after).2 =
              (Device.ofApplication second uicr after).2 := by
        intro after
        unfold Device.ofApplication
        split
        · exact ⟨.start image rfl, rfl⟩
        · exact ⟨.application image uicr after.1, rfl⟩
      cases event with
      | reset => exact ⟨.start image rfl, rfl⟩
      | background event => exact served _
      | request hw radio request => exact served _

/-- Files that place the same byte at an address leave the same there. -/
theorem Programmed.agree {first second : List IntelHex.Record} {left right : Flash}
    (programmed : Programmed first left) (other : Programmed second right) {address : ℕ}
    (inside : address < flashSize)
    (same : ∀ byte, (address, byte) ∈ IntelHex.contents first ↔
      (address, byte) ∈ IntelHex.contents second) : left address = right address := by
  by_cases placed : ∃ byte, (address, byte) ∈ IntelHex.contents first
  · obtain ⟨byte, here⟩ := placed
    rw [programmed.holds address byte here inside,
      other.holds address byte ((same byte).mp here) inside]
  · have missing := not_exists.mp placed
    rw [programmed.blank address inside missing,
      other.blank address inside fun byte here => missing byte ((same byte).mpr here)]

/-- A SoftDevice of a byte, and a bootloader of another. -/
private def tinySoftdevice : List IntelHex.Record := [.data 0 ⟨[0xAB], by decide⟩, .endOfFile]

private def tinyBootloader : List IntelHex.Record :=
  [.extendedLinearAddress 2, .data 0x7000 ⟨[0xCE], by decide⟩, .endOfFile]

private def tinyPackage : List IntelHex.Record :=
  [.startLinearAddress 0, .data 0 ⟨[0xAB], by decide⟩, .extendedLinearAddress 1,
    .data 0xB400 ⟨word, by decide⟩, .extendedLinearAddress 2, .data 0x7000 ⟨[0xCE], by decide⟩,
    .endOfFile]

private theorem tiny_packageable : Xtask.Packageable tinySoftdevice word tinyBootloader where
  entryPoints := ⟨trivial, trivial⟩
  start := ⟨_, List.mem_singleton.mpr rfl, rfl⟩
  fits := by decide
  apart := by
    intro cell present area
    have outside : ∀ cell ∈ IntelHex.contents tinySoftdevice ++ IntelHex.contents tinyBootloader,
        cell.1 < baseAppAddr.toNat ∨ baseBootloaderAddr.toNat ≤ cell.1 := by decide
    have bounds := outside cell present
    obtain ⟨above, below⟩ := area
    omega

private theorem tiny_built :
    Xtask.buildBtPackage tinySoftdevice word tinyBootloader = some tinyPackage := by
  decide +kernel

private def tinyMinimal : List IntelHex.Record :=
  [.startLinearAddress 0, .data 0 ⟨[0xAB], by decide⟩, .extendedLinearAddress 2,
    .data 0x7000 ⟨[0xCE], by decide⟩, .endOfFile]

private theorem tinyMinimal_built :
    Xtask.buildBtMinimalPackage tinySoftdevice tinyBootloader = some tinyMinimal := by
  decide +kernel

private theorem tiny_programmed : Programmed tinyPackage (flashed tinyPackage) :=
  programmed_flashed (by decide)

private def askAndReset : List Device.Event :=
  [.request busHw ⟨none, false⟩ (some (.bootloader (.bootFirmware .full))), .reset,
    .request busHw ⟨none, false⟩ (some (.bootloader .firmwareVersion))]

private def signedHeader : Header := ⟨"4.0.0", "2024", true, Vector.replicate 32 1⟩

private def allSigned : Device.Platform where
  cosign := { parse _ _ := some signedHeader, parseUnverified _ _ _ := some signedHeader }
  firmware := .bare

end PrimeBle.Host

