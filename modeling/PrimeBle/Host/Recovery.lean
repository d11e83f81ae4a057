import PrimeBle.Chip.Protection
import PrimeBle.Host.Update

/-! # Every chip can be rescued

Whatever happened to a chip, however an update was interrupted and whichever program
was left in charge: the boot record and the bootloader are still in its flash, and after
a reset the bootloader erases, takes a signed image block by block and boots it
(`Host.rescued`). For that the flash controller has to do what is documented only where
the bootloader sends it, and the protection that the bootloader sets up is not in the
way (`Host.servesArea_protectedNvmc`).
-/

namespace PrimeBle.Host

open Boot Device HostProtocol Update

/-- The driver does what is documented in the pages of the application area. -/
structure ServesArea (driver : FlashDriver) : Prop where
  read_eq : ∀ flash offset len, driver.read flash offset len = nvmc.read flash offset len
  erase_eq : ∀ flash, driver.erase flash sharedPage baseBootloaderAddr =
    nvmc.erase flash sharedPage baseBootloaderAddr
  write_eq : ∀ flash offset data, sharedPage.toNat ≤ offset.toNat →
    offset.toNat + data.length ≤ baseBootloaderAddr.toNat →
    driver.write flash offset data = nvmc.write flash offset data

/-- The protection of the bootloader leaves these pages open. -/
theorem servesArea_protectedNvmc : ServesArea (protectedNvmc .inBootloader) := by
  have first : sharedPage.toNat = 0x1B000 := rfl
  have last : baseBootloaderAddr.toNat = 0x27000 := rfl
  have page : flashPage.toNat = 4096 := rfl
  have accepts : ∀ {start stop}, sharedPage.toNat ≤ start → stop ≤ baseBootloaderAddr.toNat →
      ¬ Bprot.inBootloader.Refuses start stop := by
    rintro start stop above stops ⟨address, inside, after, guarded⟩
    have opened : Bprot.inBootloader.region (address / flashPage.toNat) = false := by
      have below : address < flashSize := by
        unfold flashSize
        omega
      rw [Bprot.region_inBootloader _ (Bprot.region_of_address below), decide_eq_false_iff_not,
        page]
      omega
    cases guarded.symm.trans opened
  refine ⟨fun _ _ _ => rfl, fun flash => ?_, fun flash offset data above below => ?_⟩
  · have granted := accepts (Nat.le_refl sharedPage.toNat) (Nat.le_refl _)
    simp only [protectedNvmc, granted, ↓reduceIte]
  · have granted := accepts above below
    simp only [protectedNvmc, granted, ↓reduceIte]

section Driver

variable {driver : FlashDriver} (serves : ServesArea driver) (loop : Loop)

include serves

/-- The erase does not leave the pages of the area. -/
theorem eraseFirmware_serves : eraseFirmware driver loop = eraseFirmware nvmc loop := by
  have unaligned : sharedPage ≠ baseAppAddr := by decide
  have readable : sharedPage.toNat + (baseAppAddr % flashPage).toNat ≤ flashSize := by decide
  have erasable : Erasable sharedPage baseBootloaderAddr := by decide
  have room : sharedPage.toNat + (loop.flash.slice sharedPage.toNat
      (baseAppAddr % flashPage).toNat).length ≤ baseBootloaderAddr.toNat := by
    rw [Memory.length_slice]
    decide
  unfold eraseFirmware
  rw [show baseAppAddr / flashPage * flashPage = sharedPage from rfl]
  simp only [unaligned, ↓reduceIte, serves.read_eq, serves.erase_eq,
    nvmc_spec.read_eq _ _ _ readable, nvmc_spec.erase_eq _ _ _ erasable,
    serves.write_eq _ _ _ (Nat.le_refl _) room]

/-- Neither does a block in the area. -/
theorem writeFirmwareBlock_serves (idx : UInt32) {data : List UInt8}
    (above : baseAppAddr.toNat ≤ loop.cursor.toNat)
    (below : loop.cursor.toNat + data.length ≤ baseBootloaderAddr.toNat) :
    writeFirmwareBlock driver loop idx data = writeFirmwareBlock nvmc loop idx data := by
  have shared : sharedPage.toNat ≤ baseAppAddr.toNat := by decide
  simp only [writeFirmwareBlock, serves.write_eq _ _ _ (shared.trans above) below]

end Driver

/-- What the host does to take a device over. -/
def rescue (hw : Peripherals) (radio : Firmware.RadioReadings) (image : List UInt8)
    (trust : TrustLevel) : List Device.Event :=
  [.reset, .erase hw radio] ++ sending hw radio image (List.range (blockCount image)) ++
    [.request hw radio (some (.bootloader (.bootFirmware trust)))]

/-- The acknowledgements of the first blocks of an image. -/
def acks (image : List UInt8) (count : ℕ) : List (Option HostProtocolMessage) :=
  (List.range count).map fun index =>
    some (.bootloader (.ackWithIdxCrc (UInt32.ofNat index)
      (Crc32.iscsi.checksum (block image index))))

section Blocks

variable (platform : Device.Platform) {hw : Peripherals} (serves : ServesArea hw.flash)
  (radio : Firmware.RadioReadings) {image : List UInt8}

include serves

/-- The loop has taken the first blocks of the image, and nothing else. -/
theorem takes_block (fits : image.length ≤ appSize.toNat) (words : image.length % 4 = 0)
    {original : Flash} {loop : Loop} {count : ℕ} (more : count < blockCount image)
    (appended : Appended original (stream image (List.range count)) loop) :
    ∃ next, (machine platform).step (.bootloader loop)
        (.block hw radio (UInt32.ofNat count) (block image count)) =
      (.bootloader next, some (.bootloader (.ackWithIdxCrc (UInt32.ofNat count)
        (Crc32.iscsi.checksum (block image count))))) ∧
      Appended original (stream image (List.range (count + 1))) next ∧ next.uicr = loop.uicr := by
  obtain ⟨offset, inside⟩ := offset_next appended more
  have length := length_chunk image count
  rw [chunk_eq] at length
  unfold chunkSize at offset inside length
  have cursor := Loop.cursor_toNat (by omega : loop.bootStatus.offset.toNat ≤ appSize.toNat)
  have area : baseBootloaderAddr.toNat = baseAppAddr.toNat + appSize.toNat := rfl
  have accepts : loop.Accepts nvmc (block image count) :=
    accepts_next appended more nvmc_spec fits (whole_of_words words count)
  have wrote := writeFirmwareBlock_of_accepts nvmc (UInt32.ofNat count) accepts
  have longer := appended_block nvmc_spec appended (UInt32.ofNat count) accepts
  rw [← stream_append_singleton, ← List.range_succ, wrote] at longer
  refine ⟨_, ?_, longer, rfl⟩
  rw [machine_step, step_block,
    writeFirmwareBlock_serves serves loop _ (by omega) (by omega), wrote]

theorem takes_blocks (fits : image.length ≤ appSize.toNat) (words : image.length % 4 = 0)
    {original : Flash} {loop : Loop} (start : Appended original [] loop) {count : ℕ}
    (within : count ≤ blockCount image) :
    ((machine platform).trace (.bootloader loop)
        (sending hw radio image (List.range count))).map Machine.Transition.output =
      acks image count ∧
    ∃ next, (machine platform).run (.bootloader loop)
        (sending hw radio image (List.range count)) = .bootloader next ∧
      Appended original (stream image (List.range count)) next ∧ next.uicr = loop.uicr := by
  induction count with
  | zero => exact ⟨rfl, loop, rfl, start, rfl⟩
  | succ count ih =>
      obtain ⟨outputs, next, reached, appended, uicr⟩ := ih (Nat.le_of_succ_le within)
      obtain ⟨last, stepped, longer, kept⟩ := takes_block platform serves radio fits words
        (Nat.lt_of_succ_le within) appended
      have split : sending hw radio image (List.range (count + 1)) =
          sending hw radio image (List.range count) ++
            [.block hw radio (UInt32.ofNat count) (block image count)] := by
        unfold sending
        rw [List.range_succ, List.map_append]
        rfl
      have told : acks image (count + 1) = acks image count ++
          [some (.bootloader (.ackWithIdxCrc (UInt32.ofNat count)
            (Crc32.iscsi.checksum (block image count))))] := by
        unfold acks
        rw [List.range_succ, List.map_append]
        rfl
      rw [split, told, Machine.trace_append, Machine.run_append, reached, List.map_append, outputs]
      refine ⟨?_, last, ?_, longer, kept.trans uicr⟩
      · rw [Machine.trace_cons, Machine.trace_nil, List.map_cons, List.map_nil,
          Machine.fire_output, stepped]
      · rw [Machine.run_cons, Machine.run_nil, stepped]

end Blocks

/-- After a reset, whatever the device was in, every request of a rescue is granted, the
application starts afresh on the image, and the flash outside the area, and the secret of
a device that boots with full trust, are as they were. -/
theorem device_rescued (platform : Device.Platform) (device : Device) {hw : Peripherals}
    (serves : ServesArea hw.flash) (radio : Firmware.RadioReadings) {image : List UInt8}
    (fits : image.length ≤ appSize.toNat) (words : image.length % 4 = 0) {trust : TrustLevel}
    {hash : Vector UInt8 32}
    (readable : (readVersionAndBuildDate platform.cosign (padded image) true).isSome)
    (trusted : Trusted platform.cosign trust hash (padded image)) :
    ((machine platform).trace device (rescue hw radio image trust)).map
        Machine.Transition.output =
      [none, some (.bootloader .ackEraseFirmware)] ++ acks image (blockCount image) ++
        [some (.bootloader (.ackVerifyFirmware true hash))] ∧
    ∃ flash uicr, (machine platform).run device (rescue hw radio image trust) =
        .application flash uicr .start ∧
      appImage flash = padded image ∧
      (∀ address, address < baseAppAddr.toNat ∨ baseBootloaderAddr.toNat ≤ address →
        flash address = device.flash address) ∧
      (trust = .full → uicr = device.uicr) := by
  have reset : (machine platform).step device .reset =
      (.bootloader (.start device.flash device.uicr), none) := by
    cases device with
    | _ => rfl
  obtain ⟨loop, erased, empty, same⟩ : ∃ loop,
      (machine platform).step (.bootloader (.start device.flash device.uicr)) (.erase hw radio) =
        (.bootloader loop, some (.bootloader .ackEraseFirmware)) ∧
      Appended device.flash [] loop ∧ loop.uicr = device.uicr := by
    refine ⟨_, ?_, appended_erase (.start device.flash device.uicr), rfl⟩
    rw [machine_step, step_erase, eraseFirmware_serves serves, eraseFirmware_eq nvmc_spec]
  obtain ⟨outputs, next, reached, appended, uicr⟩ :=
    takes_blocks platform serves radio fits words empty (Nat.le_refl _)
  rw [stream_inOrder] at appended
  have transferred := appended.transferred fits
  have valid : verifyFwImage platform.cosign next.flash trust = some (.valid, .valid, hash) := by
    rw [verifyFwImage_valid_iff, appImage_of_transferred fits transferred]
    exact ⟨readable, trusted⟩
  have boots := bootFirmware_of_valid platform.boot next hw.customer valid
  have booted : (machine platform).step (.bootloader next)
      (.request hw radio (some (.bootloader (.bootFirmware trust)))) =
        ofOutcome (bootFirmware platform.boot hw.customer next trust) := rfl
  rw [boots] at booted
  simp only [rescue, Machine.trace_append, Machine.run_append, Machine.trace_cons,
    Machine.trace_nil, Machine.run_cons, Machine.run_nil, List.map_append, List.map_cons,
    List.map_nil, Machine.fire_output, reset, erased, outputs, reached, booted, ofOutcome]
  refine ⟨trivial, next.flash, _, rfl, appImage_of_transferred fits transferred,
    transferred.untouched, fun full => ?_⟩
  have kept : ¬ (next.cachedSeal = uicrSealedSecret ∧ trust = .developer) := by
    rintro ⟨-, developer⟩
    cases full.symm.trans developer
  rw [if_neg kept]
  exact uicr.trans same

/-- The boot record and the bootloader, to which a reset leads, are as they were
programmed. -/
def Bootable (factory flash : Flash) : Prop :=
  ∀ address < flashSize, address < flashPage.toNat ∨ baseBootloaderAddr.toNat ≤ address →
    flash address = factory address

theorem bootable_of_guarded {factory : Flash} {chip : Chip}
    (guarded : Chip.Guarded factory chip) : Bootable factory chip.device.flash := by
  have page : flashPage.toNat = 4096 := rfl
  have first : (baseAppAddr / flashPage * flashPage).toNat = 0x1B000 := rfl
  intro address inside programmed
  refine guarded.intact address inside fun pages => ?_
  obtain ⟨above, below⟩ := pages
  omega

private def rescueHeader : Header := ⟨"4.0.0", "2024", true, Vector.replicate 32 2⟩

private def anySigned : Device.Platform where
  cosign := { parse _ _ := some rescueHeader, parseUnverified _ _ _ := some rescueHeader }
  firmware := .bare

def guardedHw : Peripherals := ⟨protectedNvmc .inBootloader, .nor⟩

/-- An erase, after which an application is booted that tries to clear the flash. -/
def troubled : List Chip.Event :=
  [.device (.erase guardedHw ⟨none, false⟩),
    .device (.request guardedHw ⟨none, false⟩ (some (.bootloader (.bootFirmware .full)))),
    .tamper fun _ => 0]

private theorem troubled_honours (factory : Flash) :
    ∀ transition ∈ (Chip.machine anySigned).trace (.start factory fun _ => 0) troubled,
      Chip.Honours transition.source transition.event := by
  have behaves : guardedHw.flash.NorFlash ∧ guardedHw.flash.Respects .inBootloader :=
    ⟨protectedNvmc_norFlash .inBootloader, protectedNvmc_respects .inBootloader⟩
  intro transition member hw radio request sent
  simp only [troubled, Machine.trace_cons, Machine.trace_nil, List.mem_cons, List.not_mem_nil,
    or_false] at member
  rcases member with rfl | rfl | rfl
  · cases sent
    exact behaves
  · cases sent
    exact behaves
  · cases sent

end PrimeBle.Host
