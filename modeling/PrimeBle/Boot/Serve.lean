import PrimeBle.Boot.Main

/-! # What one iteration of the loop can do

Every later result about the bootloader starts from these lemmas: a request
falls into one of six kinds (`Boot.dispatch_cases`), and each of the four kinds
that write flash or UICR does one of a few things.
-/

namespace PrimeBle.Boot

open HostProtocol

/-- A request that neither writes flash or UICR nor ends the loop. -/
def Passive (request : Request) : Prop :=
  request ≠ some (.bootloader .eraseFirmware) ∧
    (∀ idx data, request ≠ some (.bootloader (.writeFirmwareBlock idx data))) ∧
    (∀ secret, request ≠ some (.bootloader (.challengeSet secret))) ∧
    (∀ trust, request ≠ some (.bootloader (.bootFirmware trust))) ∧ request ≠ some .reset

variable (platform : Platform) (hw : Peripherals) (loop : Loop)

/-- **The kinds of requests.** -/
theorem dispatch_cases (request : Request) :
    (request = some (.bootloader .eraseFirmware) ∧
      dispatch platform hw loop request = reply (eraseFirmware hw.flash loop)) ∨
    (∃ idx data, request = some (.bootloader (.writeFirmwareBlock idx data)) ∧
      dispatch platform hw loop request = reply (writeFirmwareBlock hw.flash loop idx data)) ∨
    (∃ secret, request = some (.bootloader (.challengeSet secret)) ∧
      dispatch platform hw loop request =
        reply ((challengeSet hw.customer loop secret).1,
          .ackChallengeSet (challengeSet hw.customer loop secret).2)) ∨
    (∃ trust, request = some (.bootloader (.bootFirmware trust)) ∧
      dispatch platform hw loop request = bootFirmware platform hw.customer loop trust) ∨
    (request = some .reset ∧ dispatch platform hw loop request = .sysReset loop) ∨
    (Passive request ∧ ∃ response, dispatch platform hw loop request = .next loop response) := by
  have passive : ∀ response, Passive request →
      dispatch platform hw loop request = .next loop response →
      Passive request ∧ ∃ response, dispatch platform hw loop request = .next loop response :=
    fun response quiet same => ⟨quiet, response, same⟩
  rcases request with _ | msg
  · exact .inr (.inr (.inr (.inr (.inr (passive _ (by simp [Passive]) rfl)))))
  · cases msg with
    | reset => exact .inr (.inr (.inr (.inr (.inl ⟨rfl, rfl⟩))))
    | bootloader msg =>
        cases msg with
        | eraseFirmware => exact .inl ⟨rfl, rfl⟩
        | writeFirmwareBlock idx data => exact .inr (.inl ⟨idx, data, rfl, rfl⟩)
        | challengeSet secret => exact .inr (.inr (.inl ⟨secret, rfl, rfl⟩))
        | bootFirmware trust => exact .inr (.inr (.inr (.inl ⟨trust, rfl, rfl⟩)))
        | _ => exact .inr (.inr (.inr (.inr (.inr (passive _ (by simp [Passive]) rfl)))))
    | _ => exact .inr (.inr (.inr (.inr (.inr (passive _ (by simp [Passive]) rfl)))))

/-- An image that verifies twice is booted, and a sealed secret is wiped first if
the firmware is a developer's. -/
theorem bootFirmware_of_valid (write : CellWrite UInt32) {trust : TrustLevel}
    {hash : Vector UInt8 32}
    (valid : verifyFwImage platform.cosign loop.flash trust = some (.valid, .valid, hash)) :
    bootFirmware platform write loop trust =
      .jumpToApp
        { loop with
          uicr :=
            if loop.cachedSeal = uicrSealedSecret ∧ trust = .developer then
              (writeSecret write loop.uicr (Vector.replicate 8 0) uicrSealedWiped).2
            else loop.uicr }
        (.bootloader (.ackVerifyFirmware true hash)) := by
  unfold bootFirmware
  rw [valid]

/-- Nothing else is booted. -/
theorem valid_of_jumpToApp {write : CellWrite UInt32} {trust : TrustLevel} {next : Loop}
    {sent : HostProtocolMessage}
    (jumps : bootFirmware platform write loop trust = .jumpToApp next sent) :
    ∃ hash, verifyFwImage platform.cosign loop.flash trust = some (.valid, .valid, hash) := by
  unfold bootFirmware at jumps
  split at jumps
  · next hash valid => exact ⟨hash, valid⟩
  · cases jumps
  · cases jumps

/-- Booting either leaves the loop or changes nothing. -/
theorem bootFirmware_next {write : CellWrite UInt32} {loop next : Loop} {trust : TrustLevel}
    {response : Option HostProtocolMessage}
    (goesOn : bootFirmware platform write loop trust = .next next response) : next = loop := by
  unfold bootFirmware at goesOn
  split at goesOn
  · cases goesOn
  · cases goesOn
    rfl
  · cases goesOn
    rfl

/-- **What the loop goes on with.** -/
theorem dispatch_next {request : Request} {next : Loop} {response : Option HostProtocolMessage}
    (goesOn : dispatch platform hw loop request = .next next response) :
    (request = some (.bootloader .eraseFirmware) ∧ next = (eraseFirmware hw.flash loop).1) ∨
    (∃ idx data, request = some (.bootloader (.writeFirmwareBlock idx data)) ∧
      next = (writeFirmwareBlock hw.flash loop idx data).1) ∨
    (∃ secret, request = some (.bootloader (.challengeSet secret)) ∧
      next = (challengeSet hw.customer loop secret).1) ∨
    next = loop := by
  rcases dispatch_cases platform hw loop request with
    ⟨same, outcome⟩ | ⟨idx, data, same, outcome⟩ | ⟨secret, same, outcome⟩ |
      ⟨trust, -, outcome⟩ | ⟨-, outcome⟩ | ⟨-, answer, outcome⟩
  · rw [outcome] at goesOn
    cases goesOn
    exact .inl ⟨same, rfl⟩
  · rw [outcome] at goesOn
    cases goesOn
    exact .inr (.inl ⟨idx, data, same, rfl⟩)
  · rw [outcome] at goesOn
    cases goesOn
    exact .inr (.inr (.inl ⟨secret, same, rfl⟩))
  · rw [outcome] at goesOn
    exact .inr (.inr (.inr (bootFirmware_next platform goesOn)))
  · rw [outcome] at goesOn
    cases goesOn
  · rw [outcome] at goesOn
    cases goesOn
    exact .inr (.inr (.inr rfl))

/-- A loop that is not left goes on. -/
theorem dispatch_goesOn {request : Request} (noReset : request ≠ some .reset)
    (noJump : ∀ next sent, dispatch platform hw loop request ≠ .jumpToApp next sent) :
    ∃ next response, dispatch platform hw loop request = .next next response := by
  rcases dispatch_cases platform hw loop request with
    ⟨-, outcome⟩ | ⟨idx, data, -, outcome⟩ | ⟨secret, -, outcome⟩ | ⟨trust, -, outcome⟩ |
      ⟨same, -⟩ | ⟨-, response, outcome⟩
  · exact ⟨_, _, outcome⟩
  · exact ⟨_, _, outcome⟩
  · exact ⟨_, _, outcome⟩
  · rw [outcome] at noJump ⊢
    unfold bootFirmware at noJump ⊢
    split at noJump
    · exact absurd rfl (noJump _ _)
    · exact ⟨_, _, rfl⟩
    · exact ⟨_, _, rfl⟩
  · exact absurd same noReset
  · exact ⟨_, _, outcome⟩

/-- Setting the secret leaves the update alone. -/
theorem challengeSet_frame (write : CellWrite UInt32) (secret : Vector UInt32 8) :
    (challengeSet write loop secret).1.flash = loop.flash ∧
      (challengeSet write loop secret).1.bootStatus = loop.bootStatus := by
  unfold challengeSet
  split
  · exact ⟨rfl, rfl⟩
  · split
    · exact ⟨rfl, rfl⟩
    · split <;> exact ⟨rfl, rfl⟩

/-- An erase attempt leaves the registers and their cache alone, and resets the
update state or leaves it alone too. -/
theorem eraseFirmware_frame (driver : FlashDriver) :
    (eraseFirmware driver loop).1.uicr = loop.uicr ∧
      (eraseFirmware driver loop).1.cachedSeal = loop.cachedSeal ∧
      ((eraseFirmware driver loop).1.bootStatus = loop.bootStatus ∨
        (eraseFirmware driver loop).1.bootStatus = {}) := by
  have unaligned : baseAppAddr / flashPage * flashPage ≠ baseAppAddr := by decide
  unfold eraseFirmware
  simp only [unaligned, ↓reduceIte]
  split
  · exact ⟨rfl, rfl, Or.inl rfl⟩
  · split
    · exact ⟨rfl, rfl, Or.inl rfl⟩
    · split
      · exact ⟨rfl, rfl, Or.inr rfl⟩
      · exact ⟨rfl, rfl, Or.inr rfl⟩

/-- What an erase request saves of the page before the area. -/
abbrev savedHead (driver : FlashDriver) (flash : Flash) : Option (List UInt8) :=
  driver.read flash (baseAppAddr / flashPage * flashPage) (baseAppAddr % flashPage).toNat

/-- What its erase leaves. -/
abbrev erasedPages (driver : FlashDriver) (flash : Flash) : Bool × Flash :=
  driver.erase flash (baseAppAddr / flashPage * flashPage) baseBootloaderAddr

/-- What is left once the saved bytes are written back. -/
abbrev restoredHead (driver : FlashDriver) (flash : Flash) (saved : List UInt8) : Bool × Flash :=
  driver.write (erasedPages driver flash).2 (baseAppAddr / flashPage * flashPage) saved

/-- What can become of an erase request: one of the three operations fails, or
all succeed. -/
theorem eraseFirmware_cases (driver : FlashDriver) :
    (savedHead driver loop.flash = none ∧
      eraseFirmware driver loop = (loop, .nackEraseFirmwareRead)) ∨
    (∃ saved, savedHead driver loop.flash = some saved ∧
      (erasedPages driver loop.flash).1 = false ∧
      eraseFirmware driver loop =
        ({ loop with flash := (erasedPages driver loop.flash).2 }, .nackEraseFirmware)) ∨
    (∃ saved, savedHead driver loop.flash = some saved ∧
      (erasedPages driver loop.flash).1 = true ∧
      (restoredHead driver loop.flash saved).1 = false ∧
      eraseFirmware driver loop =
        ({ loop with
            flash := (restoredHead driver loop.flash saved).2
            bootStatus := loop.bootStatus.reset }, .nackEraseFirmwareWrite)) ∨
    (∃ saved, savedHead driver loop.flash = some saved ∧
      (erasedPages driver loop.flash).1 = true ∧
      (restoredHead driver loop.flash saved).1 = true ∧
      eraseFirmware driver loop =
        ({ loop with
            flash := (restoredHead driver loop.flash saved).2
            bootStatus := loop.bootStatus.reset }, .ackEraseFirmware)) := by
  have unaligned : baseAppAddr / flashPage * flashPage ≠ baseAppAddr := by decide
  simp only [eraseFirmware, unaligned, ↓reduceIte, savedHead, erasedPages, restoredHead]
  cases driver.read loop.flash (baseAppAddr / flashPage * flashPage)
    (baseAppAddr % flashPage).toNat with
  | none => exact Or.inl ⟨rfl, rfl⟩
  | some saved =>
      obtain ⟨erased, pages⟩ :=
        driver.erase loop.flash (baseAppAddr / flashPage * flashPage) baseBootloaderAddr
      cases erased with
      | false => exact Or.inr (Or.inl ⟨saved, rfl, rfl, rfl⟩)
      | true =>
          rcases written : driver.write pages (baseAppAddr / flashPage * flashPage) saved
            with ⟨_ | _, head⟩
          · exact Or.inr (Or.inr (Or.inl ⟨saved, rfl, rfl, by simp only [written],
              by simp only [written]⟩))
          · exact Or.inr (Or.inr (Or.inr ⟨saved, rfl, rfl, by simp only [written],
              by simp only [written]⟩))

/-- The check on the cursor before a block is written. -/
def Loop.InArea (loop : Loop) : Prop :=
  baseAppAddr ≤ loop.cursor ∧ loop.cursor ≤ baseBootloaderAddr

/-- The block is handed to the flash controller, which accepts it. -/
def Loop.Accepts (loop : Loop) (driver : FlashDriver) (data : List UInt8) : Prop :=
  loop.InArea ∧ (driver.write loop.flash loop.cursor data).1 = true

variable (driver : FlashDriver) (idx : UInt32) (data : List UInt8)

/-- An accepted block advances the update state and is acknowledged. -/
theorem writeFirmwareBlock_of_accepts {loop : Loop} {data : List UInt8}
    (accepts : loop.Accepts driver data) :
    writeFirmwareBlock driver loop idx data =
      ({ loop with
          flash := (driver.write loop.flash loop.cursor data).2
          bootStatus := loop.bootStatus.advance idx data.length },
        .ackWithIdxCrc idx (Crc32.iscsi.checksum data)) := by
  obtain ⟨inArea, accepted⟩ := accepts
  unfold Loop.InArea at inArea
  unfold writeFirmwareBlock
  simp only [inArea, and_self, ↓reduceIte]
  generalize driver.write loop.flash loop.cursor data = result at accepted
  obtain ⟨ok, flash⟩ := result
  subst accepted
  rfl

/-- A block the controller refuses leaves the update state alone. -/
theorem writeFirmwareBlock_of_refused {loop : Loop} {data : List UInt8} (inArea : loop.InArea)
    (refused : (driver.write loop.flash loop.cursor data).1 = false) :
    writeFirmwareBlock driver loop idx data =
      ({ loop with flash := (driver.write loop.flash loop.cursor data).2 }, .nackWithIdx idx) := by
  unfold Loop.InArea at inArea
  unfold writeFirmwareBlock
  simp only [inArea, and_self, ↓reduceIte]
  generalize driver.write loop.flash loop.cursor data = result at refused
  obtain ⟨ok, flash⟩ := result
  subst refused
  rfl

/-- A block whose cursor fails the check changes nothing. -/
theorem writeFirmwareBlock_of_outside {loop : Loop} (outside : ¬ loop.InArea) :
    writeFirmwareBlock driver loop idx data = (loop, .firmwareOutOfBounds idx) := by
  unfold Loop.InArea at outside
  unfold writeFirmwareBlock
  simp only [outside, ↓reduceIte]

/-- What can become of a block. -/
theorem writeFirmwareBlock_cases :
    (loop.Accepts driver data ∧
      writeFirmwareBlock driver loop idx data =
        ({ loop with
            flash := (driver.write loop.flash loop.cursor data).2
            bootStatus := loop.bootStatus.advance idx data.length },
          .ackWithIdxCrc idx (Crc32.iscsi.checksum data))) ∨
    ((loop.InArea ∧ (driver.write loop.flash loop.cursor data).1 = false) ∧
      writeFirmwareBlock driver loop idx data =
        ({ loop with flash := (driver.write loop.flash loop.cursor data).2 },
          .nackWithIdx idx)) ∨
    (¬ loop.InArea ∧
      writeFirmwareBlock driver loop idx data = (loop, .firmwareOutOfBounds idx)) := by
  by_cases inArea : loop.InArea
  · cases verdict : (driver.write loop.flash loop.cursor data).1 with
    | true =>
        exact .inl ⟨⟨inArea, verdict⟩, writeFirmwareBlock_of_accepts driver idx ⟨inArea, verdict⟩⟩
    | false =>
        exact .inr (.inl ⟨⟨inArea, rfl⟩, writeFirmwareBlock_of_refused driver idx inArea verdict⟩)
  · exact .inr (.inr ⟨inArea, writeFirmwareBlock_of_outside driver idx data inArea⟩)

/-- A block leaves the registers and their cache alone. -/
theorem writeFirmwareBlock_frame :
    (writeFirmwareBlock driver loop idx data).1.uicr = loop.uicr ∧
      (writeFirmwareBlock driver loop idx data).1.cachedSeal = loop.cachedSeal := by
  rcases writeFirmwareBlock_cases loop driver idx data with
    ⟨-, answer⟩ | ⟨-, answer⟩ | ⟨-, answer⟩
  · rw [answer]
    exact ⟨rfl, rfl⟩
  · rw [answer]
    exact ⟨rfl, rfl⟩
  · rw [answer]
    exact ⟨rfl, rfl⟩

theorem BootState.advance_offset {bootStatus : BootState} {len : ℕ}
    (short : bootStatus.offset.toNat + len < 2 ^ 32) :
    (bootStatus.advance idx len).offset.toNat = bootStatus.offset.toNat + len := by
  change (bootStatus.offset + UInt32.ofNat len).toNat = _
  rw [UInt32.toNat_add, UInt32.toNat_ofNat']
  omega

/-- Inside the area, the cursor does not wrap around. -/
theorem Loop.cursor_toNat {loop : Loop} (below : loop.bootStatus.offset.toNat ≤ appSize.toNat) :
    loop.cursor.toNat = baseAppAddr.toNat + loop.bootStatus.offset.toNat := by
  have size : appSize.toNat = 0xBC00 := rfl
  have base : baseAppAddr.toNat = 0x1B400 := rfl
  unfold Loop.cursor
  rw [UInt32.toNat_add, base]
  omega

/-- The check passes exactly for offsets up to, and including, the area's size. -/
theorem Loop.inArea_iff : loop.InArea ↔ loop.bootStatus.offset.toNat ≤ appSize.toNat := by
  have size : appSize.toNat = 0xBC00 := rfl
  have base : baseAppAddr.toNat = 0x1B400 := rfl
  have top : baseBootloaderAddr.toNat = 0x27000 := rfl
  have bound := loop.bootStatus.offset.toNat_lt
  unfold Loop.InArea Loop.cursor
  rw [UInt32.le_iff_toNat_le, UInt32.le_iff_toNat_le, UInt32.toNat_add, base, top, size]
  omega

/-- What the documented driver accepts. -/
theorem Loop.accepts_iff {driver : FlashDriver} (spec : driver.Nvmc) {loop : Loop}
    {data : List UInt8} :
    loop.Accepts driver data ↔ loop.InArea ∧ Writable loop.cursor data := by
  unfold Loop.Accepts
  by_cases words : Writable loop.cursor data
  · rw [spec.write_eq _ _ _ words]
    simp only [words]
  · rw [spec.write_err _ _ _ words]
    simp only [words, Bool.false_eq_true]

/-- Whole words of a receive buffer are accepted wherever the check passes: the
flash goes on for a while after the application area. -/
theorem Loop.accepts_of_words {driver : FlashDriver} (spec : driver.Nvmc) {loop : Loop}
    {data : List UInt8} (below : loop.bootStatus.offset.toNat ≤ appSize.toNat)
    (aligned : loop.bootStatus.offset.toNat % 4 = 0) (words : data.length % 4 = 0)
    (short : data.length ≤ rawBufSize) : loop.Accepts driver data := by
  have size : appSize.toNat = 0xBC00 := rfl
  have base : baseAppAddr.toNat = 0x1B400 := rfl
  unfold rawBufSize at short
  refine (Loop.accepts_iff spec).mpr ⟨(Loop.inArea_iff loop).mpr below, ?_⟩
  unfold Writable flashSize
  rw [Loop.cursor_toNat below]
  omega

end PrimeBle.Boot
