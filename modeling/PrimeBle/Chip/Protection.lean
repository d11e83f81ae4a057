import PrimeBle.Boot.Serve
import PrimeBle.Device

/-! # Flash protection across resets and boots

The chip can protect each 4 KiB region of flash against erases and writes, until
the next reset. After a reset the bootloader protects the boot record and itself,
and before it boots an application it protects everything else. Whatever the
controller and the host do, no byte outside of the pages of the application area
ever changes, and none at all while an application runs, even one that tries to
write flash itself (`Chip.only_area_changes`).
-/

namespace PrimeBle

open Boot HostProtocol

/-- The protection registers, one bit for each region. -/
structure Bprot where
  config0 : UInt32
  config1 : UInt32
  deriving DecidableEq, Repr

namespace Bprot

/-- The registers after a reset. -/
def cleared : Bprot := ⟨0, 0⟩

/-- A register value with the fields of the given regions enabled. -/
def enabled (regions : List ℕ) : UInt32 :=
  regions.foldl (fun bits region => bits ||| (1 <<< UInt32.ofNat (region % 32))) 0

/-- Writing a one enables a region, and writing a zero does nothing. -/
def write (bprot : Bprot) (config0 config1 : UInt32) : Bprot where
  config0 := bprot.config0 ||| config0
  config1 := bprot.config1 ||| config1

/-- Protect the boot record and the bootloader. -/
def flashProtectMbrBootloader (bprot : Bprot) : Bprot :=
  bprot.write (enabled [0]) (enabled [47, 46, 45, 44, 43, 42, 41, 40, 39])

/-- Protect the SoftDevice and the application. -/
def flashProtectSdApplication (bprot : Bprot) : Bprot :=
  bprot.write
    (enabled [1, 2, 3, 4, 5, 6, 7, 8, 9, 10, 11, 12, 13, 14, 15, 16, 17, 18, 19, 20, 21, 22, 23,
      24, 25, 26, 27, 28, 29, 30, 31])
    (enabled [32, 33, 34, 35, 36, 37, 38])

/-- The region is protected. -/
def region (bprot : Bprot) (index : ℕ) : Bool :=
  if index < 32 then bprot.config0.toBitVec.getLsbD index
  else bprot.config1.toBitVec.getLsbD (index - 32)

/-- The byte lies in a protected region. -/
def protects (bprot : Bprot) (address : ℕ) : Bool := bprot.region (address / flashPage.toNat)

/-- What an attempt to change the flash leaves of it. -/
def guard (bprot : Bprot) (flash attempt : Flash) : Flash := fun address =>
  if bprot.protects address then flash address else attempt address

/-- The registers while the bootloader runs. -/
def inBootloader : Bprot := cleared.flashProtectMbrBootloader

/-- The registers while an application runs. -/
def inApplication : Bprot := inBootloader.flashProtectSdApplication

/-- The bootloader's part is the page of the boot record and its own pages. -/
theorem region_inBootloader :
    ∀ index < 48, inBootloader.region index = decide (index = 0 ∨ 39 ≤ index) := by
  decide

/-- The two parts make up the whole flash. -/
theorem region_inApplication : ∀ index < 48, inApplication.region index = true := by
  decide

theorem region_of_address {address : ℕ} (inside : address < flashSize) :
    address / flashPage.toNat < 48 := by
  have page : flashPage.toNat = 4096 := rfl
  unfold flashSize at inside
  rw [page]
  omega

theorem protects_inBootloader {address : ℕ} (inside : address < flashSize)
    (outside : address < flashPage.toNat ∨ baseBootloaderAddr.toNat ≤ address) :
    inBootloader.protects address = true := by
  have page : flashPage.toNat = 4096 := rfl
  have base : baseBootloaderAddr.toNat = 0x27000 := rfl
  unfold protects
  rw [region_inBootloader _ (region_of_address inside), decide_eq_true_eq, page]
  omega

theorem protects_inApplication {address : ℕ} (inside : address < flashSize) :
    inApplication.protects address = true :=
  region_inApplication _ (region_of_address inside)

end Bprot

/-- The controller leaves protected regions alone. -/
def Boot.FlashDriver.Respects (driver : FlashDriver) (bprot : Bprot) : Prop :=
  ∀ flash address, bprot.protects address = true →
    (∀ first last, (driver.erase flash first last).2 address = flash address) ∧
      ∀ offset data, (driver.write flash offset data).2 address = flash address

/-- The operation would touch a protected byte. -/
def Bprot.Refuses (bprot : Bprot) (first last : ℕ) : Prop :=
  ∃ address < last, first ≤ address ∧ bprot.protects address = true

instance (bprot : Bprot) (first last : ℕ) : Decidable (bprot.Refuses first last) :=
  inferInstanceAs (Decidable (∃ address < last, _ ∧ _))

/-- A controller that refuses what touches a protected region. -/
def protectedNvmc (bprot : Bprot) : FlashDriver where
  read := nvmc.read
  erase flash first last :=
    if bprot.Refuses first.toNat last.toNat then (false, flash) else nvmc.erase flash first last
  write flash offset data :=
    if bprot.Refuses offset.toNat (offset.toNat + data.length) then (false, flash)
    else nvmc.write flash offset data

/-- Outside of its range, an operation changes nothing, whether it succeeds or not. -/
theorem Boot.FlashDriver.NorFlash.erase_outside {driver : FlashDriver} (contract : driver.NorFlash)
    (flash : Flash) {first last : UInt32} {address : ℕ}
    (outside : address < first.toNat ∨ last.toNat ≤ address) :
    (driver.erase flash first last).2 address = flash address := by
  cases erased : (driver.erase flash first last).1 with
  | true =>
      rw [contract.erase_ok flash first last erased]
      exact Memory.fill_outside outside
  | false =>
      rcases contract.erase_err flash first last erased address with same | ⟨lower, upper, -⟩
      · exact same
      · omega

theorem Boot.FlashDriver.NorFlash.write_outside {driver : FlashDriver} (contract : driver.NorFlash)
    (flash : Flash) {offset : UInt32} {data : List UInt8} {address : ℕ}
    (outside : address < offset.toNat ∨ offset.toNat + data.length ≤ address) :
    (driver.write flash offset data).2 address = flash address := by
  cases written : (driver.write flash offset data).1 with
  | true =>
      rw [contract.write_ok flash offset data written]
      exact Memory.program_outside .nor outside
  | false =>
      rcases contract.write_err flash offset data written address with same | ⟨lower, upper, -⟩
      · exact same
      · omega

theorem protectedNvmc_norFlash (bprot : Bprot) : (protectedNvmc bprot).NorFlash where
  read_ok := nvmc_norFlash.read_ok
  erase_ok flash first last erased := by
    by_cases refused : bprot.Refuses first.toNat last.toNat
    · simp only [protectedNvmc, refused, ↓reduceIte, Bool.false_eq_true] at erased
    · simp only [protectedNvmc, refused, ↓reduceIte] at erased ⊢
      exact nvmc_norFlash.erase_ok flash first last erased
  erase_err flash first last failed address := by
    by_cases refused : bprot.Refuses first.toNat last.toNat
    · simp only [protectedNvmc, refused, ↓reduceIte, true_or]
    · simp only [protectedNvmc, refused, ↓reduceIte] at failed ⊢
      exact nvmc_norFlash.erase_err flash first last failed address
  write_ok flash offset data written := by
    by_cases refused : bprot.Refuses offset.toNat (offset.toNat + data.length)
    · simp only [protectedNvmc, refused, ↓reduceIte, Bool.false_eq_true] at written
    · simp only [protectedNvmc, refused, ↓reduceIte] at written ⊢
      exact nvmc_norFlash.write_ok flash offset data written
  write_err flash offset data failed address := by
    by_cases refused : bprot.Refuses offset.toNat (offset.toNat + data.length)
    · simp only [protectedNvmc, refused, ↓reduceIte, true_or]
    · simp only [protectedNvmc, refused, ↓reduceIte] at failed ⊢
      exact nvmc_norFlash.write_err flash offset data failed address

theorem protectedNvmc_respects (bprot : Bprot) : (protectedNvmc bprot).Respects bprot := by
  intro flash address guarded
  constructor
  · intro first last
    by_cases refused : bprot.Refuses first.toNat last.toNat
    · simp only [protectedNvmc, refused, ↓reduceIte]
    · have outside : address < first.toNat ∨ last.toNat ≤ address := by
        by_contra inside
        exact refused ⟨address, by omega, by omega, guarded⟩
      simp only [protectedNvmc, refused, ↓reduceIte]
      exact nvmc_norFlash.erase_outside flash outside
  · intro offset data
    by_cases refused : bprot.Refuses offset.toNat (offset.toNat + data.length)
    · simp only [protectedNvmc, refused, ↓reduceIte]
    · have outside : address < offset.toNat ∨ offset.toNat + data.length ≤ address := by
        by_contra inside
        exact refused ⟨address, by omega, by omega, guarded⟩
      simp only [protectedNvmc, refused, ↓reduceIte]
      exact nvmc_norFlash.write_outside flash outside

/-- The bytes an update may change: those of the pages of the application area. -/
def InAppPages (address : ℕ) : Prop :=
  (baseAppAddr / flashPage * flashPage).toNat ≤ address ∧ address < baseBootloaderAddr.toNat

section Serving

variable {driver : FlashDriver} (contract : driver.NorFlash) (loop : Loop) {address : ℕ}
  (outside : ¬ InAppPages address)
include contract outside

/-- An erase request changes the pages of the area alone. -/
theorem eraseFirmware_outside :
    (eraseFirmware driver loop).1.flash address = loop.flash address := by
  have start : (baseAppAddr / flashPage * flashPage).toNat = 0x1B000 := rfl
  have top : baseBootloaderAddr.toNat = 0x27000 := rfl
  have head : (baseAppAddr % flashPage).toNat = 0x400 := rfl
  unfold InAppPages at outside
  have erased : (erasedPages driver loop.flash).2 address = loop.flash address :=
    contract.erase_outside loop.flash (by omega)
  have restored : ∀ saved, savedHead driver loop.flash = some saved →
      (restoredHead driver loop.flash saved).2 address = loop.flash address := by
    intro saved read
    have length : saved.length = 0x400 := by
      rw [contract.read_ok _ _ _ saved read, Memory.length_slice, head]
    rw [← erased]
    exact contract.write_outside _ (by omega)
  rcases eraseFirmware_cases loop driver with
    ⟨-, answer⟩ | ⟨saved, -, -, answer⟩ | ⟨saved, read, -, -, answer⟩ | ⟨saved, read, -, -, answer⟩
  · rw [answer]
  · rw [answer]
    exact erased
  · rw [answer]
    exact restored saved read
  · rw [answer]
    exact restored saved read

/-- A block changes nothing before the area, and nothing that is protected. -/
theorem writeFirmwareBlock_outside (respects : driver.Respects .inBootloader)
    (inside : address < flashSize) (idx : UInt32) (data : List UInt8) :
    (writeFirmwareBlock driver loop idx data).1.flash address = loop.flash address := by
  have start : (baseAppAddr / flashPage * flashPage).toNat = 0x1B000 := rfl
  have base : baseAppAddr.toNat = 0x1B400 := rfl
  unfold InAppPages at outside
  have written : loop.InArea →
      (driver.write loop.flash loop.cursor data).2 address = loop.flash address := by
    intro inArea
    have lower : baseAppAddr.toNat ≤ loop.cursor.toNat := inArea.1
    by_cases before : address < (baseAppAddr / flashPage * flashPage).toNat
    · exact contract.write_outside loop.flash (by omega)
    · have protection := Bprot.protects_inBootloader inside (Or.inr (by omega))
      exact (respects loop.flash address protection).2 loop.cursor data
  rcases writeFirmwareBlock_cases loop driver idx data with
    ⟨⟨inArea, -⟩, answer⟩ | ⟨⟨inArea, -⟩, answer⟩ | ⟨-, answer⟩
  · rw [answer]
    exact written inArea
  · rw [answer]
    exact written inArea
  · rw [answer]

end Serving

/-- The device together with its protection registers. -/
structure Chip where
  device : Device
  bprot : Bprot

namespace Chip

inductive Event where
  | device (event : Device.Event)
  /-- The running application tries to change the flash. -/
  | tamper (attempt : Flash)

/-- The chip after a reset. -/
def start (flash : Flash) (uicr : Uicr) : Chip where
  device := .start flash uicr
  bprot := Bprot.cleared.flashProtectMbrBootloader

variable (platform : Device.Platform)

/-- The registers after an event: a reset clears them and the bootloader sets its
part, and before an application is entered the rest is added. -/
def protection (chip : Chip) (event : Device.Event) : Bprot :=
  match chip.device, event with
  | .bootloader loop, .request hw _ request =>
      match dispatch platform.boot hw loop request with
      | .next _ _ => chip.bprot
      | .sysReset _ => Bprot.cleared.flashProtectMbrBootloader
      | .jumpToApp _ _ => chip.bprot.flashProtectSdApplication
  | .bootloader _, .background _ => chip.bprot
  | .bootloader _, .reset => Bprot.cleared.flashProtectMbrBootloader
  | .application _ _ _, _ =>
      if (Device.step platform chip.device event).1.isApplication then chip.bprot
      else Bprot.cleared.flashProtectMbrBootloader

def step (chip : Chip) : Event → Chip × Option HostProtocolMessage
  | .device event =>
      let next := Device.step platform chip.device event
      ({ device := next.1, bprot := chip.protection platform event }, next.2)
  | .tamper attempt =>
      match chip.device with
      | .application flash uicr app =>
          ({ chip with device := .application (chip.bprot.guard flash attempt) uicr app }, none)
      | .bootloader _ => (chip, none)

/-- The chip, from one event to the next. -/
def machine : Machine Chip Event (Option HostProtocolMessage) where
  step := step platform

abbrev Transition := Machine.Transition Chip Event (Option HostProtocolMessage)

/-- What happens to the device happens to it on the chip. -/
theorem run_device (chip : Chip) (events : List Device.Event) :
    ((machine platform).run chip (events.map .device)).device =
        (Device.machine platform).run chip.device events ∧
      ((machine platform).trace chip (events.map .device)).map Machine.Transition.output =
        ((Device.machine platform).trace chip.device events).map Machine.Transition.output := by
  induction events generalizing chip with
  | nil => exact ⟨rfl, rfl⟩
  | cons event events ih =>
      obtain ⟨final, outputs⟩ := ih ((machine platform).step chip (.device event)).1
      exact ⟨final, List.cons_eq_cons.mpr ⟨rfl, outputs⟩⟩

/-- The registers are those for the program that runs. -/
def Configured (chip : Chip) : Prop :=
  chip.bprot = if chip.device.isApplication then .inApplication else .inBootloader

/-- A controller behaves as documented, and leaves protected regions alone. -/
def Honours (chip : Chip) (event : Event) : Prop :=
  ∀ hw radio request, event = .device (.request hw radio request) →
    hw.flash.NorFlash ∧ hw.flash.Respects chip.bprot

theorem configured_step (chip : Chip) (event : Event) (configured : chip.Configured) :
    (step platform chip event).1.Configured := by
  obtain ⟨device, bprot⟩ := chip
  cases event with
  | tamper attempt =>
      cases device with
      | bootloader loop => exact configured
      | application flash uicr app => exact configured
  | device event =>
      cases device with
      | bootloader loop =>
          have before : bprot = .inBootloader := configured
          subst before
          cases event with
          | background event => rfl
          | reset => rfl
          | request hw radio request =>
              have after : (step platform ⟨.bootloader loop, .inBootloader⟩
                  (.device (.request hw radio request))).1 =
                ⟨(Device.ofOutcome (dispatch platform.boot hw loop request)).1,
                  match dispatch platform.boot hw loop request with
                  | .next _ _ => .inBootloader
                  | .sysReset _ => .inBootloader
                  | .jumpToApp _ _ => .inApplication⟩ := rfl
              rw [after]
              cases dispatch platform.boot hw loop request with
              | next next response => rfl
              | sysReset next => rfl
              | jumpToApp next sent => rfl
      | application flash uicr app =>
          have before : bprot = .inApplication := configured
          subst before
          unfold Configured step protection
          simp only
          split
          · rfl
          · rfl

/-- A request to the bootloader changes nothing outside of the pages of the area. -/
theorem dispatch_outside {hw : Peripherals} (contract : hw.flash.NorFlash)
    (respects : hw.flash.Respects .inBootloader) (loop : Loop) (request : Request) {address : ℕ}
    (inside : address < flashSize) (outside : ¬ InAppPages address) :
    (Device.ofOutcome (dispatch platform.boot hw loop request)).1.flash address =
      loop.flash address := by
  rcases dispatch_cases platform.boot hw loop request with
    ⟨-, outcome⟩ | ⟨idx, data, -, outcome⟩ | ⟨secret, -, outcome⟩ | ⟨trust, -, outcome⟩ |
      ⟨-, outcome⟩ | ⟨-, response, outcome⟩
  · rw [outcome]
    exact eraseFirmware_outside contract loop outside
  · rw [outcome]
    exact writeFirmwareBlock_outside contract loop outside respects inside idx data
  · rw [outcome]
    exact congrFun (challengeSet_frame loop hw.customer secret).1 address
  · rw [outcome]
    unfold bootFirmware
    split
    · rfl
    · rfl
    · rfl
  · rw [outcome]
    rfl
  · rw [outcome]
    rfl

variable {platform}

/-- While an application runs, no byte of the flash changes. -/
theorem step_running {chip : Chip} (configured : chip.Configured)
    (running : chip.device.isApplication = true) (event : Event) {address : ℕ}
    (inside : address < flashSize) :
    (step platform chip event).1.device.flash address = chip.device.flash address := by
  obtain ⟨device, bprot⟩ := chip
  cases device with
  | bootloader loop => cases running
  | application flash uicr app =>
      have before : bprot = .inApplication := configured
      subst before
      cases event with
      | tamper attempt => exact if_pos (Bprot.protects_inApplication inside)
      | device event =>
          change (Device.step platform (.application flash uicr app) event).1.flash address = _
          rcases Device.step_application platform flash uicr app event with reset | ⟨next, same⟩
          · rw [reset]
            rfl
          · rw [same]
            rfl

/-- No step changes a byte outside of the pages of the area. -/
theorem step_outside {chip : Chip} (configured : chip.Configured) {event : Event}
    (honours : Honours chip event) {address : ℕ} (inside : address < flashSize)
    (outside : ¬ InAppPages address) :
    (step platform chip event).1.device.flash address = chip.device.flash address := by
  obtain ⟨device, bprot⟩ := chip
  cases device with
  | application flash uicr app => exact step_running configured rfl event inside
  | bootloader loop =>
      have before : bprot = .inBootloader := configured
      subst before
      cases event with
      | tamper attempt => rfl
      | device event =>
          cases event with
          | background event => rfl
          | reset => rfl
          | request hw radio request =>
              obtain ⟨contract, respects⟩ := honours hw radio request rfl
              exact dispatch_outside platform contract respects loop request inside outside

/-- What the flash and the registers look like at any time. -/
structure Guarded (original : Flash) (chip : Chip) : Prop where
  configured : chip.Configured
  intact : ∀ address < flashSize, ¬ InAppPages address →
    chip.device.flash address = original address

theorem guarded_start (flash : Flash) (uicr : Uicr) : Guarded flash (.start flash uicr) where
  configured := rfl
  intact _ _ _ := rfl

theorem guarded_step {original : Flash} (chip : Chip) (event : Event)
    (guarded : Guarded original chip) (honours : Honours chip event) :
    Guarded original ((machine platform).step chip event).1 where
  configured := configured_step platform chip event guarded.configured
  intact address inside outside :=
    (step_outside guarded.configured honours inside outside).trans
      (guarded.intact address inside outside)

/-- **What can change the flash.** From a reset on, with a controller whose
operations may fail in any way the flash allows but which honours the protection,
and with an application that may try to write flash at any time: the registers are
always those for the running program, no byte outside of the pages of the
application area ever changes, and no byte at all changes in a step taken while an
application runs. -/
theorem only_area_changes (platform : Device.Platform) (flash : Flash) (uicr : Uicr)
    {events : List Event}
    (honours : ∀ transition ∈ (machine platform).trace (.start flash uicr) events,
      Honours transition.source transition.event) :
    let chip := (machine platform).run (.start flash uicr) events
    chip.bprot = (if chip.device.isApplication then .inApplication else .inBootloader) ∧
      (∀ address < flashSize, ¬ InAppPages address →
        chip.device.flash address = flash address) ∧
      ∀ transition ∈ (machine platform).trace (.start flash uicr) events,
        transition.source.device.isApplication = true → ∀ address < flashSize,
          transition.target.device.flash address = transition.source.device.flash address := by
  have kept : ∀ chip event, Guarded flash chip → Honours chip event →
      Guarded flash ((machine platform).step chip event).1 := guarded_step
  have guarded := Machine.run_preserved kept (guarded_start flash uicr) honours
  refine ⟨guarded.configured, guarded.intact, ?_⟩
  intro transition member running address inside
  have before := Machine.source_preserved kept (guarded_start flash uicr) honours transition member
  obtain ⟨earlier, event, later, rfl, rfl⟩ := (machine platform).mem_trace_iff.mp member
  exact step_running before.configured running event inside

private def honest : Peripherals := ⟨protectedNvmc .inBootloader, .nor⟩

private def eraseAndWrite : List Event :=
  [.device (.erase honest ⟨none, false⟩), .device (.block honest ⟨none, false⟩ 0 [1, 2, 3, 4])]

private theorem eraseAndWrite_honours :
    ∀ transition ∈ (machine .bare).trace (.start (fun _ => 7) (fun _ => 0)) eraseAndWrite,
      Honours transition.source transition.event := by
  intro transition member hw radio request sent
  have behaves : honest.flash.NorFlash ∧ honest.flash.Respects .inBootloader :=
    ⟨protectedNvmc_norFlash .inBootloader, protectedNvmc_respects .inBootloader⟩
  simp only [eraseAndWrite, Machine.trace_cons, Machine.trace_nil, List.mem_cons,
    List.not_mem_nil, or_false] at member
  rcases member with rfl | rfl
  · cases sent
    exact behaves
  · cases sent
    exact behaves

/-- An erase and a block leave the first byte of the bootloader as it was. -/
theorem only_area_changes_sample :
    ((machine .bare).run (.start (fun _ => 7) (fun _ => 0)) eraseAndWrite).device.flash
      baseBootloaderAddr.toNat = 7 :=
  (only_area_changes .bare (fun _ => 7) (fun _ => 0) eraseAndWrite_honours).2.1 _ (by decide)
    (by unfold InAppPages; omega)

end Chip

end PrimeBle
