import PrimeBle.Consts
import PrimeBle.Library.NorMemory

/-! # The flash controller

The bootloader drives the flash through three operations of the `Nvmc` driver.
The driver is a parameter of the bootloader: `FlashDriver.Nvmc` states its
documented behaviour and `nvmc` is a driver that has it.
-/

namespace PrimeBle.Boot

/-- The flash, by byte address. -/
abbrev Flash := Memory UInt8

/-- Size of a flash memory page in bytes. -/
def flashPage : UInt32 := 4096

/-- The whole flash of the chip, 192 KiB. -/
def flashSize : ℕ := 0x30000

/-- What an erased byte reads as. -/
def erasedByte : UInt8 := 0xFF

/-- The controller as the bootloader sees it. Erasing and writing report whether
they succeeded and leave the flash in some state either way. -/
structure FlashDriver where
  read : Flash → (offset : UInt32) → (len : ℕ) → Option (List UInt8)
  erase : Flash → (first last : UInt32) → Bool × Flash
  write : Flash → (offset : UInt32) → (data : List UInt8) → Bool × Flash

/-- Whole words inside the flash. -/
def Writable (offset : UInt32) (data : List UInt8) : Prop :=
  offset.toNat % 4 = 0 ∧ data.length % 4 = 0 ∧ offset.toNat + data.length ≤ flashSize

instance (offset : UInt32) (data : List UInt8) : Decidable (Writable offset data) :=
  inferInstanceAs (Decidable (_ ∧ _ ∧ _))

/-- Whole pages inside the flash. -/
def Erasable (first last : UInt32) : Prop :=
  first % flashPage = 0 ∧ last % flashPage = 0 ∧ first ≤ last ∧ last.toNat ≤ flashSize

instance (first last : UInt32) : Decidable (Erasable first last) :=
  inferInstanceAs (Decidable (_ ∧ _ ∧ _ ∧ _))

/-- A write that succeeds clears bits in its range and touches nothing else. -/
def FlashDriver.ClearsBits (driver : FlashDriver) : Prop :=
  ∀ flash offset data, (driver.write flash offset data).1 = true →
    (driver.write flash offset data).2 = flash.program .nor offset.toNat data

/-- The documented behaviour of the `Nvmc` driver. -/
structure FlashDriver.Nvmc (driver : FlashDriver) : Prop where
  read_eq : ∀ flash offset len, offset.toNat + len ≤ flashSize →
    driver.read flash offset len = some (flash.slice offset.toNat len)
  erase_eq : ∀ flash first last, Erasable first last →
    driver.erase flash first last = (true, flash.fill first.toNat last.toNat erasedByte)
  write_eq : ∀ flash offset data, Writable offset data →
    driver.write flash offset data = (true, flash.program .nor offset.toNat data)
  write_err : ∀ flash offset data, ¬ Writable offset data →
    driver.write flash offset data = (false, flash)

/-- The contract of a NOR flash whose operations may fail: what a failed erase or
write leaves in its range is any mixture of the old contents, erased cells and
what the operation would have left. -/
structure FlashDriver.NorFlash (driver : FlashDriver) : Prop where
  read_ok : ∀ flash offset len data, driver.read flash offset len = some data →
    data = flash.slice offset.toNat len
  erase_ok : ∀ flash first last, (driver.erase flash first last).1 = true →
    (driver.erase flash first last).2 = flash.fill first.toNat last.toNat erasedByte
  erase_err : ∀ flash first last, (driver.erase flash first last).1 = false →
    ∀ address, (driver.erase flash first last).2 address = flash address ∨
      first.toNat ≤ address ∧ address < last.toNat ∧
        (driver.erase flash first last).2 address = erasedByte
  write_ok : driver.ClearsBits
  write_err : ∀ flash offset data, (driver.write flash offset data).1 = false →
    ∀ address, (driver.write flash offset data).2 address = flash address ∨
      offset.toNat ≤ address ∧ address < offset.toNat + data.length ∧
        ((driver.write flash offset data).2 address = erasedByte ∨
          (driver.write flash offset data).2 address =
            flash.program .nor offset.toNat data address)

/-- A driver with the documented behaviour. -/
def nvmc : FlashDriver where
  read flash offset len :=
    if offset.toNat + len ≤ flashSize then some (flash.slice offset.toNat len) else none
  erase flash first last :=
    if Erasable first last then (true, flash.fill first.toNat last.toNat erasedByte)
    else (false, flash)
  write flash offset data :=
    if Writable offset data then (true, flash.program .nor offset.toNat data) else (false, flash)

theorem nvmc_spec : nvmc.Nvmc where
  read_eq flash offset len inside := by simp only [nvmc, inside, ↓reduceIte]
  erase_eq flash first last pages := by simp only [nvmc, pages, ↓reduceIte]
  write_eq flash offset data words := by simp only [nvmc, words, ↓reduceIte]
  write_err flash offset data refused := by simp only [nvmc, refused, ↓reduceIte]

theorem FlashDriver.Nvmc.clearsBits {driver : FlashDriver} (spec : driver.Nvmc) :
    driver.ClearsBits := by
  intro flash offset data accepted
  by_cases words : Writable offset data
  · rw [spec.write_eq flash offset data words]
  · rw [spec.write_err flash offset data words] at accepted
    cases accepted

theorem nvmc_norFlash : nvmc.NorFlash where
  read_ok flash offset len data read := by
    by_cases inside : offset.toNat + len ≤ flashSize
    · rw [nvmc_spec.read_eq flash offset len inside] at read
      exact (Option.some.inj read).symm
    · simp only [nvmc, inside, ↓reduceIte, reduceCtorEq] at read
  erase_ok flash first last erased := by
    by_cases pages : Erasable first last
    · rw [nvmc_spec.erase_eq flash first last pages]
    · simp only [nvmc, pages, ↓reduceIte, Bool.false_eq_true] at erased
  erase_err flash first last failed address := by
    by_cases pages : Erasable first last
    · simp only [nvmc, pages, ↓reduceIte, Bool.true_eq_false] at failed
    · simp only [nvmc, pages, ↓reduceIte, true_or]
  write_ok := nvmc_spec.clearsBits
  write_err flash offset data failed address := by
    by_cases words : Writable offset data
    · rw [nvmc_spec.write_eq flash offset data words] at failed
      cases failed
    · rw [nvmc_spec.write_err flash offset data words]
      exact Or.inl rfl

end PrimeBle.Boot
