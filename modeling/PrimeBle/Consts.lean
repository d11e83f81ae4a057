import Mathlib.Data.Nat.Notation

/-! # Constants shared by the bootloader, the application and the protocol

Addresses and register values are the machine words of the target; sizes used
as `usize` are natural numbers.
-/

namespace PrimeBle

/-- Largest BLE payload, with the data length extension the protocol crate
enables. -/
def appMtu : ℕ := 244

/-- Name advertised until the host sets another one. -/
def defaultDeviceName : String := "Passport Prime"

/-- Size in bytes of the secret stored in UICR. -/
def uicrSecretSize : ℕ := 0x20

/-- Index of the UICR customer register used to seal the challenge-response
secret. -/
def uicrSealIndex : ℕ := 8

/-- Magic value indicating that the challenge-response secret has been
provisioned. -/
def uicrSealedSecret : UInt32 := 0x5A5A5A5A

/-- Magic value indicating that the challenge-response secret was wiped by
developer firmware. -/
def uicrSealedWiped : UInt32 := 0x42424242

/-- Start address of the bootloader in flash memory. -/
def baseBootloaderAddr : UInt32 := 0x27000

/-- Base address for the application in flash memory, after the SoftDevice. -/
def baseAppAddr : UInt32 := 0x1B400

/-- Room for the cosign2 signature in front of the application code. -/
def signatureHeaderSize : UInt32 := 0x100

end PrimeBle
