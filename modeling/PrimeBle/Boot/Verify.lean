import PrimeBle.Boot.Flash
import PrimeBle.HostProtocol.Messages
import PrimeBle.Uicr

/-! # Firmware verification and the challenge secret

Parsing and checking the signed header is the business of the `cosign2` crate,
a parameter here; what the bootloader makes of its verdicts, and how it writes
the challenge secret, is its own code.
-/

namespace PrimeBle.Boot

open HostProtocol

/-- Size of the application area in flash memory. -/
def appSize : UInt32 := baseBootloaderAddr - baseAppAddr

/-- What the bootloader reads from a signature header. -/
structure Header where
  version : String
  date : String
  fullyTrusted : Bool
  binaryHash : Vector UInt8 32

/-- The `cosign2` crate, with the known signers and the hash and signature
primitives the bootloader hands to it. -/
structure Cosign where
  /-- The header of an image whose signatures check out. -/
  parse : (image : List UInt8) → (headerSize : ℕ) → Option Header
  parseUnverified : (image : List UInt8) → (headerSize : ℕ) → (checkFwSize : Bool) → Option Header

inductive VerificationResult where
  | valid
  | invalid
  deriving DecidableEq, Repr

variable (cosign : Cosign)

/-- A slice of flash, empty unless it lies in the application area. -/
def getFwImageSlice (flash : Flash) (baseAddress len : UInt32) : List UInt8 :=
  if baseAddress < baseAppAddr ∨ baseAddress + len > baseAppAddr + appSize then []
  else flash.slice baseAddress.toNat len.toNat

/-- The version and build date of the header, when they fit their buffers. -/
def readVersionAndBuildDate (image : List UInt8) (checkFwSize : Bool) : Option (String × String) :=
  match cosign.parseUnverified image signatureHeaderSize.toNat checkFwSize with
  | none => none
  | some header =>
      if header.version.utf8ByteSize ≤ 20 ∧ header.date.utf8ByteSize ≤ 14 then
        some (header.version, header.date)
      else none

def verifyImage (image : List UInt8) (trust : TrustLevel) :
    VerificationResult × Vector UInt8 32 :=
  match cosign.parse image signatureHeaderSize.toNat with
  | none => (.invalid, Vector.replicate 32 0)
  | some header =>
      if header.fullyTrusted ∨ trust = .developer then (.valid, header.binaryHash)
      else (.invalid, header.binaryHash)

/-- Verify the image in the application area, twice. -/
def verifyFwImage (flash : Flash) (trust : TrustLevel) :
    Option (VerificationResult × VerificationResult × Vector UInt8 32) :=
  let image := getFwImageSlice flash baseAppAddr appSize
  match readVersionAndBuildDate cosign image true with
  | none => none
  | some _ =>
      let first := verifyImage cosign image trust
      let second := verifyImage cosign image trust
      some (first.1, second.1, first.2)

/-- Write the words of the secret, read them back, and only then write the seal.
What each register holds after a write is up to `write`. -/
def writeSecret (write : CellWrite UInt32) (uicr : Uicr) (secret : Vector UInt32 8)
    (sealWord : UInt32) : Bool × Uicr :=
  let written := secret.toList.zipIdx.foldl (fun uicr word => uicr.set write word.2 word.1) uicr
  if secret.toList.zipIdx.any fun word => written word.2 != word.1 then (false, written)
  else (true, written.set write uicrSealIndex sealWord)

private theorem foldl_set (write : CellWrite UInt32) (uicr : Uicr) (words : List UInt32)
    (start : ℕ) :
    (words.zipIdx start).foldl (fun uicr word => uicr.set write word.2 word.1) uicr =
      uicr.program write start words := by
  induction words generalizing uicr start with
  | nil => exact (Memory.program_nil write uicr start).symm
  | cons word words ih =>
      rw [List.zipIdx_cons, List.foldl_cons, ih, Memory.program_cons]

private theorem any_mismatch (uicr : Uicr) (words : List UInt32) :
    (words.zipIdx.any fun word => uicr word.2 != word.1) = true ↔
      uicr.slice 0 words.length ≠ words := by
  rw [Ne, Memory.slice_eq_iff]
  simp only [List.any_eq_true, List.mem_zipIdx_iff_getElem?, Prod.exists, bne_iff_ne, ne_eq,
    not_forall, Nat.zero_add, List.getElem?_eq_some_iff]
  constructor
  · intro ⟨word, index, ⟨below, found⟩, different⟩
    exact ⟨index, below, found ▸ different⟩
  · intro ⟨index, below, different⟩
    exact ⟨words[index], index, ⟨below, rfl⟩, different⟩

/-- **What `write_secret` does.** The words are programmed from the first
register on; the seal is written exactly when all of them read back. -/
theorem writeSecret_eq (write : CellWrite UInt32) (uicr : Uicr) (secret : Vector UInt32 8)
    (sealWord : UInt32) :
    writeSecret write uicr secret sealWord =
      if Uicr.secret (uicr.program write 0 secret.toList) = secret.toList then
        (true, (uicr.program write 0 secret.toList).set write uicrSealIndex sealWord)
      else (false, uicr.program write 0 secret.toList) := by
  have eight : secret.toList.length = 8 := secret.length_toList
  unfold writeSecret
  rw [foldl_set]
  by_cases read : Uicr.secret (uicr.program write 0 secret.toList) = secret.toList
  · have clean : ¬ (secret.toList.zipIdx.any fun word =>
        uicr.program write 0 secret.toList word.2 != word.1) = true := by
      rw [any_mismatch, eight]
      exact not_not.mpr read
    simp only [clean, read, Bool.false_eq_true, ↓reduceIte]
  · have stale : (secret.toList.zipIdx.any fun word =>
        uicr.program write 0 secret.toList word.2 != word.1) = true := by
      rw [any_mismatch, eight]
      exact read
    simp only [stale, read, ↓reduceIte]

end PrimeBle.Boot
