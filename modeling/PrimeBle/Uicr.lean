import PrimeBle.Consts
import PrimeBle.Library.NorMemory

/-! # Customer registers and the keyed hash over them

Both programs read the challenge secret and its seal from the UICR customer
registers, words of NOR flash that only the bootloader writes. Seen as memory,
the secret is the little-endian bytes of its eight words.
-/

namespace PrimeBle

/-- The UICR customer registers, by index. -/
abbrev Uicr := Memory UInt32

namespace Uicr

/-- What an erased register reads as. -/
def erased : UInt32 := 0xFFFFFFFF

/-- The seal register. -/
def sealRegister (uicr : Uicr) : UInt32 := uicr uicrSealIndex

/-- The words of the secret. -/
def secret (uicr : Uicr) : List UInt32 := uicr.slice 0 8

end Uicr

/-- The bytes of a word in memory. -/
def toLeBytes (word : UInt32) : List UInt8 :=
  [word.toUInt8, (word >>> 8).toUInt8, (word >>> 16).toUInt8, (word >>> 24).toUInt8]

/-- The big-endian bytes of a nonce. -/
def toBeBytes (nonce : UInt64) : List UInt8 :=
  [(nonce >>> 56).toUInt8, (nonce >>> 48).toUInt8, (nonce >>> 40).toUInt8, (nonce >>> 32).toUInt8,
    (nonce >>> 24).toUInt8, (nonce >>> 16).toUInt8, (nonce >>> 8).toUInt8, nonce.toUInt8]

theorem toLeBytes_injective : Function.Injective toLeBytes := by
  intro first second same
  simp only [toLeBytes, List.cons.injEq, and_true, ← UInt8.toNat_inj, UInt32.toNat_toUInt8,
    UInt32.toNat_shiftRight, Nat.shiftRight_eq_div_pow, UInt32.reduceToNat, Nat.reduceMod,
    Nat.reducePow] at same
  have low := first.toNat_lt
  have high := second.toNat_lt
  rw [← UInt32.toNat_inj]
  omega

theorem toBeBytes_injective : Function.Injective toBeBytes := by
  intro first second same
  simp only [toBeBytes, List.cons.injEq, and_true, ← UInt8.toNat_inj, UInt64.toNat_toUInt8,
    UInt64.toNat_shiftRight, Nat.shiftRight_eq_div_pow, UInt64.reduceToNat, Nat.reduceMod,
    Nat.reducePow] at same
  have low := first.toNat_lt
  have high := second.toNat_lt
  rw [← UInt64.toNat_inj]
  omega

/-- The bytes of a secret tell its words. -/
theorem flatMap_toLeBytes_injective :
    Function.Injective fun words : List UInt32 => words.flatMap toLeBytes := by
  intro first second same
  induction first generalizing second with
  | nil =>
      cases second with
      | nil => rfl
      | cons word words => cases same
  | cons word words ih =>
      cases second with
      | nil => cases same
      | cons other others =>
          simp only [List.flatMap_cons] at same
          obtain ⟨head, tail⟩ := List.append_inj same rfl
          rw [toLeBytes_injective head, ih tail]

/-- The memory from the start of the secret, as the programs slice it. -/
def Uicr.secretAsSlice (uicr : Uicr) : List UInt8 :=
  (uicr.slice 0 (uicrSecretSize / 4)).flatMap toLeBytes

/-- HMAC-SHA256. Keys of any length are accepted. -/
structure HmacSha256 where
  newFromSlice : List UInt8 → Option (List UInt8 → Vector UInt8 32)
  accepts : ∀ key, (newFromSlice key).isSome

/-- The authentication code of a message. -/
def HmacSha256.mac (hmac : HmacSha256) (key message : List UInt8) : Vector UInt8 32 :=
  (hmac.newFromSlice key).get (hmac.accepts key) message

theorem HmacSha256.newFromSlice_eq (hmac : HmacSha256) (key : List UInt8) :
    hmac.newFromSlice key = some (hmac.mac key) :=
  (Option.some_get (hmac.accepts key)).symm

end PrimeBle
