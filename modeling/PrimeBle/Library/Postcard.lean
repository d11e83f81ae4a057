import Mathlib.Algebra.Group.Nat.Defs

/-! # Decoding the postcard wire format

A decoder consumes a prefix of the bytes or fails. Integers wider than a byte
are little-endian base-128 varints of bounded length, byte strings and text are
prefixed by their length, tuples and structures are the concatenation of their
parts, and an enumeration is the varint of its variant followed by its fields.
Bytes left over at the end are ignored.
-/

namespace Postcard

/-- A decoder takes a value off the front of the bytes. -/
abbrev Decoder := StateT (List UInt8) Option

/-- Decode a value from the front of a byte string, ignoring what follows. -/
def fromBytes {α : Type} (decoder : Decoder α) (bytes : List UInt8) : Option α :=
  (decoder.run bytes).map Prod.fst

def pop : Decoder UInt8 := fun bytes =>
  match bytes with
  | [] => none
  | byte :: rest => some (byte, rest)

def tryTakeN (count : ℕ) : Decoder (List UInt8) := fun bytes =>
  if count ≤ bytes.length then some (bytes.take count, bytes.drop count) else none

/-- The most bytes the varint of an integer of the given width may take. -/
def varintMax (bits : ℕ) : ℕ := (bits + 6) / 7

/-- The largest last byte of a varint of full length. -/
def maxOfLastByte (bits : ℕ) : ℕ := 2 ^ (bits % 7) - 1

/-- Take the remaining bytes of a varint, the next one contributing at `shift`. -/
def varintFrom (bits : ℕ) : (remaining shift out : ℕ) → Decoder ℕ
  | 0, _, _ => failure
  | remaining + 1, shift, out => do
      let val ← pop
      let out := out + val.toNat % 128 * 2 ^ shift
      if val.toNat < 128 then
        if remaining = 0 ∧ maxOfLastByte bits < val.toNat then failure else pure out
      else varintFrom bits remaining (shift + 7) out

def tryTakeVarint (bits : ℕ) : Decoder ℕ := varintFrom bits (varintMax bits) 0 0

def bool : Decoder Bool := do
  match ← pop with
  | 0 => pure false
  | 1 => pure true
  | _ => failure

def u8 : Decoder UInt8 := pop

def i8 : Decoder Int8 := do pure (← pop).toInt8

def u32 : Decoder UInt32 := do pure (UInt32.ofNat (← tryTakeVarint 32))

def u64 : Decoder UInt64 := do pure (UInt64.ofNat (← tryTakeVarint 64))

/-- A `usize` of a 32-bit target. -/
def usize : Decoder UInt32 := u32

/-- The index of an enumeration's variant. -/
def variant : Decoder ℕ := tryTakeVarint 32

def bytes : Decoder (List UInt8) := do tryTakeN (← usize).toNat

def str : Decoder String := do
  match String.fromUTF8? ⟨(← bytes).toArray⟩ with
  | some text => pure text
  | none => failure

/-- A fixed number of values, one after the other. -/
def array {α : Type} (decoder : Decoder α) : (count : ℕ) → Decoder (Vector α count)
  | 0 => pure #v[]
  | count + 1 => do
      let front ← array decoder count
      pure (front.push (← decoder))

end Postcard
