import Mathlib.Data.List.Basic
import Mathlib.Data.UInt

/-! # Intel HEX files

A file is a list of records. A data record places its bytes relative to a base
address, which the extended address records before it set: a segment, within
which the offset of a byte wraps around, or the upper half of a linear address.
The start address records name an entry point and leave the base alone. What a
file places in memory is `IntelHex.contents`; refilling its data changes the
bytes and no address (`IntelHex.contents_refill`).
-/

namespace IntelHex

/-- The bytes of a data record, whose number is itself a byte. -/
def Payload := { bytes : List UInt8 // bytes.length ≤ 255 }

instance : DecidableEq Payload := inferInstanceAs (DecidableEq { _bytes : List UInt8 // _ })

namespace Payload

def length (value : Payload) : ℕ := value.1.length

def mapIdx (f : ℕ → UInt8 → UInt8) (value : Payload) : Payload :=
  ⟨value.1.mapIdx f, by simpa only [List.length_mapIdx] using value.2⟩

def set (value : Payload) (i : ℕ) (byte : UInt8) : Payload :=
  ⟨value.1.set i byte, by simpa only [List.length_set] using value.2⟩

@[simp] theorem length_mapIdx (f : ℕ → UInt8 → UInt8) (value : Payload) :
    (value.mapIdx f).length = value.length := List.length_mapIdx

theorem mapIdx_mapIdx (f g : ℕ → UInt8 → UInt8) (value : Payload) :
    (value.mapIdx f).mapIdx g = value.mapIdx fun i byte => g i (f i byte) :=
  Subtype.ext List.mapIdx_mapIdx

end Payload

/-- The records of types 00 to 05. -/
inductive Record where
  | data (offset : UInt16) (value : Payload)
  | endOfFile
  | extendedSegmentAddress (addr : UInt16)
  | startSegmentAddress (cs ip : UInt16)
  | extendedLinearAddress (addr : UInt16)
  | startLinearAddress (addr : UInt32)
  deriving DecidableEq

/-- What the offsets of data records are relative to. -/
inductive Base where
  | segment (paragraph : UInt16)
  | linear (upper : UInt16)

namespace Base

/-- The base before any extended address record. -/
def initial : Base := .linear 0

/-- Where the byte with index `i` of a data record goes. -/
def byteAddress : Base → UInt16 → ℕ → ℕ
  | .segment paragraph, offset, i => paragraph.toNat * 16 + (offset.toNat + i) % 2 ^ 16
  | .linear upper, offset, i => (upper.toNat * 2 ^ 16 + offset.toNat + i) % 2 ^ 32

/-- The base after a record. -/
def after (base : Base) : Record → Base
  | .extendedSegmentAddress addr => .segment addr
  | .extendedLinearAddress addr => .linear addr
  | .startSegmentAddress _ _ | .startLinearAddress _ | .data _ _ | .endOfFile => base

end Base

/-- Bytes with their addresses. -/
def placed (place : ℕ → ℕ) (bytes : List UInt8) : List (ℕ × UInt8) :=
  bytes.mapIdx fun i byte => (place i, byte)

theorem mem_placed {place : ℕ → ℕ} {bytes : List UInt8} {address : ℕ} {byte : UInt8} :
    (address, byte) ∈ placed place bytes ↔ ∃ i, place i = address ∧ bytes[i]? = some byte := by
  simp only [placed, List.mem_mapIdx, Prod.mk.injEq]
  constructor
  · intro ⟨i, inside, goes, holds⟩
    exact ⟨i, goes, List.getElem?_eq_some_iff.mpr ⟨inside, holds⟩⟩
  · intro ⟨i, goes, holds⟩
    obtain ⟨inside, holds⟩ := List.getElem?_eq_some_iff.mp holds
    exact ⟨i, inside, goes, holds⟩

theorem placed_congr {first second : ℕ → ℕ} {bytes : List UInt8}
    (same : ∀ i < bytes.length, first i = second i) : placed first bytes = placed second bytes := by
  apply List.ext_getElem
  · simp only [placed, List.length_mapIdx]
  · intro i inside _
    simp only [placed, List.length_mapIdx] at inside
    simp only [placed, List.getElem_mapIdx, same i inside]

theorem placed_mapIdx (f : ℕ → UInt8 → UInt8) (place : ℕ → ℕ) (bytes : List UInt8) :
    placed place (bytes.mapIdx fun i => f (place i)) =
      (placed place bytes).map fun cell => (cell.1, f cell.1 cell.2) := by
  apply List.ext_getElem
  · simp only [placed, List.length_mapIdx, List.length_map]
  · intro i _ _
    simp only [placed, List.getElem_mapIdx, List.getElem_map]

/-- What the records after a point of the file place in memory. -/
def contentsFrom : Base → List Record → List (ℕ × UInt8)
  | _, [] => []
  | _, .endOfFile :: _ => []
  | base, .data offset value :: rest =>
      placed (base.byteAddress offset) value.1 ++ contentsFrom base rest
  | base, record :: rest => contentsFrom (base.after record) rest

/-- What a file places in memory, in file order. -/
def contents (records : List Record) : List (ℕ × UInt8) := contentsFrom .initial records

section Refill

variable (f : ℕ → UInt8 → UInt8)

/-- Replace every byte of data, with the address it goes to in view. -/
def refillFrom : Base → List Record → List Record
  | _, [] => []
  | _, .endOfFile :: rest => .endOfFile :: rest
  | base, .data offset value :: rest =>
      .data offset (value.mapIdx fun i => f (base.byteAddress offset i)) :: refillFrom base rest
  | base, record :: rest => record :: refillFrom (base.after record) rest

def refill (records : List Record) : List Record := refillFrom f .initial records

theorem contentsFrom_refillFrom (base : Base) (records : List Record) :
    contentsFrom base (refillFrom f base records) =
      (contentsFrom base records).map fun cell => (cell.1, f cell.1 cell.2) := by
  induction records generalizing base with
  | nil => rfl
  | cons record rest ih =>
      cases record with
      | data offset value =>
          simp only [refillFrom, contentsFrom, Payload.mapIdx, placed_mapIdx, ih, List.map_append]
      | endOfFile => rfl
      | _ => exact ih _

/-- Refilled data goes where the data it replaces went. -/
theorem contents_refill (records : List Record) :
    contents (refill f records) = (contents records).map fun cell => (cell.1, f cell.1 cell.2) :=
  contentsFrom_refillFrom f .initial records

end Refill

/-- The record with every byte of data zero. -/
def Record.blank : Record → Record
  | .data offset value => .data offset (value.mapIdx fun _ _ => 0)
  | record => record

end IntelHex
