import Mathlib.Data.List.Sort
import PrimeBle.Library.IntelHex

/-! # Merging images

The package builder reads Intel HEX files and binaries into records with 32-bit
addresses, sorts the records, and writes them to one Intel HEX file. Files stand
for what was read from disk, records for what the `ihex` crate parses and prints;
`none` is a panic, which in the profile of a `cargo xtask` run includes overflow.
-/

namespace PrimeBle.Xtask

open IntelHex

inductive MergeableFile where
  | iHex (records : List Record)
  | binary (data : List UInt8) (globalOffset : UInt32)
  deriving DecidableEq

/-- A data record with its 32-bit address. -/
abbrev Addressed := UInt32 × Payload

def checkedAdd (left right : UInt32) : Option UInt32 :=
  if left.toNat + right.toNat < 2 ^ 32 then some (left + right) else none

def checkedMul (left right : UInt32) : Option UInt32 :=
  if left.toNat * right.toNat < 2 ^ 32 then some (left * right) else none

/-- `upper_address` after a record. -/
def upperAddress (upper : UInt32) : Record → UInt32
  | .startSegmentAddress cs ip => (cs.toUInt32 <<< 4) + ip.toUInt32
  | .startLinearAddress addr => addr <<< 16
  | .extendedSegmentAddress addr => addr.toUInt32 <<< 4
  | .extendedLinearAddress addr => addr.toUInt32 <<< 16
  | .data _ _ | .endOfFile => upper

/-- The records of a HEX file; the reader stops after the end-of-file record. The
sum is at most 0xffffffff. -/
def iHexRecords : UInt32 → List Record → List Addressed
  | _, [] => []
  | _, .endOfFile :: _ => []
  | upper, .data offset value :: rest =>
      (upper + offset.toUInt32, value) :: iHexRecords upper rest
  | upper, record :: rest => iHexRecords (upperAddress upper record) rest

/-- The slice with index `i` when the data is cut into slices of 32 bytes. -/
def chunk (data : List UInt8) (i : ℕ) : Payload :=
  ⟨(data.drop (32 * i)).take 32, (List.length_take_le ..).trans (by decide)⟩

def chunkCount (data : List UInt8) : ℕ := (data.length + 31) / 32

def chunkAddress (globalOffset : UInt32) (i : ℕ) : Option UInt32 := do
  let skipped ← checkedMul i.toUInt32 32
  checkedAdd globalOffset skipped

def binaryRecords (globalOffset : UInt32) (data : List UInt8) : Option (List Addressed) :=
  (List.range (chunkCount data)).mapM fun i =>
    (chunkAddress globalOffset i).map fun address => (address, chunk data i)

def fileRecords : MergeableFile → Option (List Addressed)
  | .iHex records => some (iHexRecords 0 records)
  | .binary data globalOffset => binaryRecords globalOffset data

/-- Apply the next patch, the first of the list, if it is inside the record. -/
def applyPatch (addr : UInt32) (value : Payload) :
    List (UInt32 × UInt8) → Option (Payload × List (UInt32 × UInt8))
  | [] => some (value, [])
  | (patchAddr, patchValue) :: patches => do
      let finish ← checkedAdd addr value.length.toUInt32
      if addr ≤ patchAddr ∧ patchAddr < finish then
        some (value.set (patchAddr - addr).toNat patchValue, patches)
      else
        some (value, (patchAddr, patchValue) :: patches)

/-- The output for the sorted records, with `segment_upper_address` and the
patches still to apply. -/
def outRecords (segmentUpperAddress : UInt32) (patches : List (UInt32 × UInt8)) :
    List Addressed → Option (List Record)
  | [] => some []
  | (addr, value) :: records => do
      let upper := addr >>> 16
      let (value, patches) ← applyPatch addr value patches
      let rest ← outRecords upper patches records
      let data := .data (addr &&& 0xffff).toUInt16 value
      some (if upper ≠ segmentUpperAddress then
        .extendedLinearAddress upper.toUInt16 :: data :: rest else data :: rest)

/-- Stable, as `sort_by_key` is. -/
def sortByKey (records : List Addressed) : List Addressed :=
  records.insertionSort fun first second => first.1.toNat ≤ second.1.toNat

/-- `merge_files`, up to the output file. Patches are popped from the end. -/
def mergeFiles (inputs : List MergeableFile) (patches : Option (List (UInt32 × UInt8))) :
    Option (List Record) := do
  let records ← inputs.mapM fileRecords
  let records := sortByKey records.flatten
  let (addr, _) ← records.head?
  let segmentUpperAddress := addr >>> 16
  let body ← outRecords segmentUpperAddress (patches.getD []).reverse records
  some (.startLinearAddress segmentUpperAddress :: body ++ [.endOfFile])

end PrimeBle.Xtask
