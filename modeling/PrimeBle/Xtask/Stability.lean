import PrimeBle.Xtask.MemoryMap

/-! # Merging a merged image

The writer emits the sorted records with their patches (`Xtask.mergeFiles_eq`), and
the reader recovers them from its output (`Xtask.iHexRecords_image`). So an output
that is merged by itself does not change (`Xtask.mergeFiles_stable`).
-/

namespace PrimeBle.Xtask

open IntelHex

/-- A byte and the address to put it at. -/
abbrev Patch := UInt32 × UInt8

/-- The records after the scan that applies the patches. -/
def patchRecords (patches : List Patch) : List Addressed → Option (List Addressed)
  | [] => some []
  | (addr, value) :: records => do
      let (value, patches) ← applyPatch addr value patches
      let rest ← patchRecords patches records
      some ((addr, value) :: rest)

/-- The lines for records, behind data of the block `segmentUpperAddress`. -/
def lines (segmentUpperAddress : UInt32) : List Addressed → List Record
  | [] => []
  | (addr, value) :: records =>
      let rest := .data (addr &&& 0xffff).toUInt16 value :: lines (addr >>> 16) records
      if addr >>> 16 ≠ segmentUpperAddress then
        .extendedLinearAddress (addr >>> 16).toUInt16 :: rest else rest

/-- The file for records. -/
def image : List Addressed → Option (List Record)
  | [] => none
  | (addr, value) :: records =>
      some (.startLinearAddress (addr >>> 16) ::
        lines (addr >>> 16) ((addr, value) :: records) ++ [.endOfFile])

/-- The records that the writer emits: sorted, and with the patches. -/
def mergedRecords (inputs : List MergeableFile) (patches : Option (List Patch)) :
    Option (List Addressed) := do
  let records ← inputs.mapM fileRecords
  patchRecords (patches.getD []).reverse (sortByKey records.flatten)

section Writer

theorem outRecords_eq (upper : UInt32) (patches : List Patch) (records : List Addressed) :
    outRecords upper patches records = (patchRecords patches records).map (lines upper) := by
  induction records generalizing upper patches with
  | nil => rfl
  | cons record records ih =>
      obtain ⟨addr, value⟩ := record
      simp only [outRecords, patchRecords, ih, Option.bind_eq_bind]
      cases applyPatch addr value patches with
      | none => rfl
      | some patched =>
          obtain ⟨patched, later⟩ := patched
          simp only [Option.bind_some]
          cases patchRecords later records with
          | none => rfl
          | some rest => rfl

/-- Without patches nothing changes. -/
theorem patchRecords_nil (records : List Addressed) : patchRecords [] records = some records := by
  induction records with
  | nil => rfl
  | cons record records ih =>
      simp only [patchRecords, applyPatch, ih, Option.bind_eq_bind, Option.bind_some]

/-- A patch moves no record. -/
theorem patchRecords_addresses {patches : List Patch} {records patched : List Addressed}
    (scanned : patchRecords patches records = some patched) :
    patched.map Prod.fst = records.map Prod.fst := by
  induction records generalizing patches patched with
  | nil =>
      cases scanned
      rfl
  | cons record records ih =>
      simp only [patchRecords, Option.bind_eq_bind, Option.bind_eq_some_iff,
        Option.some.injEq] at scanned
      obtain ⟨_, _, rest, later, rfl⟩ := scanned
      simp only [List.map_cons, ih later]

/-- **The writer.** It emits the records that it has sorted and patched. -/
theorem mergeFiles_eq (inputs : List MergeableFile) (patches : Option (List Patch)) :
    mergeFiles inputs patches = (mergedRecords inputs patches).bind image := by
  unfold mergeFiles mergedRecords
  simp only [Option.bind_eq_bind, outRecords_eq]
  cases inputs.mapM fileRecords with
  | none => rfl
  | some files =>
      simp only [Option.bind_some]
      cases sorted : sortByKey files.flatten with
      | nil => rfl
      | cons first rest =>
          obtain ⟨addr, value⟩ := first
          simp only [List.head?_cons, Option.bind_some]
          cases scanned : patchRecords (patches.getD []).reverse ((addr, value) :: rest) with
          | none => rfl
          | some patched =>
              cases patched with
              | nil => cases patchRecords_addresses scanned
              | cons patched others =>
                  have same := patchRecords_addresses scanned
                  simp only [List.map_cons, List.cons.injEq] at same
                  obtain ⟨rfl, _⟩ := same
                  rfl

end Writer

section Reader

theorem upper_of_shift (upper : UInt32) (small : upper.toNat < 2 ^ 16) :
    upper.toUInt16.toUInt32 = upper := by
  rw [← UInt32.toNat_inj, UInt16.toNat_toUInt32, UInt32.toNat_toUInt16]
  exact Nat.mod_eq_of_lt small

theorem shift_add_offset (address : UInt32) :
    address >>> 16 <<< 16 + (address &&& 0xffff).toUInt16.toUInt32 = address := by
  have bounded := address.toNat_lt
  have small := block_lt address
  have upper : (address >>> 16 <<< 16).toNat = block address * 2 ^ 16 := by
    rw [UInt32.toNat_shiftLeft, shift_toNat, Nat.shiftLeft_eq]
    exact Nat.mod_eq_of_lt (by change block address * 2 ^ 16 < 2 ^ 32; omega)
  rw [← UInt32.toNat_inj, UInt32.toNat_add, upper, UInt16.toNat_toUInt32, offset_toNat]
  unfold block
  omega

/-- The reader recovers the records from their lines. -/
theorem iHexRecords_lines (upper : UInt32) (records : List Addressed) :
    iHexRecords (upper <<< 16) (lines upper records ++ [.endOfFile]) = records := by
  induction records generalizing upper with
  | nil => rfl
  | cons record records ih =>
      obtain ⟨addr, value⟩ := record
      have small : (addr >>> 16).toNat < 2 ^ 16 := (shift_toNat addr).trans_lt (block_lt addr)
      by_cases same : addr >>> 16 = upper
      · subst same
        simp only [lines, ne_eq, not_true_eq_false, ↓reduceIte, List.cons_append, iHexRecords,
          shift_add_offset, ih]
      · simp only [lines, ne_eq, same, not_false_eq_true, ↓reduceIte, List.cons_append,
          iHexRecords, upperAddress, upper_of_shift _ small, shift_add_offset, ih]

/-- **The reader.** It recovers the records from their file. -/
theorem iHexRecords_image {records : List Addressed} {output : List Record}
    (written : image records = some output) : iHexRecords 0 output = records := by
  cases records with
  | nil => cases written
  | cons record records =>
      obtain rfl := Option.some.inj written
      simp only [List.cons_append, iHexRecords, upperAddress]
      exact iHexRecords_lines _ _

end Reader

section Stability

/-- The records that are written are sorted. -/
theorem mergedRecords_sorted {inputs : List MergeableFile} {patches : Option (List Patch)}
    {records : List Addressed} (merged : mergedRecords inputs patches = some records) :
    records.Pairwise fun first second => first.1.toNat ≤ second.1.toNat := by
  obtain ⟨files, _, scanned⟩ := Option.bind_eq_some_iff.mp merged
  have addresses := patchRecords_addresses scanned
  have sorted := sortByKey_sorted files.flatten
  rw [← List.pairwise_map (f := Prod.fst) (R := fun first second : UInt32 =>
    first.toNat ≤ second.toNat)] at sorted ⊢
  rwa [addresses]

theorem sortByKey_of_sorted {records : List Addressed}
    (sorted : records.Pairwise fun first second => first.1.toNat ≤ second.1.toNat) :
    sortByKey records = records :=
  sorted.insertionSort_eq

/-- A file of sorted records is merged to itself. -/
theorem mergeFiles_image {records : List Addressed} {output : List Record}
    (sorted : records.Pairwise fun first second => first.1.toNat ≤ second.1.toNat)
    (written : image records = some output) : mergeFiles [.iHex output] none = some output := by
  have read : mergedRecords [.iHex output] none = some records := by
    simp only [mergedRecords, List.mapM_cons, List.mapM_nil, fileRecords,
      iHexRecords_image written, Option.pure_def, Option.bind_eq_bind, Option.bind_some,
      List.flatten_cons, List.flatten_nil, List.append_nil, sortByKey_of_sorted sorted,
      Option.getD_none, List.reverse_nil, patchRecords_nil]
  rw [mergeFiles_eq, read, Option.bind_some, written]

/-- **An output is stable.** The reader recovers from it the records that the writer
emitted, which are sorted, and merged by itself it is written again. -/
theorem mergeFiles_stable (inputs : List MergeableFile) (patches : Option (List Patch))
    (output : List Record) (merged : mergeFiles inputs patches = some output) :
    mergedRecords inputs patches = some (iHexRecords 0 output) ∧
      ((iHexRecords 0 output).Pairwise fun first second => first.1.toNat ≤ second.1.toNat) ∧
      mergeFiles [.iHex output] none = some output := by
  rw [mergeFiles_eq] at merged
  obtain ⟨records, emitted, written⟩ := Option.bind_eq_some_iff.mp merged
  have sorted := mergedRecords_sorted emitted
  rw [iHexRecords_image written]
  exact ⟨emitted, sorted, mergeFiles_image sorted written⟩

/-- Two files with data at 0x20000, and data that runs into it. -/
def overlapping : List MergeableFile :=
  [.binary [0xAB, 0xCD] 0x20000,
   .iHex [.extendedLinearAddress 1, .data 0xFFFF ⟨[1, 2, 3], by decide⟩,
     .extendedLinearAddress 2, .data 0 ⟨[4], by decide⟩, .endOfFile]]

theorem mergeFiles_stable_overlapping :
    ∃ output, mergeFiles overlapping (some [(0x20001, 0xB4)]) = some output ∧
      mergedRecords overlapping (some [(0x20001, 0xB4)]) = some (iHexRecords 0 output) ∧
      ((iHexRecords 0 output).Pairwise fun first second => first.1.toNat ≤ second.1.toNat) ∧
      mergeFiles [.iHex output] none = some output := by
  have merged : mergeFiles overlapping (some [(0x20001, 0xB4)]) = some
      [.startLinearAddress 1, .data 0xFFFF ⟨[1, 2, 0xB4], by decide⟩, .extendedLinearAddress 2,
       .data 0 ⟨[0xAB, 0xCD], by decide⟩, .data 0 ⟨[4], by decide⟩, .endOfFile] := by
    decide +kernel
  exact ⟨_, merged, mergeFiles_stable _ _ _ merged⟩

end Stability

end PrimeBle.Xtask
