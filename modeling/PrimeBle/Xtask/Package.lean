import PrimeBle.Consts
import PrimeBle.Xtask.Layout
import PrimeBle.Xtask.Stages

/-! # The packages

A package is a merge of the SoftDevice with the programs of the device, under
patches of the SoftDevice. Of plain images that start in the first block, a
package holds every byte at its address, apart from the patches
(`Xtask.mem_merged_patched`). What it holds of the application area is the signed
image (`Xtask.mem_package_application`). A SoftDevice that was patched before makes
the same packages (`Xtask.patchSd_packages`).
-/

namespace PrimeBle.Xtask

open IntelHex

/-- The patches for version 7.3.0 of the SoftDevice. -/
def patches730 (val : UInt8) : Option (List Patch) :=
  some [(0x0001AE39, val), (0x0001ADB9, val), (0x00003009, val), (0x000012F5, val)]

/-- All patches are in front of the application. -/
theorem patches730_below : ∀ patch ∈ (patches730 0xB4).getD [],
    patch.1.toNat < baseAppAddr.toNat := by
  intro patch present
  simp only [patches730, Option.getD_some, List.mem_cons, List.not_mem_nil, or_false] at present
  rcases present with rfl | rfl | rfl | rfl
  · decide
  · decide
  · decide
  · decide

/-- The SoftDevice, the signed application and the bootloader. -/
def buildBtPackage (softdevice : List Record) (signed : List UInt8) (bootloader : List Record) :
    Option (List Record) :=
  mergeFiles [.iHex softdevice, .binary signed baseAppAddr, .iHex bootloader] (patches730 0xB4)

/-- The SoftDevice and the bootloader. -/
def buildBtMinimalPackage (softdevice bootloader : List Record) : Option (List Record) :=
  mergeFiles [.iHex softdevice, .iHex bootloader] (patches730 0xB4)

/-- The SoftDevice, the application and the bootloader, all without protection. -/
def buildBtPackageDebug (softdevice application bootloader : List Record) :
    Option (List Record) :=
  mergeFiles [.iHex softdevice, .iHex application, .iHex bootloader] (patches730 0xB4)

/-- The SoftDevice alone. -/
def patchSd (softdevice : List Record) : Option (List Record) :=
  mergeFiles [.iHex softdevice] (patches730 0xB4)

section Placement

/-- Where the bytes of records go. -/
def written (low : ℕ) (records : List Addressed) : List (ℕ × UInt8) :=
  records.flatMap fun record => placed (writtenAddress low record.1) record.2.1

theorem written_cons (low : ℕ) (record : Addressed) (records : List Addressed) :
    written low (record :: records) =
      placed (writtenAddress low record.1) record.2.1 ++ written low records := rfl

theorem mem_written {low address : ℕ} {byte : UInt8} {records : List Addressed} :
    (address, byte) ∈ written low records ↔
      ∃ record ∈ records, (address, byte) ∈ placed (writtenAddress low record.1) record.2.1 :=
  List.mem_flatMap

/-- The file for sorted records places their bytes. -/
theorem contents_image {record : Addressed} {records : List Addressed} {output : List Record}
    (sorted : (record :: records).Pairwise fun first second => first.1.toNat ≤ second.1.toNat)
    (file : image (record :: records) = some output) :
    IntelHex.contents output = written (block record.1) (record :: records) := by
  have least : ∀ later ∈ record :: records, (record.1 >>> 16).toNat ≤ block later.1 := by
    intro later present
    rw [shift_toNat]
    refine Nat.div_le_div_right ?_
    cases present with
    | head => exact Nat.le_refl _
    | tail _ later => exact (List.pairwise_cons.mp sorted).1 _ later
  obtain ⟨body, scanned, goes⟩ := outRecords_contents (block record.1) (record :: records)
    (record.1 >>> 16) (shift_toNat record.1).ge least sorted
  rw [outRecords_eq, patchRecords_nil] at scanned
  have initial : outputBase (block record.1) (record.1 >>> 16) = .initial :=
    if_pos (shift_toNat record.1)
  obtain rfl := Option.some.inj scanned
  obtain rfl := Option.some.inj file
  rw [initial] at goes
  exact goes

/-- In a file that starts in the first block, bytes follow the address of their
record. -/
theorem writtenAddress_zero (address : UInt32) {i : ℕ} (short : i ≤ 255) :
    writtenAddress 0 address i = (address.toNat + i) % 2 ^ 32 := by
  unfold writtenAddress block
  split <;> omega

end Placement

section Patching

/-- A byte that is set changes no other. -/
theorem mem_placed_set {place : ℕ → ℕ} {value : Payload} {index address : ℕ} {set byte : UInt8}
    (elsewhere : place index ≠ address) :
    (address, byte) ∈ placed place (value.set index set).1 ↔
      (address, byte) ∈ placed place value.1 := by
  rw [mem_placed, mem_placed]
  refine exists_congr fun i => and_congr_right fun here => ?_
  have different : index ≠ i := by
    rintro rfl
    exact elsewhere here
  rw [Payload.set, List.getElem?_set_ne different]

/-- Patches change no byte at another address. -/
theorem written_patchRecords {patches : List Patch} {records patched : List Addressed}
    (scanned : patchRecords patches records = some patched) {address : ℕ}
    (elsewhere : ∀ patch ∈ patches, patch.1.toNat ≠ address) (byte : UInt8) :
    (address, byte) ∈ written 0 patched ↔ (address, byte) ∈ written 0 records := by
  induction records generalizing patches patched with
  | nil =>
      cases scanned
      rfl
  | cons record records ih =>
      cases patches with
      | nil =>
          rw [patchRecords_nil] at scanned
          cases scanned
          rfl
      | cons patch patches =>
          obtain ⟨here, later⟩ := List.forall_mem_cons.mp elsewhere
          by_cases inside : Inside record patch.1
          · obtain ⟨-, rest, others, rfl⟩ := (patchRecords_inside inside).mp scanned
            have index : (patch.1 - record.1).toNat = patch.1.toNat - record.1.toNat :=
              UInt32.toNat_sub_of_le _ _ inside.1
            have bounded := patch.1.toNat_lt
            have short := record.2.2
            have place : writtenAddress 0 record.1 (patch.1 - record.1).toNat = patch.1.toNat := by
              obtain ⟨above, below⟩ := inside
              unfold finish Payload.length at below
              rw [index, writtenAddress_zero record.1 (by omega)]
              omega
            rw [written_cons, written_cons, List.mem_append, List.mem_append, ih others later,
              mem_placed_set (place.trans_ne here)]
          · obtain ⟨-, rest, others, rfl⟩ := (patchRecords_outside inside).mp scanned
            rw [written_cons, written_cons, List.mem_append, List.mem_append,
              ih others elsewhere]

end Patching

section Merging

variable {inputs : List MergeableFile}

/-- A data record of plain images goes to its standard addresses. -/
theorem placed_of_plain (plain : ∀ file ∈ inputs, file.Plain) {piece : Piece}
    (present : piece ∈ pieces inputs) :
    placed (writtenAddress 0 piece.address) piece.value.1 = piece.contents := by
  obtain ⟨file, given, present⟩ := List.mem_flatMap.mp present
  refine placed_congr fun i inside => ?_
  rw [standard_of_plain (plain file given) piece present i inside,
    writtenAddress_zero piece.address (inside.le.trans piece.value.2)]

/-- The scan of a merge that starts in the first block, and what its output places. -/
theorem contents_of_merged {patches : Option (List Patch)} {output : List Record}
    (start : ∃ piece ∈ pieces inputs, block piece.address = 0)
    (merged : mergeFiles inputs patches = some output) :
    ∃ patched, patchRecords (patches.getD []).reverse (sortByKey (inputRecords inputs)) =
        some patched ∧ IntelHex.contents output = written 0 patched := by
  have lowest : LowestBlock inputs 0 := ⟨start, fun _ _ => Nat.zero_le _⟩
  rw [mergeFiles_eq] at merged
  obtain ⟨patched, emitted, file⟩ := Option.bind_eq_some_iff.mp merged
  have ordered := mergedRecords_sorted emitted
  rw [mergedRecords_eq] at emitted
  obtain ⟨records, read, scanned⟩ := Option.bind_eq_some_iff.mp emitted
  rw [(readFiles_eq_some.mp read).2] at scanned
  refine ⟨patched, scanned, ?_⟩
  have addresses := patchRecords_addresses scanned
  cases patched with
  | nil => cases file
  | cons record records =>
      cases sorted : sortByKey (inputRecords inputs) with
      | nil =>
          rw [sorted] at addresses
          cases addresses
      | cons head rest =>
          rw [sorted, List.map_cons, List.map_cons] at addresses
          have first : block record.1 = 0 := by
            rw [(List.cons.inj addresses).1]
            exact (lowestBlock_head sorted).unique lowest
          rw [contents_image ordered file, first]

/-- **Packages.** Plain images that start in the first block are merged in place,
whatever the patches, apart from the addresses of these. -/
theorem mem_merged_patched {patches : Option (List Patch)} {output : List Record}
    (plain : ∀ file ∈ inputs, file.Plain) (start : ∃ piece ∈ pieces inputs, block piece.address = 0)
    (merged : mergeFiles inputs patches = some output) {address : ℕ}
    (elsewhere : ∀ patch ∈ patches.getD [], patch.1.toNat ≠ address) (byte : UInt8) :
    (address, byte) ∈ IntelHex.contents output ↔
      ∃ file ∈ inputs, (address, byte) ∈ file.contents := by
  obtain ⟨patched, scanned, places⟩ := contents_of_merged start merged
  have unpatched : ∀ patch ∈ (patches.getD []).reverse, patch.1.toNat ≠ address :=
    fun patch present => elsewhere patch (List.mem_reverse.mp present)
  rw [places, written_patchRecords scanned unpatched byte, mem_written, ← mem_pieces_contents]
  simp only [mem_sortByKey, inputRecords, List.mem_map, exists_exists_and_eq_and]
  refine exists_congr fun piece => and_congr_right fun present => ?_
  rw [← placed_of_plain plain present]
  rfl

/-- The addresses of the application. -/
def InApplication (address : ℕ) : Prop :=
  baseAppAddr.toNat ≤ address ∧ address < baseBootloaderAddr.toNat

/-- The images of a package: plain files outside the application area, of which the
SoftDevice starts in the first block, and a signed image that fits the area. -/
structure Packageable (softdevice : List Record) (signed : List UInt8)
    (bootloader : List Record) : Prop where
  entryPoints : EntryPointsLast softdevice ∧ EntryPointsLast bootloader
  start : ∃ piece ∈ (MergeableFile.iHex softdevice).pieces, block piece.address = 0
  fits : baseAppAddr.toNat + signed.length ≤ baseBootloaderAddr.toNat
  apart : ∀ cell ∈ IntelHex.contents softdevice ++ IntelHex.contents bootloader,
    ¬ InApplication cell.1

/-- In the application area a package holds the signed image, from its start. -/
theorem mem_package_application {softdevice bootloader package : List Record}
    {signed : List UInt8} (packageable : Packageable softdevice signed bootloader)
    (built : buildBtPackage softdevice signed bootloader = some package) {address : ℕ}
    (area : InApplication address) (byte : UInt8) :
    (address, byte) ∈ IntelHex.contents package ↔
      signed[address - baseAppAddr.toNat]? = some byte := by
  have bound : baseBootloaderAddr.toNat < 2 ^ 32 := baseBootloaderAddr.toNat_lt
  have plain : ∀ file ∈ [.iHex softdevice, .binary signed baseAppAddr, .iHex bootloader],
      MergeableFile.Plain file := by
    simp only [List.forall_mem_cons]
    exact ⟨packageable.entryPoints.1, packageable.fits.trans bound.le,
      packageable.entryPoints.2, nofun⟩
  have start : ∃ piece ∈ pieces
      [.iHex softdevice, .binary signed baseAppAddr, .iHex bootloader],
      block piece.address = 0 := by
    obtain ⟨piece, present, first⟩ := packageable.start
    exact ⟨piece, List.mem_append_left _ present, first⟩
  have elsewhere : ∀ patch ∈ (patches730 0xB4).getD [], patch.1.toNat ≠ address := by
    exact fun patch present => (Nat.lt_of_lt_of_le (patches730_below patch present) area.1).ne
  have apart : ∀ cell ∈ IntelHex.contents softdevice ++ IntelHex.contents bootloader,
      cell.1 ≠ address := fun cell present same => packageable.apart cell present (same ▸ area)
  rw [mem_merged_patched plain start built elsewhere]
  constructor
  · rintro ⟨file, given, holds⟩
    simp only [List.mem_cons, List.not_mem_nil, or_false] at given
    rcases given with rfl | rfl | rfl
    · exact absurd rfl (apart _ (List.mem_append_left _ holds))
    · obtain ⟨i, here, found⟩ := mem_placed.mp holds
      rwa [← here, Nat.add_sub_cancel_left]
    · exact absurd rfl (apart _ (List.mem_append_right _ holds))
  · intro found
    refine ⟨.binary signed baseAppAddr, List.mem_cons_of_mem _ (List.mem_cons_self ..), ?_⟩
    exact mem_placed.mpr ⟨_, Nat.add_sub_cancel' area.1, found⟩

/-- The slices of the signed image hold bytes of the application area, and no patch. -/
theorem signed_piece {signed : List UInt8}
    (fits : baseAppAddr.toNat + signed.length ≤ baseBootloaderAddr.toNat) {piece : Piece}
    (present : piece ∈ (MergeableFile.binary signed baseAppAddr).pieces) :
    baseAppAddr.toNat ≤ piece.address.toNat ∧
      ∀ address byte, (address, byte) ∈ piece.contents → InApplication address := by
  have bound : baseBootloaderAddr.toNat < 2 ^ 32 := baseBootloaderAddr.toNat_lt
  constructor
  · obtain ⟨i, inside, rfl⟩ := List.mem_map.mp present
    have count : i < (signed.length + 31) / 32 := List.mem_range.mp inside
    obtain ⟨-, skipped⟩ := toNat_toUInt32_mul (i := i) (by omega)
    change baseAppAddr.toNat ≤ (baseAppAddr + i.toUInt32 * 32).toNat
    rw [UInt32.toNat_add, skipped, Nat.mod_eq_of_lt (by omega)]
    exact Nat.le_add_right _ _
  · intro address byte holds
    obtain ⟨index, here, found⟩ := mem_placed.mp
      ((mem_contents (.binary signed baseAppAddr) address byte).mpr ⟨piece, present, holds⟩)
    have below : index < signed.length := (List.getElem?_eq_some_iff.mp found).1
    exact ⟨by omega, by omega⟩

/-- The records of the images, those of the signed image marked. -/
def taggedRecords (softdevice : List Record) (signed : List UInt8) (bootloader : List Record) :
    List (Addressed × Bool) :=
  let tag (mark : Bool) (file : MergeableFile) : List (Addressed × Bool) :=
    file.pieces.map fun piece => (piece.record, mark)
  tag true (.iHex softdevice) ++ tag false (.binary signed baseAppAddr) ++
    tag true (.iHex bootloader)

section Tagged

variable {softdevice bootloader : List Record} {signed : List UInt8}

theorem taggedRecords_fst :
    (taggedRecords softdevice signed bootloader).map Prod.fst =
      inputRecords [.iHex softdevice, .binary signed baseAppAddr, .iHex bootloader] := by
  simp only [taggedRecords, inputRecords, pieces, List.map_append, List.map_map,
    List.flatMap_cons, List.flatMap_nil, List.append_nil, List.append_assoc]
  rfl

theorem taggedRecords_filter :
    ((taggedRecords softdevice signed bootloader).filter Prod.snd).map Prod.fst =
      inputRecords [.iHex softdevice, .iHex bootloader] := by
  simp only [taggedRecords, inputRecords, pieces, List.filter_append, List.filter_map,
    Function.comp_def, List.filter_true, List.filter_false, List.map_append, List.map_map,
    List.flatMap_cons, List.flatMap_nil, List.append_nil, List.map_nil]

theorem mem_taggedRecords_false {record : Addressed} :
    (record, false) ∈ taggedRecords softdevice signed bootloader ↔
      ∃ piece ∈ (MergeableFile.binary signed baseAppAddr).pieces, piece.record = record := by
  simp only [taggedRecords, List.mem_append, List.mem_map, Prod.mk.injEq, Bool.true_eq_false,
    and_false, exists_false, or_false, false_or, and_true]

end Tagged

/-- Outside the application area a package holds what the minimal package does. -/
theorem mem_package_outside {softdevice bootloader package minimal : List Record}
    {signed : List UInt8} (packageable : Packageable softdevice signed bootloader)
    (built : buildBtPackage softdevice signed bootloader = some package)
    (builtMinimal : buildBtMinimalPackage softdevice bootloader = some minimal) {address : ℕ}
    (outside : ¬ InApplication address) (byte : UInt8) :
    (address, byte) ∈ IntelHex.contents package ↔
      (address, byte) ∈ IntelHex.contents minimal := by
  obtain ⟨start, present, first⟩ := packageable.start
  obtain ⟨patched, scanned, places⟩ :=
    contents_of_merged ⟨start, List.mem_append_left _ present, first⟩ built
  obtain ⟨rest, scannedRest, placesRest⟩ :=
    contents_of_merged ⟨start, List.mem_append_left _ present, first⟩ builtMinimal
  have bystanders : ∀ record, (record, false) ∈ taggedRecords softdevice signed bootloader →
      ∀ patch ∈ ((patches730 0xB4).getD []).reverse, ¬ Inside record patch.1 := by
    intro record member patch given inside
    obtain ⟨piece, found, rfl⟩ := mem_taggedRecords_false.mp member
    have above := (signed_piece packageable.fits found).1.trans inside.1
    exact absurd above (Nat.not_le.mpr (patches730_below patch (List.mem_reverse.mp given)))
  rw [← taggedRecords_fst] at scanned
  rw [← taggedRecords_filter] at scannedRest
  obtain ⟨same, scannedSame, members⟩ := scan_without scanned bystanders
  obtain rfl := Option.some.inj (scannedSame.symm.trans scannedRest)
  rw [places, placesRest, mem_written, mem_written]
  constructor
  · rintro ⟨record, member, holds⟩
    rcases (members record).mp member with kept | extra
    · exact ⟨record, kept, holds⟩
    · obtain ⟨piece, found, rfl⟩ := mem_taggedRecords_false.mp extra
      refine absurd ((signed_piece packageable.fits found).2 address byte ?_) outside
      have plain : ∀ file ∈ [.binary signed baseAppAddr], MergeableFile.Plain file := by
        rw [List.forall_mem_singleton]
        exact packageable.fits.trans baseBootloaderAddr.toNat_lt.le
      rw [← placed_of_plain plain (List.mem_append_left [] found)]
      exact holds
  · rintro ⟨record, member, holds⟩
    exact ⟨record, (members record).mpr (Or.inl member), holds⟩

/-- No record of the file holds an address that is patched. -/
def Unpatched (file : MergeableFile) : Prop :=
  ∀ piece ∈ file.pieces, ∀ patch ∈ (patches730 0xB4).getD [], ¬ Inside piece.record patch.1

theorem unpatched_records {files : List MergeableFile}
    (outside : ∀ file ∈ files, Unpatched file) :
    ∀ record ∈ inputRecords files, ∀ patch ∈ (patches730 0xB4).getD [],
      ¬ Inside record patch.1 := by
  intro record present
  obtain ⟨piece, member, rfl⟩ := List.mem_map.mp present
  obtain ⟨file, given, found⟩ := List.mem_flatMap.mp member
  exact outside file given piece found

/-- The patches are in front of the application. -/
theorem unpatched_of_behind {file : MergeableFile}
    (behind : ∀ piece ∈ file.pieces, baseAppAddr.toNat ≤ piece.address.toNat) :
    Unpatched file := by
  intro piece found patch given inside
  exact absurd ((behind piece found).trans inside.1)
    (Nat.not_le.mpr (patches730_below patch given))

theorem signed_unpatched {signed : List UInt8}
    (fits : baseAppAddr.toNat + signed.length ≤ baseBootloaderAddr.toNat) :
    Unpatched (.binary signed baseAppAddr) :=
  unpatched_of_behind fun _ found => (signed_piece fits found).1

/-- A patched SoftDevice stands in for the SoftDevice in front of other files. -/
theorem mergeFiles_patchSd {softdevice patched : List Record}
    (done : patchSd softdevice = some patched) {rest : List MergeableFile}
    (outside : ∀ file ∈ rest, Unpatched file) :
    mergeFiles (.iHex patched :: rest) (patches730 0xB4) =
      mergeFiles (.iHex softdevice :: rest) (patches730 0xB4) := by
  unfold patchSd at done
  rw [mergeFiles_eq] at done
  obtain ⟨records, emitted, written⟩ := Option.bind_eq_some_iff.mp done
  have same := mergedRecords_staged emitted written [] rest (unpatched_records outside)
  rw [mergeFiles_eq, mergeFiles_eq]
  exact congrArg (·.bind image) same

/-- **Patching ahead.** Patching a patched SoftDevice again changes nothing, and every
package is the same whether its SoftDevice was patched before or not. -/
theorem patchSd_packages {softdevice patched bootloader : List Record}
    (done : patchSd softdevice = some patched) (apart : Unpatched (.iHex bootloader)) :
    patchSd patched = some patched ∧
      buildBtMinimalPackage patched bootloader = buildBtMinimalPackage softdevice bootloader ∧
      (∀ signed : List UInt8, baseAppAddr.toNat + signed.length ≤ baseBootloaderAddr.toNat →
        buildBtPackage patched signed bootloader =
          buildBtPackage softdevice signed bootloader) ∧
      ∀ application, Unpatched (.iHex application) →
        buildBtPackageDebug patched application bootloader =
          buildBtPackageDebug softdevice application bootloader := by
  have single : ∀ file ∈ [.iHex bootloader], Unpatched file := by
    rw [List.forall_mem_singleton]
    exact apart
  refine ⟨?_, mergeFiles_patchSd done single, fun signed fits => ?_, fun application outside => ?_⟩
  · exact (mergeFiles_patchSd done (List.forall_mem_nil _)).trans done
  · apply mergeFiles_patchSd done
    rw [List.forall_mem_cons]
    exact ⟨signed_unpatched fits, single⟩
  · apply mergeFiles_patchSd done
    rw [List.forall_mem_cons]
    exact ⟨outside, single⟩

end Merging

/-- Zeros where the patches are. -/
private def sampleSoftdevice : List Record :=
  let zeros : Payload := ⟨List.replicate 16 0, by decide⟩
  [.data 0x12F0 zeros, .data 0x3000 zeros, .extendedLinearAddress 1, .data 0xADB0 zeros,
    .data 0xAE30 zeros, .endOfFile]

private def patchedSoftdevice : List Record := (patchSd sampleSoftdevice).getD []

private def sampleBootloader : List Record :=
  [.extendedLinearAddress 2, .data 0x7000 ⟨[0xB0, 0x07], by decide⟩, .endOfFile]

private theorem sampleBootloader_unpatched : Unpatched (.iHex sampleBootloader) := by
  apply unpatched_of_behind
  intro piece present
  obtain rfl := List.mem_singleton.mp present
  decide

theorem patchSd_packages_sample :
    patchSd patchedSoftdevice = some patchedSoftdevice ∧
      buildBtMinimalPackage patchedSoftdevice sampleBootloader =
        buildBtMinimalPackage sampleSoftdevice sampleBootloader ∧
      (∀ signed : List UInt8, baseAppAddr.toNat + signed.length ≤ baseBootloaderAddr.toNat →
        buildBtPackage patchedSoftdevice signed sampleBootloader =
          buildBtPackage sampleSoftdevice signed sampleBootloader) ∧
      ∀ application, Unpatched (.iHex application) →
        buildBtPackageDebug patchedSoftdevice application sampleBootloader =
          buildBtPackageDebug sampleSoftdevice application sampleBootloader :=
  patchSd_packages (by decide +kernel) sampleBootloader_unpatched

end PrimeBle.Xtask
