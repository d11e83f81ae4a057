import PrimeBle.Xtask.MemoryMap

/-! # The layouts a merge preserves

Where the data of the inputs goes does not depend on what it is. A layout is
preserved, whatever data fills it, exactly when every byte is written to its
standard address (`Xtask.preserves_iff_placesAgree`), as images are that start in
the first block and name their entry points last (`Xtask.placesAgree_of_plain`).
-/

namespace PrimeBle.Xtask

open IntelHex

/-- No address is given a byte twice. -/
def DisjointRanges (inputs : List MergeableFile) : Prop :=
  ((inputs.flatMap MergeableFile.contents).map Prod.fst).Nodup

/-- The file with every byte of data zero. -/
def MergeableFile.blank : MergeableFile → MergeableFile
  | .iHex records => .iHex (records.map Record.blank)
  | .binary data globalOffset => .binary (data.map fun _ => 0) globalOffset

/-- The inputs differ in the bytes of their data only. -/
def SameLayout (first second : List MergeableFile) : Prop :=
  first.map MergeableFile.blank = second.map MergeableFile.blank

section Outlines

/-- A data record without its bytes. -/
def Piece.outline (piece : Piece) : UInt32 × ℕ × (ℕ → ℕ) :=
  (piece.address, piece.value.length, piece.standard)

theorem iHexPieces_blank (upper : UInt32) (base : Base) (records : List Record) :
    (iHexPieces upper base (records.map Record.blank)).map Piece.outline =
      (iHexPieces upper base records).map Piece.outline := by
  induction records generalizing upper base with
  | nil => rfl
  | cons record rest ih =>
      cases record with
      | data offset value =>
          simp only [List.map_cons, Record.blank, iHexPieces, Piece.outline,
            Payload.length_mapIdx, ih upper base]
      | endOfFile => rfl
      | _ =>
          simp only [List.map_cons, Record.blank, iHexPieces]
          exact ih _ _

theorem pieces_blank (file : MergeableFile) :
    file.blank.pieces.map Piece.outline = file.pieces.map Piece.outline := by
  cases file with
  | iHex records => exact iHexPieces_blank 0 .initial records
  | binary data globalOffset =>
      simp only [MergeableFile.blank, MergeableFile.pieces, chunkCount, List.length_map,
        List.map_map]
      refine List.map_congr_left fun i _ => ?_
      simp only [Function.comp_apply, Piece.outline, binaryPiece, Payload.length, chunk,
        List.length_take, List.length_drop, List.length_map]

theorem SameLayout.outlines {first second : List MergeableFile} (same : SameLayout first second) :
    (pieces first).map Piece.outline = (pieces second).map Piece.outline := by
  have blank : ∀ inputs : List MergeableFile, (pieces inputs).map Piece.outline =
      (pieces (inputs.map MergeableFile.blank)).map Piece.outline := fun inputs => by
    simp only [pieces, List.map_flatMap, List.flatMap_map, pieces_blank]
  rw [blank first, blank second, same]

/-- A record of one input has a counterpart in every input of the layout. -/
theorem SameLayout.counterpart {first second : List MergeableFile}
    (same : SameLayout first second) {piece : Piece} (present : piece ∈ pieces first) :
    ∃ other ∈ pieces second, other.outline = piece.outline := by
  have outline := List.mem_map_of_mem (f := Piece.outline) present
  rw [same.outlines] at outline
  exact List.mem_map.mp outline

theorem SameLayout.lowestBlock {first second : List MergeableFile}
    (same : SameLayout first second) {low : ℕ} (lowest : LowestBlock first low) :
    LowestBlock second low := by
  constructor
  · obtain ⟨piece, present, starts⟩ := lowest.1
    obtain ⟨other, found, outline⟩ := same.counterpart present
    exact ⟨other, found, (congrArg (block ·.1) outline).trans starts⟩
  · rintro _ ⟨piece, present, rfl⟩
    obtain ⟨other, found, outline⟩ := SameLayout.counterpart (Eq.symm same) present
    exact lowest.2 ⟨other, found, congrArg (block ·.1) outline⟩

/-- Whether a layout is written in place does not depend on its data. -/
theorem PlacesAgree.sameLayout {first second : List MergeableFile} (agree : PlacesAgree first)
    (same : SameLayout first second) : PlacesAgree second := by
  obtain ⟨low, lowest, places⟩ := agree
  refine ⟨low, same.lowestBlock lowest, fun piece present i inside => ?_⟩
  obtain ⟨other, found, outline⟩ := SameLayout.counterpart (Eq.symm same) present
  obtain ⟨address, shape⟩ := Prod.mk.inj outline
  obtain ⟨length, standard⟩ := Prod.mk.inj shape
  rw [← address, ← standard]
  exact places other found i (length ▸ inside)

end Outlines

section Refilling

variable (image : ℕ → UInt8)

/-- The file with its data taken from a memory image. -/
def MergeableFile.refill : MergeableFile → MergeableFile
  | .iHex records => .iHex (IntelHex.refill (fun address _ => image address) records)
  | .binary data globalOffset =>
      .binary (data.mapIdx fun i _ => image (globalOffset.toNat + i)) globalOffset

def Piece.refill (piece : Piece) : Piece :=
  { piece with value := piece.value.mapIdx fun i _ => image (piece.standard i) }

theorem refillFrom_blank (f : ℕ → UInt8 → UInt8) (base : Base) (records : List Record) :
    (refillFrom f base records).map Record.blank = records.map Record.blank := by
  induction records generalizing base with
  | nil => rfl
  | cons record rest ih =>
      cases record with
      | data offset value =>
          simp only [refillFrom, List.map_cons, Record.blank, Payload.mapIdx_mapIdx, ih]
      | endOfFile => rfl
      | _ => simp only [refillFrom, List.map_cons, ih]

theorem sameLayout_refill (inputs : List MergeableFile) :
    SameLayout inputs (inputs.map (MergeableFile.refill image)) := by
  rw [SameLayout, List.map_map]
  refine List.map_congr_left fun file _ => ?_
  cases file with
  | iHex records => exact congrArg MergeableFile.iHex (refillFrom_blank _ .initial records).symm
  | binary data globalOffset =>
      simp only [Function.comp_apply, MergeableFile.refill, MergeableFile.blank,
        List.map_const', List.length_mapIdx]

theorem iHexPieces_refill (upper : UInt32) (base : Base) (records : List Record) :
    iHexPieces upper base (refillFrom (fun address _ => image address) base records) =
      (iHexPieces upper base records).map (Piece.refill image) := by
  induction records generalizing upper base with
  | nil => rfl
  | cons record rest ih =>
      cases record with
      | data offset value =>
          simp only [refillFrom, iHexPieces, List.map_cons, Piece.refill, ih upper base]
      | endOfFile => rfl
      | _ =>
          simp only [refillFrom, iHexPieces]
          exact ih _ _

theorem chunk_mapIdx (f : ℕ → UInt8 → UInt8) (data : List UInt8) (i : ℕ) :
    chunk (data.mapIdx f) i = (chunk data i).mapIdx fun j => f (32 * i + j) := by
  apply Subtype.ext
  apply List.ext_getElem
  · simp only [chunk, Payload.mapIdx, List.length_take, List.length_drop, List.length_mapIdx]
  · intro j _ _
    simp only [chunk, Payload.mapIdx, List.getElem_take, List.getElem_drop, List.getElem_mapIdx]

theorem pieces_refill (file : MergeableFile) :
    (file.refill image).pieces = file.pieces.map (Piece.refill image) := by
  cases file with
  | iHex records => exact iHexPieces_refill image 0 .initial records
  | binary data globalOffset =>
      simp only [MergeableFile.refill, MergeableFile.pieces, chunkCount, List.length_mapIdx,
        List.map_map]
      refine List.map_congr_left fun i _ => ?_
      simp only [Function.comp_apply, binaryPiece, Piece.refill, chunk_mapIdx]

/-- Every byte of a refilled file is the one of the image at its address. -/
theorem contents_refill (file : MergeableFile) :
    (file.refill image).contents = file.contents.map fun cell => (cell.1, image cell.1) := by
  cases file with
  | iHex records => exact IntelHex.contents_refill (fun address _ => image address) records
  | binary data globalOffset =>
      exact placed_mapIdx (fun address _ => image address) (globalOffset.toNat + ·) data

theorem byte_of_mem_refill {file : MergeableFile} {address : ℕ} {byte : UInt8}
    (present : (address, byte) ∈ (file.refill image).contents) : byte = image address := by
  rw [contents_refill] at present
  obtain ⟨cell, _, same⟩ := List.mem_map.mp present
  obtain ⟨rfl, rfl⟩ := Prod.mk.inj same
  rfl

end Refilling

/-- A layout whose map is preserved for all data is written in place: data that
singles out one standard address shows where the byte goes. -/
theorem placesAgree_of_preserves {inputs : List MergeableFile}
    (preserved : ∀ refilled, SameLayout inputs refilled → Preserves refilled) :
    PlacesAgree inputs := by
  obtain ⟨_, merged, _⟩ := preserved inputs rfl
  obtain ⟨_, low, lowest⟩ := of_merged merged
  refine ⟨low, lowest, fun piece present i inside => ?_⟩
  let image : ℕ → UInt8 := fun address => if address = piece.standard i then 1 else 0
  have layout := sameLayout_refill image inputs
  obtain ⟨output, merged, exact⟩ := preserved _ layout
  obtain ⟨output', merged', goes⟩ := mem_merged (of_merged merged).1 (layout.lowestBlock lowest)
  obtain rfl : output' = output := Option.some.inj (merged'.symm.trans merged)
  have written : (writtenAddress low piece.address i, 1) ∈ IntelHex.contents output' := by
    refine (goes _ _).mpr ⟨piece.refill image, ?_, mem_placed.mpr ⟨i, rfl, ?_⟩⟩
    · simp only [pieces, List.flatMap_map, pieces_refill, ← List.map_flatMap]
      exact List.mem_map_of_mem present
    · have one : image (piece.standard i) = 1 := if_pos rfl
      change (piece.value.1.mapIdx fun j _ => image (piece.standard j))[i]? = some 1
      rw [List.getElem?_mapIdx, List.getElem?_eq_getElem inside, Option.map_some, one]
  obtain ⟨file, given, found⟩ := (exact _ _).mp written
  obtain ⟨original, _, rfl⟩ := List.mem_map.mp given
  have byte := byte_of_mem_refill image found
  by_contra elsewhere
  have zero : image (writtenAddress low piece.address i) = 0 := if_neg (Ne.symm elsewhere)
  rw [zero] at byte
  cases byte

/-- The inputs of a layout are merged to their memory map, whatever their data,
exactly when every byte is written to its standard address. -/
theorem preserves_iff_placesAgree (inputs : List MergeableFile) :
    (∀ refilled, SameLayout inputs refilled → Preserves refilled) ↔ PlacesAgree inputs :=
  ⟨placesAgree_of_preserves, fun agree _ same => (agree.sameLayout same).preserves⟩

section EntryPointsLast

/-- Linear addresses only, and no data after an entry point. -/
def EntryPointsLast : List Record → Prop
  | [] => True
  | .endOfFile :: _ => True
  | .data _ _ :: rest | .extendedLinearAddress _ :: rest => EntryPointsLast rest
  | _ :: rest => ∀ offset value, .data offset value ∉ rest

/-- A file whose entry points come last, or a binary that fits the address space. -/
def MergeableFile.Plain : MergeableFile → Prop
  | .iHex records => EntryPointsLast records
  | .binary data globalOffset => globalOffset.toNat + data.length ≤ 2 ^ 32

theorem iHexPieces_eq_nil (upper : UInt32) (base : Base) (records : List Record)
    (none : ∀ offset value, .data offset value ∉ records) :
    iHexPieces upper base records = [] := by
  induction records generalizing upper base with
  | nil => rfl
  | cons record rest ih =>
      have later : ∀ offset value, .data offset value ∉ rest := fun offset value present =>
        none offset value (List.mem_cons_of_mem _ present)
      cases record with
      | data offset value => exact absurd (List.mem_cons_self ..) (none offset value)
      | endOfFile => rfl
      | _ =>
          simp only [iHexPieces]
          exact ih _ _ later

theorem standard_of_entryPointsLast (upper : UInt32) (addr : UInt16) (records : List Record)
    (read : upper = addr.toUInt32 <<< 16) (last : EntryPointsLast records) :
    ∀ piece ∈ iHexPieces upper (.linear addr) records, ∀ i,
      piece.standard i = (piece.address.toNat + i) % 2 ^ 32 := by
  induction records generalizing upper addr with
  | nil => intro piece present; cases present
  | cons record rest ih =>
      cases record with
      | data offset value =>
          have bounded := addr.toNat_lt
          have small := offset.toNat_lt
          have base : upper.toNat = addr.toNat * 2 ^ 16 := by
            have shift : (16 : UInt32).toNat % 32 = 16 := rfl
            rw [read, UInt32.toNat_shiftLeft, UInt16.toNat_toUInt32, shift, Nat.shiftLeft_eq]
            exact Nat.mod_eq_of_lt (by omega)
          have sum : (upper + offset.toUInt32).toNat = addr.toNat * 2 ^ 16 + offset.toNat := by
            rw [UInt32.toNat_add, UInt16.toNat_toUInt32, base]
            exact Nat.mod_eq_of_lt (by omega)
          intro piece present i
          cases present with
          | head => exact congrArg (fun start => (start + i) % 2 ^ 32) sum.symm
          | tail _ later => exact ih upper addr read last piece later i
      | endOfFile => intro piece present; cases present
      | extendedLinearAddress next =>
          simp only [iHexPieces]
          exact ih _ next rfl last
      | _ =>
          intro piece present
          simp only [iHexPieces, iHexPieces_eq_nil _ _ rest last, List.not_mem_nil] at present

/-- The bytes of a plain image follow the address that is read for their record. -/
theorem standard_of_plain {file : MergeableFile} (plain : file.Plain) :
    ∀ piece ∈ file.pieces, ∀ i < piece.value.length,
      piece.standard i = (piece.address.toNat + i) % 2 ^ 32 := by
  cases file with
  | iHex records =>
      intro piece present i _
      exact standard_of_entryPointsLast 0 0 records rfl plain piece present i
  | binary data globalOffset =>
      intro piece present i inside
      obtain ⟨index, _, rfl⟩ := List.mem_map.mp present
      have fits : globalOffset.toNat + data.length ≤ 2 ^ 32 := plain
      have length : i < min 32 (data.length - 32 * index) := by
        simpa only [binaryPiece, Payload.length, chunk, List.length_take, List.length_drop]
          using inside
      obtain ⟨_, skipped⟩ := toNat_toUInt32_mul (i := index) (by omega)
      have start : (globalOffset + index.toUInt32 * 32).toNat =
          globalOffset.toNat + 32 * index := by
        rw [UInt32.toNat_add, skipped, Nat.mod_eq_of_lt (by omega)]
      simp only [binaryPiece, start]
      omega

/-- Plain images that start in the first block are merged in place. -/
theorem placesAgree_of_plain {inputs : List MergeableFile}
    (plain : ∀ file ∈ inputs, file.Plain)
    (start : ∃ piece ∈ pieces inputs, block piece.address = 0) : PlacesAgree inputs := by
  refine ⟨0, ⟨start, fun _ _ => Nat.zero_le _⟩, fun piece present i inside => ?_⟩
  obtain ⟨file, given, present⟩ := List.mem_flatMap.mp present
  have short : i ≤ 255 := inside.le.trans piece.value.2
  rw [standard_of_plain (plain file given) piece present i inside, writtenAddress, block]
  split <;> omega

end EntryPointsLast

section Broken

theorem not_preserves {inputs : List MergeableFile} {output : List Record} {address : ℕ}
    {byte : UInt8} (merged : mergeFiles inputs none = some output)
    (given : ∃ file ∈ inputs, (address, byte) ∈ file.contents)
    (missing : (address, byte) ∉ IntelHex.contents output) : ¬ Preserves inputs := by
  intro ⟨output', merged', exact⟩
  obtain rfl : output' = output := Option.some.inj (merged'.symm.trans merged)
  exact missing ((exact address byte).mpr given)

/-- An application by itself: its first block is announced as an entry point. -/
def applicationOnly : List MergeableFile := [.binary [0xAB] 0x1B400]

/-- A file that names its entry point before its data. -/
def entryPointFirst : List MergeableFile :=
  [.binary [0xAB] 0x100,
   .iHex [.startLinearAddress 1, .data 0 ⟨[0xCD], by decide⟩, .endOfFile]]

/-- Disjoint images are moved when none of them is in the first block, and when an
entry point is read as a base. -/
theorem map_broken :
    (DisjointRanges applicationOnly ∧ ¬ Preserves applicationOnly) ∧
    (DisjointRanges entryPointFirst ∧ ¬ Preserves entryPointFirst) := by
  refine ⟨⟨by unfold DisjointRanges; decide, ?_⟩, ⟨by unfold DisjointRanges; decide, ?_⟩⟩
  · have merged : mergeFiles applicationOnly none = some
        [.startLinearAddress 1, .data 0xB400 ⟨[0xAB], by decide⟩, .endOfFile] := by decide +kernel
    have given : ∃ file ∈ applicationOnly, (0x1B400, 0xAB) ∈ file.contents := by decide +kernel
    exact not_preserves merged given (by decide)
  · have merged : mergeFiles entryPointFirst none = some
        [.startLinearAddress 0, .data 0x100 ⟨[0xAB], by decide⟩, .extendedLinearAddress 1,
         .data 0 ⟨[0xCD], by decide⟩, .endOfFile] := by decide +kernel
    have given : ∃ file ∈ entryPointFirst, (0, 0xCD) ∈ file.contents := by decide +kernel
    exact not_preserves merged given (by decide)

end Broken

end PrimeBle.Xtask
