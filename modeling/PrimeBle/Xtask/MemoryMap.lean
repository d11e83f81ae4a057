import Mathlib.Order.Bounds.Basic
import PrimeBle.Xtask.Merge

/-! # The memory map of a merged image

Every data record of an input has the addresses that the Intel HEX standard gives
its bytes, and the address that the builder reads for it. The output places the
bytes by the latter, where the block that comes first keeps the initial base
(`Xtask.mem_merged`); the map is preserved where the two agree
(`Xtask.PlacesAgree.preserves`).
-/

namespace PrimeBle.Xtask

open IntelHex

/-- What a file places in memory, by the Intel HEX standard for a HEX file. -/
def MergeableFile.contents : MergeableFile → List (ℕ × UInt8)
  | .iHex records => IntelHex.contents records
  | .binary data globalOffset => placed (globalOffset.toNat + ·) data

/-- The output places exactly what the inputs place. -/
def Preserves (inputs : List MergeableFile) : Prop :=
  ∃ output, mergeFiles inputs none = some output ∧ ∀ address byte,
    (address, byte) ∈ IntelHex.contents output ↔
      ∃ file ∈ inputs, (address, byte) ∈ file.contents

/-- A data record of an input: the address it is read at, its bytes, and where the
standard places them. -/
structure Piece where
  address : UInt32
  value : Payload
  standard : ℕ → ℕ

namespace Piece

def record (piece : Piece) : Addressed := (piece.address, piece.value)

def contents (piece : Piece) : List (ℕ × UInt8) := placed piece.standard piece.value.1

end Piece

def iHexPieces : UInt32 → Base → List Record → List Piece
  | _, _, [] => []
  | _, _, .endOfFile :: _ => []
  | upper, base, .data offset value :: rest =>
      ⟨upper + offset.toUInt32, value, base.byteAddress offset⟩ :: iHexPieces upper base rest
  | upper, base, record :: rest =>
      iHexPieces (upperAddress upper record) (base.after record) rest

def binaryPiece (data : List UInt8) (globalOffset : UInt32) (i : ℕ) : Piece where
  address := globalOffset + i.toUInt32 * 32
  value := chunk data i
  standard j := globalOffset.toNat + (32 * i + j)

def MergeableFile.pieces : MergeableFile → List Piece
  | .iHex records => iHexPieces 0 .initial records
  | .binary data globalOffset =>
      (List.range (chunkCount data)).map (binaryPiece data globalOffset)

/-- The 64 KiB block of an address. -/
def block (address : UInt32) : ℕ := address.toNat / 2 ^ 16

/-- Where the output places a byte of a record, when `low` is the lowest block. -/
def writtenAddress (low : ℕ) (address : UInt32) (i : ℕ) : ℕ :=
  if block address = low then address.toNat % 2 ^ 16 + i else (address.toNat + i) % 2 ^ 32

/-- The data records of the inputs. -/
def pieces (inputs : List MergeableFile) : List Piece := inputs.flatMap MergeableFile.pieces

/-- The lowest block in which a record starts, as the records are read. -/
def LowestBlock (inputs : List MergeableFile) (low : ℕ) : Prop :=
  IsLeast { number | ∃ piece ∈ pieces inputs, block piece.address = number } low

/-- There is data, and the output places every byte where the standard does. -/
def PlacesAgree (inputs : List MergeableFile) : Prop :=
  ∃ low, LowestBlock inputs low ∧ ∀ piece ∈ pieces inputs, ∀ i < piece.value.length,
    piece.standard i = writtenAddress low piece.address i

section Reading

theorem mapM_eq_some_iff {α β : Type*} {f : α → Option β} {g : α → β}
    (value : ∀ x y, f x = some y → y = g x) {list : List α} {images : List β} :
    list.mapM f = some images ↔ (∀ x ∈ list, f x = some (g x)) ∧ images = list.map g := by
  induction list generalizing images with
  | nil =>
      simp only [List.mapM_nil, Option.pure_def, Option.some.injEq, List.not_mem_nil,
        IsEmpty.forall_iff, implies_true, true_and, List.map_nil]
      exact eq_comm
  | cons head tail ih =>
      simp only [List.mapM_cons, Option.bind_eq_bind, Option.bind_eq_some_iff, Option.pure_def,
        Option.some.injEq, ih, List.forall_mem_cons, List.map_cons]
      constructor
      · intro ⟨image, found, rest, ⟨others, collected⟩, whole⟩
        rw [← whole, collected, ← value head image found]
        exact ⟨⟨found, others⟩, rfl⟩
      · intro ⟨⟨found, others⟩, whole⟩
        exact ⟨g head, found, tail.map g, ⟨others, rfl⟩, whole.symm⟩

theorem iHexRecords_eq (upper : UInt32) (base : Base) (records : List Record) :
    iHexRecords upper records = (iHexPieces upper base records).map Piece.record := by
  induction records generalizing upper base with
  | nil => rfl
  | cons record rest ih =>
      cases record with
      | data offset value =>
          simp only [iHexRecords, iHexPieces, List.map_cons, Piece.record, ih upper base]
      | endOfFile => rfl
      | _ =>
          simp only [iHexRecords, iHexPieces]
          exact ih _ _

theorem contentsFrom_eq (upper : UInt32) (base : Base) (records : List Record) :
    contentsFrom base records = (iHexPieces upper base records).flatMap Piece.contents := by
  induction records generalizing upper base with
  | nil => rfl
  | cons record rest ih =>
      cases record with
      | data offset value =>
          simp only [contentsFrom, iHexPieces, List.flatMap_cons, Piece.contents, ih upper base]
      | endOfFile => rfl
      | _ =>
          simp only [contentsFrom, iHexPieces]
          exact ih _ _

theorem chunk_getElem? (data : List UInt8) (i j : ℕ) (inside : j < 32) :
    (chunk data i).1[j]? = data[32 * i + j]? := by
  simp only [chunk, List.getElem?_take, inside, ↓reduceIte, List.getElem?_drop]

theorem chunk_length_le (data : List UInt8) (i : ℕ) : (chunk data i).length ≤ 32 :=
  List.length_take_le ..

/-- The slices of a binary hold its bytes, each at its place. -/
theorem mem_binary_contents (data : List UInt8) (globalOffset : UInt32) (address : ℕ)
    (byte : UInt8) :
    (address, byte) ∈ placed (globalOffset.toNat + ·) data ↔
      ∃ i < chunkCount data, (address, byte) ∈ (binaryPiece data globalOffset i).contents := by
  simp only [Piece.contents, binaryPiece, mem_placed]
  constructor
  · intro ⟨index, goes, holds⟩
    have inside : index < data.length := (List.getElem?_eq_some_iff.mp holds).1
    refine ⟨index / 32, by unfold chunkCount; omega, index % 32, ?_, ?_⟩
    · rw [Nat.div_add_mod, goes]
    · rw [chunk_getElem? _ _ _ (Nat.mod_lt _ (by decide)), Nat.div_add_mod, holds]
  · intro ⟨i, _, j, goes, holds⟩
    have inside : j < 32 :=
      (List.getElem?_eq_some_iff.mp holds).1.trans_le (chunk_length_le data i)
    exact ⟨32 * i + j, goes, by rwa [chunk_getElem? _ _ _ inside] at holds⟩

/-- A file places in memory what its data records place there. -/
theorem mem_contents (file : MergeableFile) (address : ℕ) (byte : UInt8) :
    (address, byte) ∈ file.contents ↔
      ∃ piece ∈ file.pieces, (address, byte) ∈ piece.contents := by
  cases file with
  | iHex records =>
      rw [MergeableFile.contents, IntelHex.contents, contentsFrom_eq 0, List.mem_flatMap]
      rfl
  | binary data globalOffset =>
      simp only [MergeableFile.contents, MergeableFile.pieces, mem_binary_contents,
        List.mem_map, List.mem_range, exists_exists_and_eq_and]

/-- The inputs place in memory what their data records place there. -/
theorem mem_pieces_contents (inputs : List MergeableFile) (address : ℕ) (byte : UInt8) :
    (∃ piece ∈ pieces inputs, (address, byte) ∈ piece.contents) ↔
      ∃ file ∈ inputs, (address, byte) ∈ file.contents := by
  simp only [mem_contents, pieces, List.mem_flatMap]
  constructor
  · intro ⟨piece, ⟨file, given, inside⟩, places⟩
    exact ⟨file, given, piece, inside, places⟩
  · intro ⟨file, given, piece, inside, places⟩
    exact ⟨piece, ⟨file, given, inside⟩, places⟩

theorem checkedAdd_eq_some {left right sum : UInt32} :
    checkedAdd left right = some sum ↔
      left.toNat + right.toNat < 2 ^ 32 ∧ sum = left + right := by
  rw [checkedAdd, Option.ite_none_right_eq_some, Option.some.injEq]
  exact and_congr_right fun _ => eq_comm

theorem checkedMul_eq_some {left right product : UInt32} :
    checkedMul left right = some product ↔
      left.toNat * right.toNat < 2 ^ 32 ∧ product = left * right := by
  rw [checkedMul, Option.ite_none_right_eq_some, Option.some.injEq]
  exact and_congr_right fun _ => eq_comm

theorem chunkAddress_eq_some {globalOffset address : UInt32} {i : ℕ} :
    chunkAddress globalOffset i = some address ↔
      (i.toUInt32.toNat * 32 < 2 ^ 32 ∧
        globalOffset.toNat + (i.toUInt32 * 32).toNat < 2 ^ 32) ∧
      address = globalOffset + i.toUInt32 * 32 := by
  simp only [chunkAddress, Option.bind_eq_bind, Option.bind_eq_some_iff, checkedMul_eq_some,
    checkedAdd_eq_some, and_assoc, exists_and_left, exists_eq_left]
  rfl

theorem toNat_toUInt32_mul {i : ℕ} (small : 32 * i < 2 ^ 32) :
    i.toUInt32.toNat = i ∧ (i.toUInt32 * 32).toNat = 32 * i := by
  have index : i.toUInt32.toNat = i := UInt32.toNat_ofNat_of_lt' (by unfold UInt32.size; omega)
  have thirtyTwo : (32 : UInt32).toNat = 32 := rfl
  refine ⟨index, ?_⟩
  rw [UInt32.toNat_mul, index, thirtyTwo, Nat.mul_comm, Nat.mod_eq_of_lt small]

/-- The address of a slice can be computed when it is an address. -/
theorem chunkAddress_of_lt {globalOffset : UInt32} {i : ℕ}
    (small : globalOffset.toNat + 32 * i < 2 ^ 32) :
    chunkAddress globalOffset i = some (globalOffset + i.toUInt32 * 32) := by
  obtain ⟨index, skipped⟩ := toNat_toUInt32_mul (i := i) (by omega)
  exact chunkAddress_eq_some.mpr ⟨⟨by omega, by omega⟩, rfl⟩

theorem binaryRecords_eq_some {globalOffset : UInt32} {data : List UInt8}
    {records : List Addressed} :
    binaryRecords globalOffset data = some records ↔
      (∀ i < chunkCount data,
        chunkAddress globalOffset i = some (binaryPiece data globalOffset i).address) ∧
      records = (MergeableFile.binary data globalOffset).pieces.map Piece.record := by
  have value : ∀ i record,
      (chunkAddress globalOffset i).map (fun address => (address, chunk data i)) = some record →
        record = (binaryPiece data globalOffset i).record := by
    intro i record read
    obtain ⟨address, found, rfl⟩ := Option.map_eq_some_iff.mp read
    rw [(chunkAddress_eq_some.mp found).2]
    rfl
  rw [binaryRecords, mapM_eq_some_iff value]
  simp only [List.mem_range, MergeableFile.pieces, List.map_map]
  refine and_congr (forall₂_congr fun i _ => ?_) Iff.rfl
  constructor
  · intro read
    obtain ⟨address, found, same⟩ := Option.map_eq_some_iff.mp read
    have address := congrArg Prod.fst same
    exact found.trans (congrArg some address)
  · intro found
    rw [found]
    rfl

/-- What is read of a file, when no address overflows, are its data records. -/
theorem fileRecords_value (file : MergeableFile) (records : List Addressed)
    (read : fileRecords file = some records) : records = file.pieces.map Piece.record := by
  cases file with
  | iHex lines =>
      rw [← Option.some.inj read, iHexRecords_eq 0 .initial]
      rfl
  | binary data globalOffset => exact (binaryRecords_eq_some.mp read).2

/-- Every address can be computed. -/
def Readable (inputs : List MergeableFile) : Prop :=
  ∀ file ∈ inputs, fileRecords file = some (file.pieces.map Piece.record)

theorem inputs_eq_some {inputs : List MergeableFile} {files : List (List Addressed)} :
    inputs.mapM fileRecords = some files ↔
      Readable inputs ∧ files = inputs.map fun file => file.pieces.map Piece.record :=
  mapM_eq_some_iff fileRecords_value

theorem writtenAddress_zero_lt (low : ℕ) (address : UInt32) :
    writtenAddress low address 0 < 2 ^ 32 := by
  unfold writtenAddress
  split <;> omega

/-- Where every byte is written to its standard address, no address overflows. -/
theorem PlacesAgree.readable {inputs : List MergeableFile} (agree : PlacesAgree inputs) :
    Readable inputs := by
  intro file present
  cases file with
  | iHex records =>
      rw [fileRecords, iHexRecords_eq 0 .initial]
      rfl
  | binary data globalOffset =>
      refine binaryRecords_eq_some.mpr ⟨fun i inside => ?_, rfl⟩
      obtain ⟨low, _, places⟩ := agree
      have length : (chunk data i).length = min 32 (data.length - 32 * i) := by
        simp only [Payload.length, chunk, List.length_take, List.length_drop]
      have start := places (binaryPiece data globalOffset i)
        (List.mem_flatMap.mpr ⟨_, present, List.mem_map.mpr ⟨i, List.mem_range.mpr inside, rfl⟩⟩)
        0 (by change 0 < (chunk data i).length; unfold chunkCount at inside; omega)
      have small := writtenAddress_zero_lt low (binaryPiece data globalOffset i).address
      rw [← start] at small
      change globalOffset.toNat + (32 * i + 0) < 2 ^ 32 at small
      exact chunkAddress_of_lt (by omega)

end Reading

section Writing

/-- The base in force in the output after data of the block `upper`. -/
def outputBase (low : ℕ) (upper : UInt32) : Base :=
  if upper.toNat = low then .initial else .linear upper.toUInt16

theorem shift_toNat (address : UInt32) : (address >>> 16).toNat = block address := by
  rw [UInt32.toNat_shiftRight, Nat.shiftRight_eq_div_pow]
  rfl

theorem block_lt (address : UInt32) : block address < 2 ^ 16 := by
  have bounded := address.toNat_lt
  unfold block
  omega

theorem offset_toNat (address : UInt32) :
    (address &&& 0xffff).toUInt16.toNat = address.toNat % 2 ^ 16 := by
  have mask : (0xffff : UInt32).toNat = 2 ^ 16 - 1 := rfl
  rw [UInt32.toNat_toUInt16, UInt32.toNat_and, mask, Nat.and_two_pow_sub_one_eq_mod, Nat.mod_mod]

/-- The bytes of a data record go where its address in the output says. -/
theorem byteAddress_outputBase (low : ℕ) (address : UInt32) (i : ℕ) (inside : i ≤ 255) :
    (outputBase low (address >>> 16)).byteAddress (address &&& 0xffff).toUInt16 i =
      writtenAddress low address i := by
  have bounded := address.toNat_lt
  have upper : (address >>> 16).toUInt16.toNat = block address := by
    rw [UInt32.toNat_toUInt16, shift_toNat]
    exact Nat.mod_eq_of_lt (block_lt address)
  unfold outputBase writtenAddress
  rw [shift_toNat]
  split
  · simp only [Base.initial, Base.byteAddress, offset_toNat]
    change (0 * 2 ^ 16 + address.toNat % 2 ^ 16 + i) % 2 ^ 32 = _
    omega
  · simp only [Base.byteAddress, offset_toNat, upper, block]
    omega

/-- Sorted records are written without patches, and each goes to its address. -/
theorem outRecords_contents (low : ℕ) (records : List Addressed) (upper : UInt32)
    (lowest : low ≤ upper.toNat) (bounded : ∀ record ∈ records, upper.toNat ≤ block record.1)
    (sorted : records.Pairwise fun first second => first.1.toNat ≤ second.1.toNat) :
    ∃ body, outRecords upper [] records = some body ∧
      contentsFrom (outputBase low upper) (body ++ [.endOfFile]) =
        records.flatMap fun record => placed (writtenAddress low record.1) record.2.1 := by
  induction records generalizing upper with
  | nil => exact ⟨[], rfl, rfl⟩
  | cons record records ih =>
      obtain ⟨addr, value⟩ := record
      obtain ⟨least, sorted⟩ := List.pairwise_cons.mp sorted
      have above : upper.toNat ≤ block addr := bounded _ (List.mem_cons_self ..)
      have later : ∀ record ∈ records, (addr >>> 16).toNat ≤ block record.1 := by
        intro record present
        rw [shift_toNat]
        exact Nat.div_le_div_right (least record present)
      obtain ⟨body, written, rest⟩ := ih (addr >>> 16)
        (lowest.trans (above.trans_eq (shift_toNat addr).symm)) later sorted
      have here : placed ((outputBase low (addr >>> 16)).byteAddress
          (addr &&& 0xffff).toUInt16) value.1 = placed (writtenAddress low addr) value.1 :=
        placed_congr fun i inside =>
          byteAddress_outputBase low addr i (inside.le.trans value.2)
      by_cases same : addr >>> 16 = upper
      · subst same
        refine ⟨.data (addr &&& 0xffff).toUInt16 value :: body, ?_, ?_⟩
        · simp only [outRecords, applyPatch, written, ne_eq, not_true_eq_false, ↓reduceIte,
            Option.bind_eq_bind, Option.bind_some]
        · rw [List.flatMap_cons, ← here, ← rest]
          rfl
      · refine ⟨.extendedLinearAddress (addr >>> 16).toUInt16 ::
          .data (addr &&& 0xffff).toUInt16 value :: body, ?_, ?_⟩
        · simp only [outRecords, applyPatch, written, same, ne_eq, not_false_eq_true, ↓reduceIte,
            Option.bind_eq_bind, Option.bind_some]
        · -- Only the lowest block is left without a record of its own.
          have raised : outputBase low (addr >>> 16) = .linear (addr >>> 16).toUInt16 := by
            refine if_neg fun initial => same (UInt32.toNat_inj.mp ?_)
            rw [shift_toNat] at initial ⊢
            exact (initial ▸ lowest).antisymm above
          rw [List.flatMap_cons, ← here, ← rest, raised]
          rfl

/-- The data records of the inputs, as they are read. -/
def inputRecords (inputs : List MergeableFile) : List Addressed :=
  (pieces inputs).map Piece.record

theorem sortByKey_sorted (records : List Addressed) :
    (sortByKey records).Pairwise fun first second => first.1.toNat ≤ second.1.toNat := by
  have total : Std.Total fun first second : Addressed => first.1.toNat ≤ second.1.toNat :=
    ⟨fun _ _ => Nat.le_total ..⟩
  have transitive : IsTrans Addressed fun first second => first.1.toNat ≤ second.1.toNat :=
    ⟨fun _ _ _ => Nat.le_trans⟩
  exact List.pairwise_insertionSort _ records

theorem mem_sortByKey {record : Addressed} {records : List Addressed} :
    record ∈ sortByKey records ↔ record ∈ records := List.mem_insertionSort _

theorem mapM_fileRecords_flatten {inputs : List MergeableFile} (readable : Readable inputs) :
    ∃ files, inputs.mapM fileRecords = some files ∧ files.flatten = inputRecords inputs := by
  refine ⟨_, inputs_eq_some.mpr ⟨readable, rfl⟩, ?_⟩
  rw [inputRecords, pieces, List.map_flatMap, List.flatMap_def]

/-- Readable inputs are merged, and every record goes to its address. -/
theorem mergeFiles_contents {inputs : List MergeableFile} (readable : Readable inputs)
    {first : Addressed} {rest : List Addressed}
    (sorted : sortByKey (inputRecords inputs) = first :: rest) :
    ∃ output, mergeFiles inputs none = some output ∧ IntelHex.contents output =
      (first :: rest).flatMap fun record =>
        placed (writtenAddress (block first.1) record.1) record.2.1 := by
  obtain ⟨files, read, flattened⟩ := mapM_fileRecords_flatten readable
  have ordered := sortByKey_sorted (inputRecords inputs)
  rw [sorted] at ordered
  have least : ∀ record ∈ first :: rest, (first.1 >>> 16).toNat ≤ block record.1 := by
    intro record present
    rw [shift_toNat]
    refine Nat.div_le_div_right ?_
    cases present with
    | head => exact Nat.le_refl _
    | tail _ later => exact (List.pairwise_cons.mp ordered).1 record later
  obtain ⟨body, written, goes⟩ := outRecords_contents (block first.1) (first :: rest)
    (first.1 >>> 16) (shift_toNat first.1).ge least ordered
  refine ⟨.startLinearAddress (first.1 >>> 16) :: body ++ [.endOfFile], ?_, ?_⟩
  · simp only [mergeFiles, read, flattened, sorted, written, List.head?_cons, Option.getD_none,
      List.reverse_nil, Option.bind_eq_bind, Option.bind_some]
  · have initial : outputBase (block first.1) (first.1 >>> 16) = .initial :=
      if_pos (shift_toNat first.1)
    rw [← goes, initial]
    rfl

/-- The first record in order of address is in the lowest block. -/
theorem lowestBlock_head {inputs : List MergeableFile} {first : Addressed}
    {rest : List Addressed} (sorted : sortByKey (inputRecords inputs) = first :: rest) :
    LowestBlock inputs (block first.1) := by
  have same : ∀ record, record ∈ first :: rest ↔
      ∃ piece ∈ pieces inputs, piece.record = record := fun record => by
    rw [← sorted, mem_sortByKey, inputRecords, List.mem_map]
  constructor
  · obtain ⟨piece, present, read⟩ := (same first).mp (List.mem_cons_self ..)
    exact ⟨piece, present, congrArg (block ·.1) read⟩
  · rintro _ ⟨piece, present, rfl⟩
    have ordered := sortByKey_sorted (inputRecords inputs)
    rw [sorted] at ordered
    refine Nat.div_le_div_right ?_
    cases (same piece.record).mpr ⟨piece, present, rfl⟩ with
    | head => exact Nat.le_refl _
    | tail _ later => exact (List.pairwise_cons.mp ordered).1 _ later

/-- The output places the bytes of every data record at its address. -/
theorem mem_merged {inputs : List MergeableFile} {low : ℕ} (readable : Readable inputs)
    (lowest : LowestBlock inputs low) :
    ∃ output, mergeFiles inputs none = some output ∧ ∀ address byte,
      (address, byte) ∈ IntelHex.contents output ↔ ∃ piece ∈ pieces inputs,
        (address, byte) ∈ placed (writtenAddress low piece.address) piece.value.1 := by
  cases sorted : sortByKey (inputRecords inputs) with
  | nil =>
      obtain ⟨piece, present, _⟩ := lowest.1
      have read := mem_sortByKey.mpr (List.mem_map_of_mem (f := Piece.record) present)
      change piece.record ∈ sortByKey (inputRecords inputs) at read
      rw [sorted] at read
      cases read
  | cons first rest =>
      obtain ⟨output, merged, goes⟩ := mergeFiles_contents readable sorted
      have low_eq : low = block first.1 := lowest.unique (lowestBlock_head sorted)
      refine ⟨output, merged, fun address byte => ?_⟩
      rw [goes, ← sorted, low_eq]
      simp only [List.mem_flatMap, mem_sortByKey, inputRecords, List.mem_map,
        exists_exists_and_eq_and]
      rfl

/-- There is an output only where every address can be computed and there is data. -/
theorem of_merged {inputs : List MergeableFile} {output : List Record}
    (merged : mergeFiles inputs none = some output) :
    Readable inputs ∧ ∃ low, LowestBlock inputs low := by
  obtain ⟨files, read, rest⟩ := Option.bind_eq_some_iff.mp merged
  have readable := (inputs_eq_some.mp read).1
  obtain ⟨others, collected, flattened⟩ := mapM_fileRecords_flatten readable
  obtain rfl : others = files := Option.some.inj (collected.symm.trans read)
  rw [flattened] at rest
  cases sorted : sortByKey (inputRecords inputs) with
  | nil =>
      rw [sorted] at rest
      cases rest
  | cons first records => exact ⟨readable, _, lowestBlock_head sorted⟩

/-- The map is preserved where every byte is written to its standard address. -/
theorem PlacesAgree.preserves {inputs : List MergeableFile} (agree : PlacesAgree inputs) :
    Preserves inputs := by
  have readable := agree.readable
  obtain ⟨low, lowest, places⟩ := agree
  obtain ⟨output, merged, goes⟩ := mem_merged readable lowest
  refine ⟨output, merged, fun address byte => ?_⟩
  have same : ∀ piece ∈ pieces inputs,
      placed (writtenAddress low piece.address) piece.value.1 = piece.contents :=
    fun piece present => placed_congr fun i inside => (places piece present i inside).symm
  calc (address, byte) ∈ IntelHex.contents output
      ↔ ∃ piece ∈ pieces inputs,
          (address, byte) ∈ placed (writtenAddress low piece.address) piece.value.1 :=
        goes address byte
    _ ↔ ∃ piece ∈ pieces inputs, (address, byte) ∈ piece.contents :=
        exists_congr fun piece => and_congr_right fun present => by rw [same piece present]
    _ ↔ ∃ file ∈ inputs, (address, byte) ∈ file.contents := mem_pieces_contents ..

end Writing

end PrimeBle.Xtask
