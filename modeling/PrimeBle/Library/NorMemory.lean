import Mathlib.Data.List.GetD
import Mathlib.Logic.Function.Basic

/-! # Memories whose cells can only be cleared

A memory maps addresses to cells. What a cell holds after a value is written to
it depends on the technology and on faults, so programming a run of cells takes
a `CellWrite`; on NOR flash a write clears bits (`CellWrite.nor`) and only an
erase sets them again (`Memory.fill`). A region programmed front to back after
an erase holds the concatenation of what was written, followed by erased cells
(`Memory.Logged.program`); cells already programmed take a value exactly when
they still have all of its bits (`Memory.slice_program_eq_iff`). A write that is
cut short leaves a cell somewhere between its old and its new contents in the
order of bits (`BitsOf`, `Torn`).
-/

/-- What the cell at an address holds after a value is written over an old one. -/
abbrev CellWrite (Cell : Type*) := ℕ → Cell → Cell → Cell

/-- NOR flash: a write can only clear bits. -/
def CellWrite.nor {Cell : Type*} [AndOp Cell] : CellWrite Cell := fun _ old new => old &&& new

@[simp] theorem CellWrite.nor_apply {Cell : Type*} [AndOp Cell] (address : ℕ) (old new : Cell) :
    (CellWrite.nor : CellWrite Cell) address old new = old &&& new := rfl

/-- Every bit of the first cell is set in the second. -/
def BitsOf {Cell : Type*} [AndOp Cell] (inner outer : Cell) : Prop := inner &&& outer = inner

instance {Cell : Type*} [AndOp Cell] [DecidableEq Cell] (inner outer : Cell) :
    Decidable (BitsOf inner outer) :=
  inferInstanceAs (Decidable (_ = _))

/-- What a cell may hold when the write of a value is cut short. -/
structure Torn {Cell : Type*} [AndOp Cell] (old new torn : Cell) : Prop where
  lower : BitsOf (old &&& new) torn
  upper : BitsOf torn old

/-- The laws of bitwise conjunction. -/
class LawfulAnd (Cell : Type*) [AndOp Cell] : Prop where
  assoc : ∀ first second third : Cell, first &&& second &&& third = first &&& (second &&& third)
  comm : ∀ first second : Cell, first &&& second = second &&& first
  self : ∀ cell : Cell, cell &&& cell = cell

instance : LawfulAnd UInt32 where
  assoc := UInt32.and_assoc
  comm := UInt32.and_comm
  self _ := UInt32.and_self

namespace BitsOf

variable {Cell : Type*} [AndOp Cell] [LawfulAnd Cell] {first second third : Cell}

theorem refl (cell : Cell) : BitsOf cell cell := LawfulAnd.self cell

theorem trans (left : BitsOf first second) (right : BitsOf second third) :
    BitsOf first third := by
  unfold BitsOf at left right ⊢
  calc first &&& third = first &&& second &&& third := by rw [left]
    _ = first &&& (second &&& third) := LawfulAnd.assoc ..
    _ = first := by rw [right, left]

theorem and_left (first second : Cell) : BitsOf (first &&& second) first := by
  unfold BitsOf
  rw [LawfulAnd.comm, ← LawfulAnd.assoc, LawfulAnd.self]

theorem and (left : BitsOf first second) (right : BitsOf first third) :
    BitsOf first (second &&& third) := by
  unfold BitsOf at left right ⊢
  rw [← LawfulAnd.assoc, left, right]

end BitsOf

/-- The contents of every cell. -/
abbrev Memory (Cell : Type*) := ℕ → Cell

/-- A cell that keeps its old contents is a torn one. -/
theorem Torn.old {Cell : Type*} [AndOp Cell] [LawfulAnd Cell] (old new : Cell) :
    Torn old new old where
  lower := BitsOf.and_left old new
  upper := BitsOf.refl old

/-- So is one that was written in full. -/
theorem Torn.written {Cell : Type*} [AndOp Cell] [LawfulAnd Cell] (old new : Cell) :
    Torn old new (old &&& new) where
  lower := BitsOf.refl (old &&& new)
  upper := BitsOf.and_left old new

namespace Memory

variable {Cell : Type*}

/-- The cells from `start` on, in order of address. -/
def slice (memory : Memory Cell) (start count : ℕ) : List Cell :=
  (List.range count).map fun index => memory (start + index)

/-- Set every cell from `first` up to, but not including, `last`. -/
def fill (memory : Memory Cell) (first last : ℕ) (value : Cell) : Memory Cell :=
  fun address => if first ≤ address ∧ address < last then value else memory address

/-- Write values to consecutive cells. -/
def program (write : CellWrite Cell) (memory : Memory Cell) (start : ℕ) (data : List Cell) :
    Memory Cell := fun address =>
  if inside : start ≤ address ∧ address < start + data.length then
    write address (memory address) (data[address - start])
  else memory address

@[simp] theorem length_slice (memory : Memory Cell) (start count : ℕ) :
    (memory.slice start count).length = count := by
  simp [slice]

theorem getElem_slice (memory : Memory Cell) (start count index : ℕ)
    (below : index < (memory.slice start count).length) :
    (memory.slice start count)[index] = memory (start + index) := by
  simp [slice]

/-- A slice is a list of values exactly when every cell holds its value. -/
theorem slice_eq_iff (memory : Memory Cell) (start : ℕ) (data : List Cell) :
    memory.slice start data.length = data ↔
      ∀ index (below : index < data.length), memory (start + index) = data[index] := by
  constructor
  · intro same index below
    have cell := getElem_slice memory start data.length index (by simpa using below)
    rw [← cell]
    exact List.getElem_of_eq same _
  · intro cells
    apply List.ext_getElem (length_slice memory start data.length)
    intro index left right
    rw [getElem_slice]
    exact cells index right

/-- Equal slices have equal cells. -/
theorem eq_of_slice_eq {first second : Memory Cell} {start count : ℕ}
    (same : first.slice start count = second.slice start count) {index : ℕ}
    (inside : index < count) : first (start + index) = second (start + index) :=
  List.map_inj_left.mp same index (List.mem_range.mpr inside)

/-- Slices only read the cells they cover. -/
theorem slice_congr {first second : Memory Cell} {start count : ℕ}
    (agree : ∀ address, start ≤ address → address < start + count →
      first address = second address) :
    first.slice start count = second.slice start count := by
  apply List.map_congr_left
  intro index member
  have below := List.mem_range.mp member
  exact agree (start + index) (by omega) (by omega)

/-- The cells of a slice from some index on are a slice. -/
theorem take_drop_slice (memory : Memory Cell) {start count index length : ℕ}
    (inside : index + length ≤ count) :
    ((memory.slice start count).drop index).take length =
      memory.slice (start + index) length := by
  apply List.ext_getElem
  · simp only [List.length_take, List.length_drop, length_slice]
    omega
  · intro place _ _
    simp only [List.getElem_take, List.getElem_drop, getElem_slice, Nat.add_assoc]

theorem fill_inside {memory : Memory Cell} {first last address : ℕ} {value : Cell}
    (lower : first ≤ address) (upper : address < last) :
    memory.fill first last value address = value := by
  simp only [fill, lower, upper, and_self, ↓reduceIte]

theorem fill_outside {memory : Memory Cell} {first last address : ℕ} {value : Cell}
    (outside : address < first ∨ last ≤ address) :
    memory.fill first last value address = memory address := by
  have excluded : ¬ (first ≤ address ∧ address < last) := by omega
  simp only [fill, excluded, ↓reduceIte]

variable (write : CellWrite Cell)

theorem program_inside {memory : Memory Cell} {start address : ℕ} {data : List Cell}
    (lower : start ≤ address) (upper : address < start + data.length) :
    memory.program write start data address =
      write address (memory address) (data[address - start]) := by
  simp only [program, lower, upper, and_self, ↓reduceDIte]

/-- Programming changes nothing outside its range. -/
theorem program_outside {memory : Memory Cell} {start address : ℕ} {data : List Cell}
    (outside : address < start ∨ start + data.length ≤ address) :
    memory.program write start data address = memory address := by
  have excluded : ¬ (start ≤ address ∧ address < start + data.length) := by omega
  simp only [program, excluded, ↓reduceDIte]

@[simp] theorem program_nil (memory : Memory Cell) (start : ℕ) :
    memory.program write start [] = memory := by
  funext address
  exact program_outside write (by simp only [List.length_nil]; omega)

/-- Writing a single cell. -/
def set (memory : Memory Cell) (address : ℕ) (value : Cell) : Memory Cell :=
  Function.update memory address (write address (memory address) value)

theorem set_self (memory : Memory Cell) (address : ℕ) (value : Cell) :
    memory.set write address value address = write address (memory address) value :=
  Function.update_self ..

theorem set_of_ne (memory : Memory Cell) {address other : ℕ} (value : Cell)
    (different : other ≠ address) : memory.set write address value other = memory other :=
  Function.update_of_ne different ..

/-- Programming a list is writing its head and then programming its tail. -/
theorem program_cons (memory : Memory Cell) (start : ℕ) (value : Cell) (data : List Cell) :
    memory.program write start (value :: data) =
      (memory.set write start value).program write (start + 1) data := by
  funext address
  have long : (value :: data).length = data.length + 1 := rfl
  by_cases head : address = start
  · subst head
    rw [program_inside write (Nat.le_refl _) (by omega), program_outside write (by omega), set_self]
    simp only [Nat.sub_self, List.getElem_cons_zero]
  · by_cases inside : start + 1 ≤ address ∧ address < start + 1 + data.length
    · have position : address - start = address - (start + 1) + 1 := by omega
      rw [program_inside write (by omega) (by omega), program_inside write inside.1 inside.2,
        set_of_ne write memory value head]
      simp only [position, List.getElem_cons_succ]
    · rw [program_outside write (by omega), program_outside write (by omega),
        set_of_ne write memory value head]

section Nor

variable [AndOp Cell]

/-- **When a NOR write takes.** After programming, the range reads back as the
data exactly when every cell of it still had all the bits of its value. -/
theorem slice_program_eq_iff (memory : Memory Cell) (start : ℕ) (data : List Cell) :
    (memory.program .nor start data).slice start data.length = data ↔
      ∀ index (below : index < data.length),
        memory (start + index) &&& data[index] = data[index] := by
  rw [slice_eq_iff]
  refine forall_congr' fun index => forall_congr' fun below => ?_
  rw [program_inside .nor (Nat.le_add_right ..) (by omega), CellWrite.nor_apply]
  simp only [Nat.add_sub_cancel_left]

/-- The region from `start` up to `limit` holds `contents` and, after it, only
erased cells; of longer contents, the part that falls in the region. -/
def Logged (memory : Memory Cell) (start limit : ℕ) (erased : Cell) (contents : List Cell) : Prop :=
  ∀ index, start + index < limit → memory (start + index) = contents.getD index erased

variable {start limit : ℕ} {erased : Cell}

omit [AndOp Cell] in
/-- An erase that covers the region leaves it without contents. -/
theorem Logged.fill (memory : Memory Cell) {first last : ℕ} (lower : first ≤ start)
    (upper : limit ≤ last) : (memory.fill first last erased).Logged start limit erased [] := by
  intro index below
  rw [fill_inside (by omega) (by omega)]
  simp only [List.getD_nil]

omit [AndOp Cell] in
/-- Cells before the region are not part of it. -/
theorem Logged.congr {memory next : Memory Cell} {contents : List Cell}
    (logged : memory.Logged start limit erased contents)
    (same : ∀ address, start ≤ address → address < limit → next address = memory address) :
    next.Logged start limit erased contents := by
  intro index below
  rw [same _ (Nat.le_add_right ..) below]
  exact logged index below

/-- **Appending.** Programming right after the contents appends to them. -/
theorem Logged.program {memory : Memory Cell} {contents : List Cell}
    (logged : memory.Logged start limit erased contents)
    (neutral : ∀ value : Cell, erased &&& value = value) (data : List Cell) :
    (memory.program .nor (start + contents.length) data).Logged start limit erased
      (contents ++ data) := by
  intro index below
  by_cases earlier : index < contents.length
  · rw [program_outside .nor (by omega), logged index below,
      List.getD_append _ _ _ _ earlier]
  · have blank : memory (start + index) = erased := by
      rw [logged index below, List.getD_eq_default _ _ (by omega)]
    rw [List.getD_append_right _ _ _ _ (by omega)]
    by_cases inside : index < contents.length + data.length
    · have position : start + index - (start + contents.length) = index - contents.length := by
        omega
      rw [program_inside .nor (by omega) (by omega), CellWrite.nor_apply, blank, neutral,
        List.getD_eq_getElem _ _ (by omega)]
      simp only [position]
    · rw [program_outside .nor (by omega), blank, List.getD_eq_default _ _ (by omega)]

omit [AndOp Cell] in
/-- Contents that end in the region can be read back. -/
theorem Logged.slice_eq {memory : Memory Cell} {contents : List Cell}
    (logged : memory.Logged start limit erased contents)
    (fits : start + contents.length ≤ limit) :
    memory.slice start contents.length = contents := by
  rw [slice_eq_iff]
  intro index below
  rw [logged index (by omega), List.getD_eq_getElem _ _ below]

end Nor

end Memory
