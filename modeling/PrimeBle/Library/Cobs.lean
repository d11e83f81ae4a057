import Mathlib.Order.Basic
import Mathlib.Order.Nat

/-! # Consistent overhead byte stuffing

A frame is the data with its zeros taken out, followed by a zero that ends it.
Each zero is replaced by the distance to the next one, and so is the start of the
data; a block of 254 bytes without a zero gets a distance of its own. A frame is
decoded to its data whatever follows it (`Cobs.decode_frame`) and is hardly longer
(`Cobs.length_frame_le`). Zeros end frames and are nowhere else, so that a receiver can
cut a stream of frames where it finds them (`Cobs.receive_frames`).
-/

namespace Cobs

/-- The longest block of bytes without a zero. -/
def blockMax : ℕ := 254

/-- Close a block. -/
def block (run : List UInt8) : List UInt8 := UInt8.ofNat (run.length + 1) :: run

/-- Encode what follows a run of bytes without a zero. -/
def encodeFrom (run : List UInt8) : List UInt8 → List UInt8
  | [] => block run
  | byte :: data =>
      if byte = 0 then block run ++ encodeFrom [] data
      else if run.length + 1 = blockMax then block (run ++ [byte]) ++ encodeFrom [] data
      else encodeFrom (run ++ [byte]) data

/-- The data without its zeros. -/
def encode (data : List UInt8) : List UInt8 := encodeFrom [] data

/-- A frame with the zero that ends it. -/
def frame (data : List UInt8) : List UInt8 := encode data ++ [0]

/-- Decode blocks up to the end of the bytes, with so many bytes left in the current
block and, after it, a zero unless the bytes end there. -/
def decodeFrom : (left : ℕ) → (zero : Bool) → List UInt8 → Option (List UInt8)
  | 0, _, [] => some []
  | 0, zero, code :: rest =>
      (decodeFrom (code.toNat - 1) (code.toNat ≤ blockMax) rest).map fun data =>
        if zero then 0 :: data else data
  | _ + 1, _, [] => none
  | left + 1, zero, byte :: rest => (decodeFrom left zero rest).map (byte :: ·)

/-- The data of the first frame. It ends at the first zero, which no block may run
past. -/
def decode (bytes : List UInt8) : Option (List UInt8) :=
  if 0 ∈ bytes then decodeFrom 0 false (bytes.takeWhile (· != 0)) else none

/-- The published example of two zeros around a one. -/
example : frame [0, 1, 0] = [1, 2, 1, 1, 0] := by decide

/-- A block does not run past the zero that ends its frame. -/
example : decode [3, 1, 0, 2] = none := by decide

section Blocks

variable {run : List UInt8}

/-- A block that was just begun has room. -/
theorem length_nil_lt : ([] : List UInt8).length < blockMax := by decide

theorem toNat_code (short : run.length ≤ blockMax) :
    (UInt8.ofNat (run.length + 1)).toNat = run.length + 1 := by
  unfold blockMax at short
  rw [UInt8.toNat_ofNat']
  omega

/-- The distance in front of a block is no zero. -/
theorem zero_notMem_block (short : run.length ≤ blockMax) (free : 0 ∉ run) : 0 ∉ block run := by
  intro member
  rcases List.mem_cons.mp member with same | inside
  · have code := toNat_code short
    rw [← same, UInt8.toNat_zero] at code
    omega
  · exact free inside

/-- What is encoded has no zeros. -/
theorem zero_notMem_encodeFrom (short : run.length < blockMax) (free : 0 ∉ run)
    (data : List UInt8) : 0 ∉ encodeFrom run data := by
  induction data generalizing run with
  | nil => exact zero_notMem_block short.le free
  | cons byte data ih =>
      have begun : 0 ∉ encodeFrom [] data := ih length_nil_lt List.not_mem_nil
      rw [encodeFrom]
      split
      · exact List.not_mem_append (zero_notMem_block short.le free) begun
      · next nonzero =>
          have longer : 0 ∉ run ++ [byte] :=
            List.not_mem_append free fun last => nonzero (List.mem_singleton.mp last).symm
          have length : (run ++ [byte]).length = run.length + 1 := List.length_append
          split
          · next full =>
              exact List.not_mem_append
                (zero_notMem_block (length.trans full).le longer) begun
          · next more => exact ih (by omega) longer

/-- The bytes left in a block are copied. -/
theorem decodeFrom_append (run rest : List UInt8) (zero : Bool) :
    decodeFrom run.length zero (run ++ rest) =
      (decodeFrom 0 zero rest).map (run ++ ·) := by
  induction run with
  | nil => simp
  | cons byte run ih =>
      rw [List.length_cons, List.cons_append, decodeFrom, ih, Option.map_map]
      rfl

/-- A closed block is decoded, with a zero before it where one was due. -/
theorem decodeFrom_block (short : run.length ≤ blockMax) (zero : Bool) (rest : List UInt8) :
    decodeFrom 0 zero (block run ++ rest) =
      (decodeFrom 0 (run.length < blockMax) rest).map fun data =>
        (if zero then [0] else []) ++ run ++ data := by
  have code := toNat_code short
  have due : decide (run.length + 1 ≤ blockMax) = decide (run.length < blockMax) := rfl
  rw [block, List.cons_append, decodeFrom, code, Nat.add_sub_cancel, due, decodeFrom_append,
    Option.map_map]
  congr 1
  funext data
  cases zero <;> rfl

/-- **Round trip**, from any point inside a block. -/
theorem decodeFrom_encodeFrom (short : run.length < blockMax) (zero : Bool)
    (data : List UInt8) :
    decodeFrom 0 zero (encodeFrom run data) =
      some ((if zero then [0] else []) ++ run ++ data) := by
  induction data generalizing run zero with
  | nil =>
      have closed := decodeFrom_block short.le zero []
      rw [List.append_nil] at closed
      rw [encodeFrom, closed]
      simp [decodeFrom]
  | cons byte data ih =>
      rw [encodeFrom]
      split
      · next isZero =>
          rw [decodeFrom_block short.le, ih length_nil_lt]
          simp [short, isZero]
      · split
        · next full =>
            have whole : (run ++ [byte]).length = blockMax := by
              rw [List.length_append]
              exact full
            rw [decodeFrom_block whole.le, ih length_nil_lt]
            simp [whole]
        · next more =>
            have longer : (run ++ [byte]).length < blockMax := by
              rw [List.length_append, List.length_singleton]
              omega
            rw [ih longer]
            simp

end Blocks

/-- Without a zero, the bytes before the first one are all that comes before it. -/
theorem takeWhile_zero {bytes : List UInt8} (free : 0 ∉ bytes) (rest : List UInt8) :
    (bytes ++ 0 :: rest).takeWhile (· != 0) = bytes := by
  have before : ∀ byte ∈ bytes, (byte != 0) = true := fun byte member =>
    bne_iff_ne.mpr fun zero => free (zero ▸ member)
  rw [List.takeWhile_append_of_pos before, List.takeWhile_cons_of_neg (by decide),
    List.append_nil]

/-- **A frame is decoded to its data, whatever follows it.** -/
theorem decode_frame (data rest : List UInt8) : decode (frame data ++ rest) = some data := by
  have free : 0 ∉ encode data := zero_notMem_encodeFrom length_nil_lt List.not_mem_nil data
  have split : frame data ++ rest = encode data ++ 0 :: rest := List.append_assoc ..
  have ends : 0 ∈ encode data ++ 0 :: rest := List.mem_append_right _ (List.mem_cons_self ..)
  rw [decode, split, if_pos ends, takeWhile_zero free]
  exact decodeFrom_encodeFrom length_nil_lt false data

section Streams

/-- Cut a stream behind its zeros. Bytes behind the last one are no frame yet. -/
def cutFrom (run : List UInt8) : List UInt8 → List (List UInt8)
  | [] => []
  | byte :: bytes =>
      if byte = 0 then (run ++ [0]) :: cutFrom [] bytes else cutFrom (run ++ [byte]) bytes

/-- The data of the frames of a stream. -/
def receive (bytes : List UInt8) : List (Option (List UInt8)) := (cutFrom [] bytes).map decode

theorem cutFrom_append {bytes : List UInt8} (free : 0 ∉ bytes) (run rest : List UInt8) :
    cutFrom run (bytes ++ 0 :: rest) = (run ++ bytes ++ [0]) :: cutFrom [] rest := by
  induction bytes generalizing run with
  | nil => rw [List.nil_append, cutFrom, if_pos rfl, List.append_nil]
  | cons byte bytes ih =>
      have nonzero : byte ≠ 0 := fun zero => free (zero ▸ List.mem_cons_self ..)
      have later : 0 ∉ bytes := fun member => free (List.mem_cons_of_mem _ member)
      rw [List.cons_append, cutFrom, if_neg nonzero, ih later, List.append_assoc run,
        List.singleton_append]

/-- **A stream of frames is received as their data.** -/
theorem receive_frames (datas : List (List UInt8)) :
    receive (datas.map frame).flatten = datas.map some := by
  unfold receive
  induction datas with
  | nil => rfl
  | cons data datas ih =>
      have free : 0 ∉ encode data := zero_notMem_encodeFrom length_nil_lt List.not_mem_nil data
      have split : ((data :: datas).map frame).flatten =
          encode data ++ 0 :: (datas.map frame).flatten := List.append_assoc ..
      have decoded := decode_frame data []
      rw [List.append_nil] at decoded
      rw [split, cutFrom_append free, List.map_cons, ih, List.nil_append]
      exact congrArg (· :: datas.map some) decoded

end Streams

theorem length_encodeFrom_le {run : List UInt8} (short : run.length < blockMax)
    (data : List UInt8) :
    (encodeFrom run data).length ≤
      run.length + data.length + (run.length + data.length) / blockMax + 1 := by
  induction data generalizing run with
  | nil =>
      unfold blockMax
      rw [encodeFrom, block, List.length_cons, List.length_nil]
      omega
  | cons byte data ih =>
      have rest := ih length_nil_lt
      rw [List.length_nil] at rest
      unfold blockMax at short rest ih ⊢
      rw [encodeFrom]
      split
      · rw [List.length_append, block, List.length_cons, List.length_cons]
        omega
      · split
        · next full =>
            unfold blockMax at full
            rw [List.length_append, block, List.length_cons, List.length_append,
              List.length_singleton, List.length_cons]
            omega
        · next more =>
            unfold blockMax at more
            have room : (run ++ [byte]).length < 254 := by
              rw [List.length_append, List.length_singleton]
              omega
            have longer := ih room
            rw [List.length_append, List.length_singleton] at longer
            rw [List.length_cons]
            omega

/-- A frame takes a byte more for each block, and one to end it. -/
theorem length_frame_le (data : List UInt8) :
    (frame data).length ≤ data.length + data.length / blockMax + 2 := by
  have bound := length_encodeFrom_le length_nil_lt data
  rw [List.length_nil, Nat.zero_add] at bound
  rw [frame, List.length_append, List.length_singleton]
  unfold encode
  omega

end Cobs
