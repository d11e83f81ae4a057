import Mathlib.Tactic.Ring
import PrimeBle.Library.Postcard

/-! # Encoding to the postcard wire format

The encoders that the decoders of `Postcard` undo. An encoder and a decoder agree
on a value (`Postcard.Reads`) when the decoder takes exactly the encoding off the
front of any bytes; agreement composes along `do` blocks (`Postcard.Reads.bind`),
so a round trip is proved field by field. A reader that only shows something of
what it reads may leave bytes behind (`Postcard.Shows`).
-/

namespace Postcard

/-- The varint of a value, in at most `remaining` bytes. -/
def varintOf : (remaining value : ℕ) → List UInt8
  | 0, _ => []
  | remaining + 1, value =>
      if value < 128 then [UInt8.ofNat value]
      else UInt8.ofNat (value % 128 + 128) :: varintOf remaining (value / 128)

namespace Encode

def varint (bits value : ℕ) : List UInt8 := varintOf (varintMax bits) value

def bool (value : Bool) : List UInt8 := [if value then 1 else 0]

def u8 (value : UInt8) : List UInt8 := [value]

def i8 (value : Int8) : List UInt8 := [value.toUInt8]

def u32 (value : UInt32) : List UInt8 := varint 32 value.toNat

def u64 (value : UInt64) : List UInt8 := varint 64 value.toNat

def usize (value : UInt32) : List UInt8 := u32 value

/-- The index of an enumeration's variant. -/
def variant (index : UInt32) : List UInt8 := u32 index

def bytes (data : List UInt8) : List UInt8 := usize (UInt32.ofNat data.length) ++ data

def str (text : String) : List UInt8 := bytes text.toUTF8.data.toList

def array {α : Type} (encode : α → List UInt8) {count : ℕ} (values : Vector α count) :
    List UInt8 :=
  values.toList.flatMap encode

theorem array_push {α : Type} (encode : α → List UInt8) {count : ℕ} (front : Vector α count)
    (last : α) : array encode (front.push last) = array encode front ++ encode last := by
  simp only [array, Vector.toList_push, List.flatMap_append, List.flatMap_cons, List.flatMap_nil,
    List.append_nil]

end Encode

/-- An array that is not empty is another one and a last element. -/
theorem exists_push {α : Type} {count : ℕ} (values : Vector α (count + 1)) :
    ∃ front last, values = Vector.push front last :=
  ⟨values.pop, values.back, (Vector.push_pop_back values).symm⟩

section Bytes

variable {remaining value : ℕ}

/-- A small value is its own varint. -/
theorem varintOf_last (small : value < 128) :
    varintOf (remaining + 1) value = [UInt8.ofNat value] := if_pos small

/-- A larger one starts with its lowest group. -/
theorem varintOf_more (large : ¬ value < 128) :
    varintOf (remaining + 1) value =
      UInt8.ofNat (value % 128 + 128) :: varintOf remaining (value / 128) := if_neg large

theorem toNat_lastByte (small : value < 128) : (UInt8.ofNat value).toNat = value :=
  UInt8.toNat_ofNat_of_lt' (small.trans (by decide))

theorem toNat_moreByte (value : ℕ) :
    (UInt8.ofNat (value % 128 + 128)).toNat = value % 128 + 128 :=
  UInt8.toNat_ofNat_of_lt' (by simp only [UInt8.size]; omega)

/-- The lowest group and the others make up the value. -/
theorem groups_add (value power : ℕ) :
    value % 128 * power + value / 128 * (power * 128) = value * power := by
  calc value % 128 * power + value / 128 * (power * 128)
    _ = (value % 128 + 128 * (value / 128)) * power := by ring
    _ = value * power := by rw [Nat.mod_add_div]

end Bytes

section Length

theorem length_varintOf_le (remaining value : ℕ) :
    (varintOf remaining value).length ≤ remaining := by
  induction remaining generalizing value with
  | zero => exact Nat.le_refl 0
  | succ remaining ih =>
      simp only [varintOf]
      split
      · simp only [List.length_cons, List.length_nil]
        omega
      · simp only [List.length_cons]
        exact Nat.succ_le_succ (ih _)

theorem varintOf_ne_nil (remaining value : ℕ) : varintOf (remaining + 1) value ≠ [] := by
  simp only [varintOf]
  split
  · exact List.cons_ne_nil _ _
  · exact List.cons_ne_nil _ _

theorem length_u32_le (value : UInt32) : (Encode.u32 value).length ≤ 5 :=
  length_varintOf_le 5 _

theorem length_u64_le (value : UInt64) : (Encode.u64 value).length ≤ 10 :=
  length_varintOf_le 10 _

theorem length_variant_le (index : UInt32) : (Encode.variant index).length ≤ 5 :=
  length_varintOf_le 5 _

theorem variant_ne_nil (index : UInt32) : Encode.variant index ≠ [] := varintOf_ne_nil 4 _

theorem length_bytes_le (data : List UInt8) : (Encode.bytes data).length ≤ 5 + data.length := by
  simp only [Encode.bytes, List.length_append]
  exact Nat.add_le_add_right (length_u32_le _) _

theorem length_str_le (text : String) :
    (Encode.str text).length ≤ 5 + text.utf8ByteSize :=
  length_bytes_le _

theorem length_array_le {α : Type} {encode : α → List UInt8} {most : ℕ}
    (element : ∀ value, (encode value).length ≤ most) {count : ℕ} (values : Vector α count) :
    (Encode.array encode values).length ≤ count * most := by
  have bound : ∀ values : List α, (values.flatMap encode).length ≤ values.length * most := by
    intro values
    induction values with
    | nil => exact Nat.zero_le _
    | cons value values ih =>
        simp only [List.flatMap_cons, List.length_append, List.length_cons, Nat.succ_mul]
        have first := element value
        omega
  have all := bound values.toList
  rw [values.length_toList] at all
  exact all

end Length

section Reads

variable {α β : Type}

/-- The decoder takes exactly these bytes off the front for the value. -/
def Reads (decoder : Decoder α) (bytes : List UInt8) (value : α) : Prop :=
  ∀ rest, decoder (bytes ++ rest) = some (value, rest)

/-- The reader makes this value of everything that starts with these bytes. -/
def Shows (reader : Decoder α) (bytes : List UInt8) (value : α) : Prop :=
  ∀ rest, fromBytes reader (bytes ++ rest) = some value

theorem Reads.pure (value : α) : Reads (pure value) [] value := fun _ => rfl

/-- **Composition.** What is read in turn is read together. -/
theorem Reads.bind {first : Decoder α} {next : α → Decoder β} {front back : List UInt8}
    {value : α} {result : β} (reads : Reads first front value)
    (continues : Reads (next value) back result) :
    Reads (first >>= next) (front ++ back) result := by
  intro rest
  change (first (front ++ back ++ rest)).bind (fun out => next out.1 out.2) = _
  rw [List.append_assoc, reads]
  exact continues rest

theorem Reads.map {decoder : Decoder α} {bytes : List UInt8} {value : α} (f : α → β)
    (reads : Reads decoder bytes value) :
    Reads (do Pure.pure (f (← decoder))) bytes (f value) := by
  intro rest
  change (decoder (bytes ++ rest)).bind (fun out => some (f out.1, out.2)) = _
  rw [reads]
  rfl

theorem Reads.shows {decoder : Decoder α} {bytes : List UInt8} {value : α}
    (reads : Reads decoder bytes value) : Shows decoder bytes value := by
  intro rest
  simp only [fromBytes, StateT.run, reads rest, Option.map_some]

theorem shows_pure (bytes : List UInt8) (value : α) : Shows (pure value) bytes value :=
  fun _ => rfl

/-- What is read first can be followed by anything. -/
theorem Shows.append {reader : Decoder α} {bytes : List UInt8} {value : α}
    (shown : Shows reader bytes value) (more : List UInt8) :
    Shows reader (bytes ++ more) value := by
  intro rest
  rw [List.append_assoc]
  exact shown (more ++ rest)

theorem Reads.bind_shows {first : Decoder α} {next : α → Decoder β} {front back : List UInt8}
    {value : α} {result : β} (reads : Reads first front value)
    (continues : Shows (next value) back result) :
    Shows (first >>= next) (front ++ back) result := by
  intro rest
  change ((first (front ++ back ++ rest)).bind (fun out => next out.1 out.2)).map Prod.fst = _
  rw [List.append_assoc, reads]
  exact continues rest

end Reads

section Varints

variable {bits remaining shift out : ℕ} {byte : UInt8}

theorem varintFrom_cons (bits remaining shift out : ℕ) (byte : UInt8) (rest : List UInt8) :
    varintFrom bits (remaining + 1) shift out (byte :: rest) =
      (if byte.toNat < 128 then
        if remaining = 0 ∧ maxOfLastByte bits < byte.toNat then failure
        else pure (out + byte.toNat % 128 * 2 ^ shift)
      else varintFrom bits remaining (shift + 7) (out + byte.toNat % 128 * 2 ^ shift) :
        Decoder ℕ) rest := rfl

theorem varintFrom_last (last : byte.toNat < 128)
    (fits : remaining = 0 → byte.toNat ≤ maxOfLastByte bits) (rest : List UInt8) :
    varintFrom bits (remaining + 1) shift out (byte :: rest) =
      some (out + byte.toNat * 2 ^ shift, rest) := by
  have accepted : ¬ (remaining = 0 ∧ maxOfLastByte bits < byte.toNat) :=
    fun ⟨full, above⟩ => absurd (fits full) (Nat.not_le.mpr above)
  rw [varintFrom_cons, if_pos last, if_neg accepted, Nat.mod_eq_of_lt last]
  rfl

theorem varintFrom_more (more : 128 ≤ byte.toNat) (rest : List UInt8) :
    varintFrom bits (remaining + 1) shift out (byte :: rest) =
      varintFrom bits remaining (shift + 7) (out + byte.toNat % 128 * 2 ^ shift) rest := by
  rw [varintFrom_cons, if_neg (Nat.not_lt.mpr more)]

/-- One group of seven bits less. -/
theorem div_lt_of_fits {value exponent : ℕ} (fits : value < 2 ^ (exponent + 7)) :
    value / 128 < 2 ^ exponent := by
  rw [Nat.pow_add] at fits
  exact (Nat.div_lt_iff_lt_mul (by decide)).mpr fits

/-- **Varints.** A value that fits its width is read back from its varint. -/
theorem reads_varintFrom (remaining shift out value : ℕ)
    (fits : value < 2 ^ (bits % 7 + 7 * remaining)) :
    Reads (varintFrom bits (remaining + 1) shift out) (varintOf (remaining + 1) value)
      (out + value * 2 ^ shift) := by
  induction remaining generalizing shift out value with
  | zero =>
      intro rest
      have narrow : 2 ^ (bits % 7) ≤ 2 ^ 6 :=
        Nat.pow_le_pow_right (by decide) (Nat.le_of_lt_succ (Nat.mod_lt bits (by decide)))
      have small : value < 128 := by
        rw [Nat.mul_zero, Nat.add_zero] at fits
        omega
      have byte := toNat_lastByte small
      rw [varintOf_last small, List.singleton_append, varintFrom_last, byte]
      · omega
      · intro _
        rw [byte]
        exact Nat.le_sub_one_of_lt fits
  | succ remaining ih =>
      intro rest
      by_cases small : value < 128
      · have byte := toNat_lastByte small
        rw [varintOf_last small, List.singleton_append, varintFrom_last, byte]
        · omega
        · intro full
          cases full
      · have byte := toNat_moreByte value
        have fewer : value / 128 < 2 ^ (bits % 7 + 7 * remaining) := div_lt_of_fits fits
        have later := ih (shift + 7) (out + value % 128 * 2 ^ shift) (value / 128) fewer rest
        have low : (value % 128 + 128) % 128 = value % 128 := by omega
        rw [varintOf_more small, List.cons_append, varintFrom_more (by omega), byte, low, later,
          Nat.pow_add, Nat.add_assoc]
        exact congrArg (fun total => some (out + total, rest)) (groups_add value (2 ^ shift))

end Varints

section Primitives

theorem reads_u32 (value : UInt32) : Reads u32 (Encode.u32 value) value := by
  have read : Reads (tryTakeVarint 32) (Encode.u32 value) (0 + value.toNat * 2 ^ 0) :=
    reads_varintFrom 4 0 0 value.toNat value.toNat_lt
  have mapped := read.map UInt32.ofNat
  simp only [Nat.zero_add, Nat.pow_zero, Nat.mul_one, UInt32.ofNat_toNat] at mapped
  exact mapped

theorem reads_usize (value : UInt32) : Reads usize (Encode.usize value) value := reads_u32 value

theorem reads_u64 (value : UInt64) : Reads u64 (Encode.u64 value) value := by
  have read : Reads (tryTakeVarint 64) (Encode.u64 value) (0 + value.toNat * 2 ^ 0) :=
    reads_varintFrom 9 0 0 value.toNat value.toNat_lt
  have mapped := read.map UInt64.ofNat
  simp only [Nat.zero_add, Nat.pow_zero, Nat.mul_one, UInt64.ofNat_toNat] at mapped
  exact mapped

theorem reads_variant (index : UInt32) :
    Reads variant (Encode.variant index) index.toNat := by
  have read : Reads variant (Encode.variant index) (0 + index.toNat * 2 ^ 0) :=
    reads_varintFrom 4 0 0 index.toNat index.toNat_lt
  simp only [Nat.zero_add, Nat.pow_zero, Nat.mul_one] at read
  exact read

theorem reads_bool (value : Bool) : Reads bool (Encode.bool value) value := by
  intro rest
  cases value with
  | false => rfl
  | true => rfl

theorem reads_u8 (value : UInt8) : Reads u8 (Encode.u8 value) value := fun _ => rfl

theorem reads_i8 (value : Int8) : Reads i8 (Encode.i8 value) value := fun _ => rfl

theorem reads_tryTakeN (data : List UInt8) : Reads (tryTakeN data.length) data data := by
  intro rest
  simp only [tryTakeN, List.length_append, Nat.le_add_right, ↓reduceIte, List.take_left,
    List.drop_left]

theorem reads_bytes {data : List UInt8} (sized : data.length < 2 ^ 32) :
    Reads bytes (Encode.bytes data) data := by
  have length : (UInt32.ofNat data.length).toNat = data.length :=
    UInt32.toNat_ofNat_of_lt' sized
  apply (reads_u32 (UInt32.ofNat data.length)).bind
  rw [length]
  exact reads_tryTakeN data

theorem fromUTF8_bytes (text : String) :
    String.fromUTF8? ⟨text.toUTF8.data.toList.toArray⟩ = some text := by
  simp only [Array.toArray_toList, String.fromUTF8?, String.toUTF8_eq_toByteArray,
    dif_pos text.isValidUTF8]
  rfl

theorem reads_str {text : String} (sized : text.utf8ByteSize < 2 ^ 32) :
    Reads str (Encode.str text) text := by
  intro rest
  have read : bytes (Encode.str text ++ rest) = some (text.toUTF8.data.toList, rest) :=
    reads_bytes sized rest
  simp only [str, bind, StateT.bind, read, Option.bind_some, fromUTF8_bytes]
  rfl

/-- The elements of an array are read in turn. -/
theorem reads_array {α : Type} {decoder : Decoder α} {encode : α → List UInt8}
    (element : ∀ value, Reads decoder (encode value) value) {count : ℕ}
    (values : Vector α count) :
    Reads (array decoder count) (Encode.array encode values) values := by
  induction count with
  | zero =>
      obtain rfl : values = #v[] := Vector.eq_empty
      exact .pure _
  | succ count ih =>
      obtain ⟨front, last, rfl⟩ := exists_push values
      rw [Encode.array_push]
      apply (ih front).bind
      exact (element last).map front.push

end Primitives

end Postcard
