import PrimeBle.Library.Crc32
import Mathlib.Data.Nat.Bitwise
import Mathlib.Tactic.Ring

/-! # Burst errors and cyclic redundancy checks

Shifting the register is linear in exclusive or (`Crc32.shift_xor`), and loses
nothing when the generator has a constant term (`Crc32.shift_injective`). So a
message whose errors lie within four consecutive bytes never has the check value
of the message it came from (`Crc32.checksum_burst`).
-/

namespace Crc32

/-- The generator has a constant term. -/
def Proper (algorithm : Crc32) : Prop := 2 ^ 31 ≤ algorithm.reversedPoly.toNat

theorem iscsi_proper : iscsi.Proper := by
  unfold Proper
  decide

/-- Two messages of one length that differ, if at all, in a window of a given
width. -/
def Burst (width : ℕ) (sent received : List UInt8) : Prop :=
  ∃ before left right after, sent = before ++ left ++ after ∧
    received = before ++ right ++ after ∧ left.length = right.length ∧ left.length ≤ width

theorem Burst.refl (width : ℕ) (data : List UInt8) : Burst width data data :=
  ⟨data, [], [], [], by simp, by simp, rfl, Nat.zero_le width⟩

theorem Burst.length_eq {width : ℕ} {sent received : List UInt8}
    (burst : Burst width sent received) : received.length = sent.length := by
  obtain ⟨before, left, right, after, rfl, rfl, same, -⟩ := burst
  simp only [List.length_append, same]

/-- A few bytes as one little-endian word. -/
def word : List UInt8 → UInt32
  | [] => 0
  | byte :: bytes => byte.toUInt32 ^^^ word bytes * 256

@[simp] theorem word_cons (byte : UInt8) (bytes : List UInt8) :
    word (byte :: bytes) = byte.toUInt32 ^^^ word bytes * 256 := rfl

variable (algorithm : Crc32)

/-- What falls out of the register is its lowest bit. -/
theorem low_bit (register : UInt32) : register &&& 1 = 1 ↔ register.toNat % 2 = 1 := by
  rw [← UInt32.toNat_inj, UInt32.toNat_and]
  change register.toNat &&& 1 = 1 ↔ _
  rw [Nat.and_one_is_mod]

theorem shift_of_odd {register : UInt32} (odd : register.toNat % 2 = 1) :
    algorithm.shift register = (register >>> 1) ^^^ algorithm.reversedPoly :=
  if_pos ((low_bit register).mpr odd)

theorem shift_of_even {register : UInt32} (even : register.toNat % 2 = 0) :
    algorithm.shift register = register >>> 1 :=
  if_neg fun one => by
    have odd := (low_bit register).mp one
    omega

theorem toNat_shiftRight_one (register : UInt32) : (register >>> 1).toNat = register.toNat / 2 := by
  rw [UInt32.toNat_shiftRight]
  exact Nat.shiftRight_eq_div_pow register.toNat 1

/-- Shifting is linear. -/
theorem shift_xor (left right : UInt32) :
    algorithm.shift (left ^^^ right) = algorithm.shift left ^^^ algorithm.shift right := by
  have parity : (left ^^^ right).toNat % 2 = (left.toNat % 2) ^^^ (right.toNat % 2) := by
    rw [UInt32.toNat_xor]
    exact Nat.xor_mod_two_pow (n := 1)
  have double : algorithm.reversedPoly ^^^ algorithm.reversedPoly = 0 := UInt32.xor_self
  rcases Nat.mod_two_eq_zero_or_one left.toNat with leftEven | leftOdd
  · rcases Nat.mod_two_eq_zero_or_one right.toNat with rightEven | rightOdd
    · rw [leftEven, rightEven] at parity
      rw [shift_of_even algorithm parity, shift_of_even algorithm leftEven,
        shift_of_even algorithm rightEven, UInt32.shiftRight_xor]
    · rw [leftEven, rightOdd] at parity
      rw [shift_of_odd algorithm parity, shift_of_even algorithm leftEven,
        shift_of_odd algorithm rightOdd, UInt32.shiftRight_xor, UInt32.xor_assoc]
  · rcases Nat.mod_two_eq_zero_or_one right.toNat with rightEven | rightOdd
    · rw [leftOdd, rightEven] at parity
      rw [shift_of_odd algorithm parity, shift_of_odd algorithm leftOdd,
        shift_of_even algorithm rightEven, UInt32.shiftRight_xor]
      ac_rfl
    · rw [leftOdd, rightOdd] at parity
      rw [shift_of_even algorithm parity, shift_of_odd algorithm leftOdd,
        shift_of_odd algorithm rightOdd, UInt32.shiftRight_xor]
      calc (left >>> 1) ^^^ (right >>> 1)
          = (left >>> 1) ^^^ (right >>> 1) ^^^
              (algorithm.reversedPoly ^^^ algorithm.reversedPoly) := by
            rw [double, UInt32.xor_zero]
        _ = _ := by ac_rfl

variable {algorithm}

/-- Only zero is shifted to zero. -/
theorem eq_zero_of_shift (proper : algorithm.Proper) {register : UInt32}
    (zero : algorithm.shift register = 0) : register = 0 := by
  have bound := register.toNat_lt
  unfold Proper at proper
  rcases Nat.mod_two_eq_zero_or_one register.toNat with even | odd
  · rw [shift_of_even algorithm even] at zero
    have half := toNat_shiftRight_one register
    rw [zero, UInt32.toNat_zero] at half
    rw [← UInt32.toNat_inj, UInt32.toNat_zero]
    omega
  · rw [shift_of_odd algorithm odd, UInt32.xor_eq_zero_iff] at zero
    have half := toNat_shiftRight_one register
    rw [zero] at half
    omega

/-- Nothing is lost by a shift. -/
theorem shift_injective (proper : algorithm.Proper) : Function.Injective algorithm.shift := by
  intro left right same
  rw [← UInt32.xor_eq_zero_iff]
  apply eq_zero_of_shift proper
  rw [shift_xor, same, UInt32.xor_self]

theorem update_injective (proper : algorithm.Proper) (byte : UInt8) :
    Function.Injective fun register => algorithm.update register byte := by
  intro left right same
  exact (UInt32.xor_left_inj _).mp ((shift_injective proper).iterate 8 same)

theorem foldl_update_injective (proper : algorithm.Proper) (data : List UInt8) :
    Function.Injective fun register => data.foldl algorithm.update register := by
  induction data with
  | nil => exact Function.injective_id
  | cons byte data ih => exact ih.comp (update_injective proper byte)

variable (algorithm)

theorem iterate_shift_xor (count : ℕ) (left right : UInt32) :
    algorithm.shift^[count] (left ^^^ right) =
      algorithm.shift^[count] left ^^^ algorithm.shift^[count] right := by
  induction count generalizing left right with
  | zero => rfl
  | succ count ih => simp only [Function.iterate_succ_apply, shift_xor, ih]

/-- Low zeros only move the register down. -/
theorem toNat_iterate_shift {count : ℕ} {register : UInt32} (zeros : 2 ^ count ∣ register.toNat) :
    (algorithm.shift^[count] register).toNat = register.toNat / 2 ^ count := by
  induction count generalizing register with
  | zero => simp
  | succ count ih =>
      have even : register.toNat % 2 = 0 :=
        Nat.mod_eq_zero_of_dvd ((Dvd.intro_left (2 ^ count) rfl).trans zeros)
      have next : (algorithm.shift register).toNat = register.toNat / 2 := by
        rw [shift_of_even algorithm even, toNat_shiftRight_one]
      rw [Function.iterate_succ_apply, ih, next, Nat.div_div_eq_div_mul, pow_succ']
      rw [next]
      exact Nat.dvd_div_of_mul_dvd (by rwa [← pow_succ'])

/-- Moved up by a byte, up to three bytes lose nothing. -/
theorem toNat_mul_byte {register : UInt32} (small : register.toNat < 2 ^ 24) :
    (register * 256).toNat = register.toNat * 2 ^ 8 := by
  rw [UInt32.toNat_mul]
  exact Nat.mod_eq_of_lt (by change register.toNat * 256 < 2 ^ 32; omega)

/-- Eight shifts undo the move. -/
theorem iterate_shift_mul_byte {register : UInt32} (small : register.toNat < 2 ^ 24) :
    algorithm.shift^[8] (register * 256) = register := by
  have moved := toNat_mul_byte small
  rw [← UInt32.toNat_inj, toNat_iterate_shift algorithm (by rw [moved]; exact Nat.dvd_mul_left ..),
    moved, Nat.mul_div_cancel _ (by decide)]

theorem toNat_byte_lt (byte : UInt8) : byte.toUInt32.toNat < 2 ^ 8 := byte.toNat_lt

theorem toNat_word_lt {data : List UInt8} (few : data.length ≤ 3) :
    (word data).toNat < 2 ^ (8 * data.length) := by
  induction data with
  | nil => decide
  | cons byte data ih =>
      rw [List.length_cons] at few ⊢
      have small := ih (by omega)
      have atMost : 2 ^ (8 * data.length) ≤ 2 ^ 16 := Nat.pow_le_pow_right (by decide) (by omega)
      have power : 2 ^ (8 * (data.length + 1)) = 2 ^ (8 * data.length) * 2 ^ 8 := by
        rw [← pow_add]
        ring_nf
      have positive : 1 ≤ 2 ^ (8 * data.length) := Nat.one_le_two_pow
      have low := toNat_byte_lt byte
      rw [word_cons, UInt32.toNat_xor, toNat_mul_byte (by omega)]
      apply Nat.xor_lt_two_pow
      · rw [power]
        omega
      · rw [power]
        exact Nat.mul_lt_mul_of_pos_right small (by decide)

theorem toNat_word_lt_of_three {data : List UInt8} (few : data.length ≤ 3) :
    (word data).toNat < 2 ^ 24 :=
  (toNat_word_lt few).trans_le (Nat.pow_le_pow_right (by decide) (by omega))

/-- Up to four bytes enter the register as one word. -/
theorem foldl_update_eq {data : List UInt8} (few : data.length ≤ 4) (register : UInt32) :
    data.foldl algorithm.update register =
      algorithm.shift^[8 * data.length] (register ^^^ word data) := by
  induction data generalizing register with
  | nil => exact UInt32.xor_zero.symm
  | cons byte data ih =>
      rw [List.length_cons] at few
      have short : data.length ≤ 3 := by omega
      have small := toNat_word_lt_of_three short
      rw [List.foldl_cons, ih (by omega), List.length_cons, Nat.mul_add, Nat.mul_one,
        Function.iterate_add_apply]
      congr 1
      calc algorithm.update register byte ^^^ word data
          = algorithm.shift^[8] (register ^^^ byte.toUInt32) ^^^
              algorithm.shift^[8] (word data * 256) := by
            rw [iterate_shift_mul_byte algorithm small]
            rfl
        _ = algorithm.shift^[8] (register ^^^ byte.toUInt32 ^^^ word data * 256) :=
            (iterate_shift_xor algorithm 8 _ _).symm
        _ = algorithm.shift^[8] (register ^^^ word (byte :: data)) := by
            rw [UInt32.xor_assoc]
            rfl

/-- The lowest byte of a word is the first of its bytes. -/
theorem word_cons_mod (byte : UInt8) {data : List UInt8} (few : data.length ≤ 3) :
    (word (byte :: data)).toNat % 2 ^ 8 = byte.toNat := by
  have moved := toNat_mul_byte (toNat_word_lt_of_three few)
  rw [word_cons, UInt32.toNat_xor, moved, Nat.xor_mod_two_pow, Nat.mul_mod_left, Nat.xor_zero]
  exact Nat.mod_eq_of_lt (toNat_byte_lt byte)

theorem word_cons_div (byte : UInt8) {data : List UInt8} (few : data.length ≤ 3) :
    (word (byte :: data)).toNat / 2 ^ 8 = (word data).toNat := by
  have moved := toNat_mul_byte (toNat_word_lt_of_three few)
  rw [word_cons, UInt32.toNat_xor, moved, Nat.xor_div_two_pow, Nat.mul_div_cancel _ (by decide),
    Nat.div_eq_of_lt (toNat_byte_lt byte), Nat.zero_xor]

/-- A word says which bytes it was made of. -/
theorem eq_of_word_eq {left right : List UInt8} (same : left.length = right.length)
    (few : left.length ≤ 4) (words : word left = word right) : left = right := by
  induction left generalizing right with
  | nil => exact (List.eq_nil_of_length_eq_zero same.symm).symm
  | cons byte left ih =>
      cases right with
      | nil => cases same
      | cons other right =>
          simp only [List.length_cons] at same few
          have leftShort : left.length ≤ 3 := by omega
          have rightShort : right.length ≤ 3 := by omega
          have leftByte := word_cons_mod byte leftShort
          have rightByte := word_cons_mod other rightShort
          have leftRest := word_cons_div byte leftShort
          have rightRest := word_cons_div other rightShort
          rw [words] at leftByte leftRest
          have bytes : byte = other := UInt8.toNat_inj.mp (leftByte.symm.trans rightByte)
          have rests : word left = word right :=
            UInt32.toNat_inj.mp (leftRest.symm.trans rightRest)
          rw [bytes, ih (by omega) (by omega) rests]

variable {algorithm}

/-- **Bursts are detected.** A message whose errors lie within four bytes has the
check value of the original only if there are none. -/
theorem checksum_burst (proper : algorithm.Proper) {sent received : List UInt8}
    (burst : Burst 4 sent received)
    (same : algorithm.checksum received = algorithm.checksum sent) : received = sent := by
  obtain ⟨before, left, right, after, rfl, rfl, lengths, few⟩ := burst
  unfold checksum at same
  rw [UInt32.xor_left_inj] at same
  simp only [List.foldl_append] at same
  have windows := foldl_update_injective proper after same
  rw [foldl_update_eq algorithm (lengths ▸ few), foldl_update_eq algorithm few, lengths] at windows
  have words := (shift_injective proper).iterate _ windows
  rw [UInt32.xor_right_inj] at words
  rw [eq_of_word_eq lengths few words.symm]

end Crc32
