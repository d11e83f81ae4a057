import PrimeBle.Library.PostcardEncoding

/-! # Encodings are the shortest

What a decoder takes off the front of the bytes and the value it makes of them
stand in a relation (`Postcard.Takes`), which is proved part by part along a `do`
block (`Postcard.Takes.bind`). The relation here: the value is valid, and the
bytes are its encoding or longer than it (`Postcard.Canonical`). A varint may be
padded with empty groups, so that longer ones do exist.
-/

namespace Postcard

variable {α β : Type}

section Takes

/-- The decoder leaves the end of its bytes, and what it takes off the front is so
related to the value. -/
def Takes (decoder : Decoder α) (relation : List UInt8 → α → Prop) : Prop :=
  ∀ bytes value rest, decoder bytes = some (value, rest) →
    ∃ used, bytes = used ++ rest ∧ relation used value

variable {first : Decoder α} {next : α → Decoder β} {relation : List UInt8 → α → Prop}
  {later : List UInt8 → β → Prop}

theorem Takes.pure {value : α} (holds : relation [] value) : Takes (pure value) relation := by
  intro bytes read rest out
  cases out
  exact ⟨[], rfl, holds⟩

theorem Takes.failure : Takes (failure : Decoder α) relation := by
  intro bytes read rest out
  cases out

/-- **Composition.** What is taken in turn is taken together. -/
theorem Takes.bind (taken : Takes first relation)
    (continues : ∀ value, Takes (next value)
      fun back result => ∀ front, relation front value → later (front ++ back) result) :
    Takes (first >>= next) later := by
  intro bytes result rest out
  obtain ⟨⟨value, left⟩, head, tail⟩ := Option.bind_eq_some_iff.mp out
  obtain ⟨front, rfl, related⟩ := taken _ _ _ head
  obtain ⟨back, rfl, joins⟩ := continues value _ _ _ tail
  exact ⟨front ++ back, (List.append_assoc _ _ _).symm, joins front related⟩

theorem Takes.mono {other : List UInt8 → α → Prop} (taken : Takes first relation)
    (implies : ∀ used value, relation used value → other used value) : Takes first other := by
  intro bytes value rest out
  obtain ⟨used, split, related⟩ := taken _ _ _ out
  exact ⟨used, split, implies used value related⟩

theorem Takes.map {f : α → β} (taken : Takes first relation)
    (maps : ∀ used value, relation used value → later used (f value)) :
    Takes (do Pure.pure (f (← first))) later := by
  refine taken.bind fun value => Takes.pure ?_
  intro front related
  rw [List.append_nil]
  exact maps front value related

end Takes

section Canonical

/-- The bytes are the given ones, or there are more of them. -/
def Covers (shortest used : List UInt8) : Prop :=
  used = shortest ∨ shortest.length < used.length

theorem Covers.refl (bytes : List UInt8) : Covers bytes bytes := .inl rfl

theorem Covers.length_le {shortest used : List UInt8} (covers : Covers shortest used) :
    shortest.length ≤ used.length := by
  cases covers with
  | inl same => exact same ▸ Nat.le_refl _
  | inr longer => exact Nat.le_of_lt longer

theorem Covers.append {front back usedFront usedBack : List UInt8}
    (first : Covers front usedFront) (second : Covers back usedBack) :
    Covers (front ++ back) (usedFront ++ usedBack) := by
  have frontBound := first.length_le
  have backBound := second.length_le
  cases first with
  | inr longer =>
      right
      simp only [List.length_append]
      omega
  | inl same =>
      cases second with
      | inr longer =>
          right
          simp only [List.length_append]
          omega
      | inl also => exact .inl (by rw [same, also])

/-- The value is valid, and the bytes are its encoding or longer than it. -/
def Canonical (encode : α → List UInt8) (valid : α → Prop) (used : List UInt8) (value : α) :
    Prop :=
  valid value ∧ Covers (encode value) used

/-- Values that are all valid. -/
abbrev Shortest (decoder : Decoder α) (encode : α → List UInt8) : Prop :=
  Takes decoder (Canonical encode fun _ => True)

end Canonical

section Varints

variable {bits : ℕ}

/-- The last byte of a varint is a group that fits the width. -/
theorem takes_lastByte {remaining shift out value : ℕ} {byte : UInt8} {bytes rest : List UInt8}
    (last : byte.toNat < 128)
    (read : varintFrom bits (remaining + 1) shift out (byte :: bytes) = some (value, rest)) :
    bytes = rest ∧ value = out + byte.toNat * 2 ^ shift ∧
      byte.toNat < 2 ^ (bits % 7 + 7 * remaining) := by
  rw [varintFrom_cons, if_pos last] at read
  split at read
  · cases read
  next fits =>
    cases read
    refine ⟨rfl, by rw [Nat.mod_eq_of_lt last], ?_⟩
    by_cases full : remaining = 0
    · have least : 0 < 2 ^ (bits % 7) := Nat.two_pow_pos _
      have most : ¬ maxOfLastByte bits < byte.toNat := fun above => fits ⟨full, above⟩
      unfold maxOfLastByte at most
      subst full
      rw [Nat.mul_zero, Nat.add_zero]
      omega
    · have wide : 2 ^ 7 ≤ 2 ^ (bits % 7 + 7 * remaining) :=
        Nat.pow_le_pow_right (by decide) (by omega)
      omega

theorem covers_last (remaining : ℕ) {byte : UInt8} (last : byte.toNat < 128) :
    Covers (varintOf (remaining + 1) byte.toNat) [byte] := by
  rw [varintOf_last last, UInt8.ofNat_toNat]
  exact .refl _

/-- The bytes of a group and of those after it are the varint of the value, or the
last groups are empty. -/
theorem covers_group {remaining group : ℕ} {byte : UInt8} {used : List UInt8}
    (more : 128 ≤ byte.toNat) (covers : Covers (varintOf (remaining + 1) group) used) :
    Covers (varintOf (remaining + 1 + 1) (byte.toNat % 128 + 128 * group)) (byte :: used) := by
  by_cases empty : group = 0
  · have several := covers.length_le
    have some := List.length_pos_iff.mpr (varintOf_ne_nil remaining group)
    have short : (varintOf (remaining + 1 + 1) (byte.toNat % 128)).length = 1 := by
      rw [varintOf_last (Nat.mod_lt _ (by decide))]
      rfl
    have low : byte.toNat % 128 + 128 * group = byte.toNat % 128 := by omega
    right
    rw [low, short, List.length_cons]
    omega
  · have large : ¬ byte.toNat % 128 + 128 * group < 128 := by omega
    have bounded := byte.toNat_lt
    have low : (byte.toNat % 128 + 128 * group) % 128 + 128 = byte.toNat := by omega
    have high : (byte.toNat % 128 + 128 * group) / 128 = group := by omega
    rw [varintOf_more large, low, high, UInt8.ofNat_toNat]
    exact (Covers.refl [byte]).append covers

/-- **Varints.** What is read as a varint is the varint of its value, or padded, and
the value fits the width. -/
theorem takes_varintFrom (bits remaining shift out : ℕ) :
    Takes (varintFrom bits (remaining + 1) shift out) fun used value =>
      ∃ group, value = out + group * 2 ^ shift ∧ group < 2 ^ (bits % 7 + 7 * remaining) ∧
        Covers (varintOf (remaining + 1) group) used := by
  induction remaining generalizing shift out with
  | zero =>
      intro bytes value rest read
      cases bytes with
      | nil => cases read
      | cons byte bytes =>
          by_cases last : byte.toNat < 128
          · obtain ⟨rfl, same, fits⟩ := takes_lastByte last read
            exact ⟨[byte], rfl, byte.toNat, same, fits, covers_last 0 last⟩
          · rw [varintFrom_more (Nat.not_lt.mp last)] at read
            cases read
  | succ remaining ih =>
      intro bytes value rest read
      cases bytes with
      | nil => cases read
      | cons byte bytes =>
          by_cases last : byte.toNat < 128
          · obtain ⟨rfl, same, fits⟩ := takes_lastByte last read
            exact ⟨[byte], rfl, byte.toNat, same, fits, covers_last (remaining + 1) last⟩
          · rw [varintFrom_more (Nat.not_lt.mp last)] at read
            obtain ⟨used, rfl, group, rfl, fits, covers⟩ := ih _ _ _ _ _ read
            have wider : 2 ^ (bits % 7 + 7 * (remaining + 1)) =
                128 * 2 ^ (bits % 7 + 7 * remaining) := by
              rw [Nat.mul_succ, ← Nat.add_assoc, Nat.pow_add, Nat.mul_comm]
            refine ⟨byte :: used, rfl, byte.toNat % 128 + 128 * group, ?_, ?_,
              covers_group (Nat.not_lt.mp last) covers⟩
            · rw [Nat.pow_add]
              ring
            · omega

end Varints

section Primitives

theorem takes_u32 : Shortest u32 Encode.u32 := by
  refine (takes_varintFrom 32 4 0 0).map ?_
  rintro used _ ⟨group, rfl, fits, covers⟩
  rw [Nat.zero_add, Nat.pow_zero, Nat.mul_one]
  refine ⟨trivial, ?_⟩
  rw [Encode.u32, UInt32.toNat_ofNat_of_lt' fits]
  exact covers

theorem takes_usize : Shortest usize Encode.usize := takes_u32

theorem takes_u64 : Shortest u64 Encode.u64 := by
  refine (takes_varintFrom 64 9 0 0).map ?_
  rintro used _ ⟨group, rfl, fits, covers⟩
  rw [Nat.zero_add, Nat.pow_zero, Nat.mul_one]
  refine ⟨trivial, ?_⟩
  rw [Encode.u64, UInt64.toNat_ofNat_of_lt' fits]
  exact covers

theorem takes_variant :
    Shortest variant fun index => Encode.variant (UInt32.ofNat index) := by
  refine (takes_varintFrom 32 4 0 0).mono ?_
  rintro used _ ⟨group, rfl, fits, covers⟩
  rw [Nat.zero_add, Nat.pow_zero, Nat.mul_one]
  refine ⟨trivial, ?_⟩
  change Covers (Encode.varint 32 (UInt32.ofNat group).toNat) used
  rw [UInt32.toNat_ofNat_of_lt' fits]
  exact covers

theorem takes_pop : Shortest pop Encode.u8 := by
  intro bytes value rest read
  cases bytes with
  | nil => cases read
  | cons byte bytes =>
      cases read
      exact ⟨[value], rfl, trivial, .refl _⟩

theorem takes_u8 : Shortest u8 Encode.u8 := takes_pop

theorem takes_i8 : Shortest i8 Encode.i8 := by
  refine takes_pop.map ?_
  rintro used value ⟨_, covers⟩
  exact ⟨trivial, covers⟩

theorem takes_bool : Shortest bool Encode.bool := by
  refine takes_pop.bind fun value => ?_
  split
  · refine Takes.pure ?_
    rintro front ⟨_, covers⟩
    exact ⟨trivial, covers.append (.refl [])⟩
  · refine Takes.pure ?_
    rintro front ⟨_, covers⟩
    exact ⟨trivial, covers.append (.refl [])⟩
  · exact Takes.failure

theorem takes_tryTakeN (count : ℕ) :
    Takes (tryTakeN count) fun used data => used = data ∧ data.length = count := by
  intro bytes data rest read
  unfold tryTakeN at read
  split at read
  next enough =>
    cases read
    exact ⟨bytes.take count, (List.take_append_drop count bytes).symm, rfl,
      List.length_take_of_le enough⟩
  · cases read

theorem takes_bytes :
    Takes bytes (Canonical Encode.bytes fun data => data.length < 2 ^ 32) := by
  refine takes_usize.bind fun length => (takes_tryTakeN _).mono ?_
  rintro used data ⟨rfl, count⟩ front ⟨_, covers⟩
  have same : UInt32.ofNat used.length = length := by rw [count, UInt32.ofNat_toNat]
  refine ⟨count.trans_lt length.toNat_lt, ?_⟩
  rw [Encode.bytes, same]
  exact covers.append (.refl used)

/-- Text is the only one with these bytes. -/
theorem bytes_of_fromUTF8 {data : List UInt8} {text : String}
    (valid : String.fromUTF8? ⟨data.toArray⟩ = some text) :
    text.toUTF8.data.toList = data := by
  unfold String.fromUTF8? at valid
  split at valid
  · cases valid
    rfl
  · cases valid

theorem takes_str :
    Takes str (Canonical Encode.str fun text => text.utf8ByteSize < 2 ^ 32) := by
  refine takes_bytes.bind fun data => ?_
  split
  next text valid =>
    refine Takes.pure ?_
    rintro front ⟨sized, covers⟩
    rw [← bytes_of_fromUTF8 valid] at sized covers
    rw [List.append_nil]
    exact ⟨sized, covers⟩
  · exact Takes.failure

theorem takes_array {decoder : Decoder α} {encode : α → List UInt8}
    (element : Shortest decoder encode) (count : ℕ) :
    Shortest (array decoder count) (Encode.array encode) := by
  induction count with
  | zero => exact Takes.pure ⟨trivial, .refl []⟩
  | succ count ih =>
      refine ih.bind fun front => element.map ?_
      rintro used last ⟨_, last_covers⟩ usedFront ⟨_, covers⟩
      refine ⟨trivial, ?_⟩
      rw [Encode.array_push]
      exact covers.append last_covers

end Primitives

end Postcard
