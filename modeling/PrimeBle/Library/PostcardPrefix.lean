import PrimeBle.Library.PostcardEncoding

/-! # Decoding what was cut short

A decoder that succeeds looks only at the bytes it takes (`Postcard.Prompt`), so
that bytes appended to its input stay behind. This composes like the decoders do,
as instances. A value that such a decoder reads is not read from a part of its
encoding (`Postcard.Reads.cut`).
-/

namespace Postcard

variable {α β : Type}

/-- Bytes appended to what a decoder reads are left behind. -/
class Prompt (decoder : Decoder α) : Prop where
  append : ∀ {bytes value rest}, decoder bytes = some (value, rest) →
    ∀ more, decoder (bytes ++ more) = some (value, rest ++ more)

instance prompt_pure (value : α) : Prompt (pure value) where
  append := by
    intro bytes read rest out more
    cases out
    rfl

instance prompt_failure : Prompt (failure : Decoder α) where
  append := by
    intro bytes read rest out
    cases out

theorem Prompt.bind {first : Decoder α} {next : α → Decoder β} (here : Prompt first)
    (later : ∀ value, Prompt (next value)) : Prompt (first >>= next) where
  append := by
    intro bytes read rest out more
    obtain ⟨⟨value, left⟩, head, tail⟩ := Option.bind_eq_some_iff.mp out
    refine Option.bind_eq_some_iff.mpr ⟨(value, left ++ more), here.append head more, ?_⟩
    exact (later value).append tail more

instance prompt_bind (first : Decoder α) (next : α → Decoder β) [here : Prompt first]
    [later : ∀ value, Prompt (next value)] : Prompt (first >>= next) := here.bind later

/-- **What is cut short is not read.** The decoder fails on a proper part of the
encoding of a value. -/
theorem Reads.cut {decoder : Decoder α} [prompt : Prompt decoder] {bytes : List UInt8}
    {value : α} (reads : Reads decoder bytes value) {kept : ℕ} (short : kept < bytes.length) :
    fromBytes decoder (bytes.take kept) = none := by
  cases read : decoder (bytes.take kept) with
  | none => simp only [fromBytes, StateT.run, read, Option.map_none]
  | some out =>
      obtain ⟨other, rest⟩ := out
      have whole := prompt.append read (bytes.drop kept)
      have exactly := reads []
      rw [List.take_append_drop] at whole
      rw [List.append_nil, whole] at exactly
      obtain ⟨_, empty⟩ := Prod.mk.inj (Option.some.inj exactly)
      have lost := congrArg List.length (List.append_eq_nil_iff.mp empty).2
      rw [List.length_drop, List.length_nil] at lost
      omega

section Primitives

instance prompt_pop : Prompt pop where
  append := by
    intro bytes value rest out more
    cases bytes with
    | nil => cases out
    | cons byte bytes =>
        cases out
        rfl

instance prompt_tryTakeN (count : ℕ) : Prompt (tryTakeN count) where
  append := by
    intro bytes value rest out more
    by_cases enough : count ≤ bytes.length
    · simp only [tryTakeN, enough, ↓reduceIte, Option.some.injEq, Prod.mk.injEq] at out
      obtain ⟨rfl, rfl⟩ := out
      have still : count ≤ (bytes ++ more).length := by
        rw [List.length_append]
        omega
      simp only [tryTakeN, still, ↓reduceIte, List.take_append_of_le_length enough,
        List.drop_append_of_le_length enough]
    · simp only [tryTakeN, enough, ↓reduceIte, reduceCtorEq] at out

instance prompt_varintFrom (bits remaining shift out : ℕ) :
    Prompt (varintFrom bits remaining shift out) := by
  induction remaining generalizing shift out with
  | zero => exact prompt_failure
  | succ remaining ih =>
      refine prompt_pop.bind fun byte => ?_
      dsimp only
      split
      · split <;> infer_instance
      · exact ih _ _

instance prompt_tryTakeVarint (bits : ℕ) : Prompt (tryTakeVarint bits) := prompt_varintFrom ..

instance prompt_bool : Prompt bool := by
  refine prompt_pop.bind fun byte => ?_
  split <;> infer_instance

instance prompt_u8 : Prompt u8 := prompt_pop

instance prompt_i8 : Prompt i8 := prompt_bind ..

instance prompt_u32 : Prompt u32 := prompt_bind ..

instance prompt_u64 : Prompt u64 := prompt_bind ..

instance prompt_usize : Prompt usize := prompt_u32

instance prompt_variant : Prompt variant := prompt_varintFrom ..

instance prompt_bytes : Prompt bytes := prompt_bind ..

instance prompt_str : Prompt str := by
  refine prompt_bytes.bind fun data => ?_
  split <;> infer_instance

instance prompt_array (decoder : Decoder α) [Prompt decoder] (count : ℕ) :
    Prompt (array decoder count) := by
  induction count with
  | zero => exact prompt_pure _
  | succ count ih => exact prompt_bind ..

end Primitives

end Postcard
