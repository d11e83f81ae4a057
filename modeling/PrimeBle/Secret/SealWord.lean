import PrimeBle.Secret.Provisioning

/-! # The seal word is not read back

Writing the secret reads its eight words back, and not the seal word after them. On
NOR registers, where a write clears bits, the answer is true, and a sealed secret
stays sealed until developer firmware is booted, exactly when the seal word has all
the bits of the seal left whenever the secret takes
(`Secret.truthful_and_staysSealed_iff`).
-/

namespace PrimeBle.Secret

open Boot Device HostProtocol

/-- A write of the seal word leaves it as written. -/
def SealTakes (uicr : Uicr) (sealWord : UInt32) : Prop :=
  uicr.sealRegister &&& sealWord = sealWord

/-- A write that reports success leaves the secret and the seal as they were given,
one that reports failure leaves the seal alone. -/
structure Truthful (uicr : Uicr) (secret : Vector UInt32 8) (sealWord : UInt32) : Prop where
  success : (writeSecret .nor uicr secret sealWord).1 = true →
    Uicr.secret (writeSecret .nor uicr secret sealWord).2 = secret.toList ∧
      Uicr.sealRegister (writeSecret .nor uicr secret sealWord).2 = sealWord
  failure : (writeSecret .nor uicr secret sealWord).1 = false →
    Uicr.sealRegister (writeSecret .nor uicr secret sealWord).2 = uicr.sealRegister

/-- The bootloader takes the secret: it knows of no seal, the secret is neither all
zeros nor all ones, and its words take. -/
structure Sealable (loop : Loop) (secret : Vector UInt32 8) : Prop where
  unsealed : ¬ (loop.cachedSeal = uicrSealedSecret ∨ loop.cachedSeal = uicrSealedWiped)
  proper : ¬ (secret.all (· == 0) ∨ secret.all (· == 0xFFFFFFFF))
  takes : Takes .nor loop.uicr secret

/-- A secret arrives at a bootloader with NOR registers. -/
abbrev arrival (flash : FlashDriver) (radio : Firmware.RadioReadings)
    (secret : Vector UInt32 8) : Device.Event :=
  challengeSetEvent ⟨flash, .nor⟩ radio secret

/-- A secret that is answered with `sealed` is sealed after every later reset, unless
developer firmware has been booted. -/
def StaysSealed (platform : Device.Platform) (loop : Loop) (flash : FlashDriver)
    (radio : Firmware.RadioReadings) (secret : Vector UInt32 8) : Prop :=
  ∀ sealing, sealing = (machine platform).fire (.bootloader loop) (arrival flash radio secret) →
    sealing.output = some (.bootloader (.ackChallengeSet .sealed)) →
    ∀ events, (∀ transition ∈ (machine platform).trace sealing.target events,
      change transition ≠ .wipe) →
      At ((machine platform).run sealing.target (events ++ [.reset])) (.sealed secret)

section Write

theorem truthful_iff_sealTakes (uicr : Uicr) (secret : Vector UInt32 8) (sealWord : UInt32) :
    Truthful uicr secret sealWord ↔ (Takes .nor uicr secret → SealTakes uicr sealWord) := by
  by_cases takes : Takes .nor uicr secret
  · obtain ⟨succeeds, words, sealAfter⟩ := writeSecret_of_takes takes sealWord
    constructor
    · intro truthful _
      exact sealAfter.symm.trans (truthful.success succeeds).2
    · intro sealTakes
      refine ⟨fun _ => ⟨words, sealAfter.trans (sealTakes takes)⟩, fun fails => ?_⟩
      rw [succeeds] at fails
      cases fails
  · obtain ⟨fails, _, sealAfter⟩ := writeSecret_of_fails takes sealWord
    refine iff_of_true ⟨fun succeeds => ?_, fun _ => sealAfter⟩ fun able => absurd able takes
    rw [fails] at succeeds
    cases succeeds

end Write

section Sealing

variable {loop : Loop} {secret : Vector UInt32 8}

theorem challengeSet_of_sealable (sealable : Sealable loop secret) :
    challengeSet .nor loop secret =
      ({ loop with
          uicr := (writeSecret .nor loop.uicr secret uicrSealedSecret).2
          cachedSeal := uicrSealedSecret }, .sealed) :=
  challengeSet_of_takes sealable.unsealed sealable.proper sealable.takes

theorem challengeSet_sealed_iff :
    (challengeSet .nor loop secret).2 = .sealed ↔ Sealable loop secret := by
  constructor
  · intro accepted
    by_cases known : loop.cachedSeal = uicrSealedSecret ∨ loop.cachedSeal = uicrSealedWiped
    · rw [challengeSet_notAllowed known] at accepted
      cases accepted
    · by_cases improper : secret.all (· == 0) ∨ secret.all (· == 0xFFFFFFFF)
      · rw [challengeSet_of_improper known improper] at accepted
        cases accepted
      · by_cases takes : Takes .nor loop.uicr secret
        · exact ⟨known, improper, takes⟩
        · rw [challengeSet_of_fails known improper takes] at accepted
          cases accepted
  · intro sealable
    rw [challengeSet_of_sealable sealable]

/-- The registers after a secret is taken. -/
theorem holds_sealed_iff (sealable : Sealable loop secret) :
    (Lifecycle.sealed secret).Holds (challengeSet .nor loop secret).1.uicr ↔
      SealTakes loop.uicr uicrSealedSecret := by
  obtain ⟨_, words, sealAfter⟩ := writeSecret_of_takes sealable.takes uicrSealedSecret
  rw [challengeSet_of_sealable sealable]
  constructor
  · intro holds
    exact sealAfter.symm.trans holds.2
  · intro sealTakes
    exact ⟨words, sealAfter.trans sealTakes⟩

/-- Where the seal takes as well, the cache holds it. -/
theorem at_sealed_of_sealTakes (sealable : Sealable loop secret)
    (sealTakes : SealTakes loop.uicr uicrSealedSecret) :
    At (.bootloader (challengeSet .nor loop secret).1) (.sealed secret) := by
  have holds := (holds_sealed_iff sealable).mpr sealTakes
  refine ⟨holds, Eq.trans ?_ holds.2.symm⟩
  rw [challengeSet_of_sealable sealable]

end Sealing

section Runs

variable (platform : Device.Platform)

/-- A sealed secret survives every step that does not boot developer firmware. -/
theorem at_sealed_step {device : Device} {event : Device.Event} {secret : Vector UInt32 8}
    (here : At device (.sealed secret))
    (kept : change ((machine platform).fire device event) ≠ .wipe) :
    At (step platform device event).1 (.sealed secret) := by
  rcases step_cases platform device event with
    untouched | ⟨loop, hw, radio, other, rfl, rfl⟩ | ⟨loop, hw, radio, rfl, rfl, verifies, _⟩
  · refine ⟨?_, untouched.cached here.2⟩
    rw [untouched.uicr]
    exact here.1
  · have known : loop.cachedSeal = uicrSealedSecret ∨ loop.cachedSeal = uicrSealedWiped :=
      Or.inl (Eq.trans here.2 here.1.2)
    rw [step_challengeSet, challengeSet_notAllowed known]
    exact here
  · exact absurd (change_boot_of_verifies platform hw radio verifies) kept

theorem at_sealed_run {device : Device} {events : List Device.Event} {secret : Vector UInt32 8}
    (here : At device (.sealed secret))
    (kept : ∀ transition ∈ (machine platform).trace device events, change transition ≠ .wipe) :
    At ((machine platform).run device events) (.sealed secret) := by
  induction events generalizing device with
  | nil => exact here
  | cons event events ih =>
      obtain ⟨first, later⟩ := List.forall_mem_cons.mp kept
      exact ih (at_sealed_step platform here first) later

/-- A reset keeps the registers, and the seal is read again. -/
theorem at_reset_iff {device : Device} {lifecycle : Lifecycle} :
    At (step platform device .reset).1 lifecycle ↔ lifecycle.Holds device.uicr := by
  cases device with
  | bootloader loop => exact and_iff_left rfl
  | application flash uicr app => exact and_iff_left rfl

theorem staysSealed_iff_sealTakes (loop : Loop) (flash : FlashDriver)
    (radio : Firmware.RadioReadings) (secret : Vector UInt32 8) :
    StaysSealed platform loop flash radio secret ↔
      (Sealable loop secret → SealTakes loop.uicr uicrSealedSecret) := by
  have stepped := step_challengeSet platform loop ⟨flash, .nor⟩ radio secret
  constructor
  · intro stays sealable
    have accepted := challengeSet_sealed_iff.mpr sealable
    have answered : (step platform (.bootloader loop) (arrival flash radio secret)).2 =
        some (.bootloader (.ackChallengeSet .sealed)) := by
      rw [stepped, accepted]
    have after := stays _ rfl answered [] fun _ none => absurd none (List.not_mem_nil)
    have holds := (at_reset_iff platform).mp after
    rw [Machine.fire_target, machine_step, stepped] at holds
    exact (holds_sealed_iff sealable).mp holds
  · intro sealTakes sealing fired answered events kept
    subst fired
    rw [Machine.fire_output, machine_step, stepped] at answered
    simp only [Option.some.injEq, HostProtocolMessage.bootloader.injEq,
      Bootloader.ackChallengeSet.injEq] at answered
    have sealable := challengeSet_sealed_iff.mp answered
    have sealed : At (step platform (.bootloader loop) (arrival flash radio secret)).1
        (.sealed secret) := by
      rw [stepped]
      exact at_sealed_of_sealTakes sealable (sealTakes sealable)
    rw [Machine.run_append]
    exact (at_reset_iff platform).mpr (at_sealed_run platform sealed kept).1

end Runs

/-- **The report of a write.** Of any registers, secret and seal word it is true, and
what is answered with `sealed` stays sealed, exactly when the seal word takes
whenever the secret does. -/
theorem truthful_and_staysSealed_iff (uicr : Uicr) (secret : Vector UInt32 8)
    (sealWord : UInt32) (platform : Device.Platform) (loop : Loop) (flash : FlashDriver)
    (radio : Firmware.RadioReadings) :
    (Truthful uicr secret sealWord ↔ (Takes .nor uicr secret → SealTakes uicr sealWord)) ∧
      (StaysSealed platform loop flash radio secret ↔
        (Sealable loop secret → SealTakes loop.uicr uicrSealedSecret)) :=
  ⟨truthful_iff_sealTakes uicr secret sealWord,
    staysSealed_iff_sealTakes platform loop flash radio secret⟩

/-- Blank words behind a seal word of zero, which counts as no seal. -/
def zeroSeal : Uicr := fun index => if index = uicrSealIndex then 0 else Uicr.erased

/-- The secret is answered with `sealed`, and there is no seal after the reset. -/
theorem zeroSeal_not_truthful :
    ¬ Truthful zeroSeal (Vector.replicate 8 1) uicrSealedSecret ∧
      ¬ StaysSealed .bare (.start (fun _ => erasedByte) zeroSeal) nvmc ⟨none, false⟩
        (Vector.replicate 8 1) := by
  constructor
  · intro truthful
    have sealing := (truthful.success (by decide +kernel)).2
    revert sealing
    decide +kernel
  · intro stays
    have after := stays _ rfl (by decide +kernel) [] fun _ none =>
      absurd none (List.not_mem_nil)
    have sealing := ((at_reset_iff .bare).mp after).2
    revert sealing
    decide +kernel

end PrimeBle.Secret
