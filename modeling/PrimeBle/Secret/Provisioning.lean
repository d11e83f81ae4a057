import PrimeBle.Secret.Registers

/-! # Provisioning the secret

The registers of a device that leaves the factory blank go through a lifecycle:
a secret is sealed once, and wiped once. Across boots and resets the device
refines that lifecycle, driven by what the host sees
(`Secret.refines_lifecycle`); so at most one secret is ever accepted, nothing
else touches the registers, and both programs answer challenges alike
(`Secret.provisioning`). Register writes are taken to clear bits, and to take
effect.
-/

namespace PrimeBle.Secret

open Boot Device HostProtocol

/-- What has become of the secret. -/
inductive Lifecycle where
  | blank
  | sealed (secret : Vector UInt32 8)
  | wiped

/-- What a step means for the secret. -/
inductive Change where
  | none
  | provision (secret : Vector UInt32 8)
  | wipe

namespace Lifecycle

/-- A secret is sealed once and wiped once. -/
def next : Lifecycle → Change → Lifecycle
  | blank, .provision secret => sealed secret
  | sealed _, .wipe => wiped
  | lifecycle, _ => lifecycle

/-- The registers are those of a device at a point of the lifecycle. -/
def Holds (uicr : Uicr) : Lifecycle → Prop
  | blank => ∀ index ≤ uicrSealIndex, uicr index = Uicr.erased
  | sealed secret => uicr.secret = secret.toList ∧ uicr.sealRegister = uicrSealedSecret
  | wiped => uicr.secret = List.replicate 8 0 ∧ uicr.sealRegister = uicrSealedWiped

@[simp] theorem next_none (lifecycle : Lifecycle) : lifecycle.next .none = lifecycle := by
  cases lifecycle with
  | blank => rfl
  | sealed secret => rfl
  | wiped => rfl

/-- What a challenge is answered with. -/
def result (hmac : HmacSha256) (nonce : UInt64) : Lifecycle → Vector UInt8 32
  | sealed secret => hmac.mac (secret.toList.flatMap toLeBytes) (toBeBytes nonce)
  | _ => Vector.replicate 32 0xFF

end Lifecycle

/-- The change the host sees: a secret is answered with `sealed`, or developer
firmware is booted. -/
def change (transition : Device.Transition) : Change :=
  match transition.event with
  | .request _ _ (some (.bootloader (.challengeSet secret))) =>
      if transition.output = some (.bootloader (.ackChallengeSet .sealed)) then .provision secret
      else .none
  | .request _ _ (some (.bootloader (.bootFirmware .developer))) =>
      if ¬ transition.source.isApplication ∧ transition.target.isApplication then .wipe else .none
  | _ => .none

/-- A secret arrives and is answered with `sealed`. -/
def answersSealed (transition : Device.Transition) : Bool :=
  match transition.event with
  | .request _ _ (some (.bootloader (.challengeSet _))) =>
      transition.output = some (.bootloader (.ackChallengeSet .sealed))
  | _ => false

/-- The step that seals a secret. -/
structure Seals (transition : Device.Transition) (secret : Vector UInt32 8) : Prop where
  asked : ∃ loop hw radio, transition.source = .bootloader loop ∧
    transition.event = challengeSetEvent hw radio secret
  answered : transition.output = some (.bootloader (.ackChallengeSet .sealed))
  before : transition.source.uicr.sealRegister = Uicr.erased
  after : transition.target.uicr.sealRegister = uicrSealedSecret
  words : transition.target.uicr.secret = secret.toList
  proper : secret ≠ Vector.replicate 8 0 ∧ secret ≠ Vector.replicate 8 Uicr.erased

/-- The step that wipes the secret. -/
structure Wipes (platform : Device.Platform) (transition : Device.Transition) : Prop where
  booted : ∃ loop hw radio flash uicr app, transition.source = .bootloader loop ∧
    transition.event = bootEvent hw radio .developer ∧
    VerifiesTwice platform loop.flash .developer ∧
    transition.target = .application flash uicr app
  before : transition.source.uicr.sealRegister = uicrSealedSecret
  after : transition.target.uicr.sealRegister = uicrSealedWiped
  words : transition.target.uicr.secret = List.replicate 8 0

/-- Register writes clear bits and take effect. -/
def WritesNor (event : Device.Event) : Prop :=
  ∀ hw radio request, event = .request hw radio request → hw.customer = .nor

/-- The device is at a point of the lifecycle. -/
def At (device : Device) (lifecycle : Lifecycle) : Prop :=
  lifecycle.Holds device.uicr ∧ device.AtLoop Cached

theorem erased_and (word : UInt32) : Uicr.erased &&& word = word :=
  UInt32.eq_of_toBitVec_eq BitVec.allOnes_and

theorem blank_sealRegister {uicr : Uicr} (blank : Lifecycle.blank.Holds uicr) :
    uicr.sealRegister = Uicr.erased := blank uicrSealIndex (Nat.le_refl _)

/-- Any secret takes on blank registers. -/
theorem takes_of_blank {uicr : Uicr} (blank : Lifecycle.blank.Holds uicr)
    (secret : Vector UInt32 8) : Takes .nor uicr secret := by
  intro index below
  rw [CellWrite.nor_apply, blank index (Nat.le_of_lt below), erased_and]

/-- Zeros take on any registers. -/
theorem takes_zeros (uicr : Uicr) : Takes .nor uicr (Vector.replicate 8 0) := by
  intro index below
  rw [Vector.getElem_replicate]
  exact UInt32.and_zero

/-- A wipe gets from sealed to wiped. -/
theorem holds_wiped {uicr : Uicr} (sealing : uicr.sealRegister = uicrSealedSecret) :
    Lifecycle.wiped.Holds (wiped .nor uicr) := by
  obtain ⟨-, words, sealAfter⟩ := writeSecret_of_takes (takes_zeros uicr) uicrSealedWiped
  refine ⟨words, sealAfter.trans ?_⟩
  rw [sealing]
  decide

/-- What a blank device makes of a secret. -/
theorem challengeSet_of_blank {loop : Loop} (blank : Lifecycle.blank.Holds loop.uicr)
    (cached : Cached loop) (secret : Vector UInt32 8) :
    challengeSet .nor loop secret = (loop, .error) ∨
      (secret ≠ Vector.replicate 8 0 ∧ secret ≠ Vector.replicate 8 Uicr.erased ∧
        challengeSet .nor loop secret =
          ({ loop with
              uicr := (writeSecret .nor loop.uicr secret uicrSealedSecret).2
              cachedSeal := uicrSealedSecret }, .sealed)) := by
  have unknown : ¬ (loop.cachedSeal = uicrSealedSecret ∨ loop.cachedSeal = uicrSealedWiped) := by
    rw [cached, blank_sealRegister blank]
    decide
  by_cases trivially : secret.all (· == 0) ∨ secret.all (· == 0xFFFFFFFF)
  · exact Or.inl (challengeSet_of_improper unknown trivially)
  · refine Or.inr ⟨?_, ?_, challengeSet_of_takes unknown trivially (takes_of_blank blank secret)⟩
    · rintro rfl
      exact trivially (Or.inl (by simp))
    · rintro rfl
      exact trivially (Or.inr (by simp [Uicr.erased]))

section Steps

variable (platform : Device.Platform)

theorem change_challengeSet (loop : Loop) (hw : Peripherals) (radio : Firmware.RadioReadings)
    (secret : Vector UInt32 8) :
    change ((machine platform).fire (.bootloader loop) (challengeSetEvent hw radio secret)) =
      if (challengeSet hw.customer loop secret).2 = .sealed then .provision secret else .none := by
  have answer : ((machine platform).fire (.bootloader loop)
      (challengeSetEvent hw radio secret)).output =
        some (.bootloader (.ackChallengeSet (challengeSet hw.customer loop secret).2)) := rfl
  change (if ((machine platform).fire (.bootloader loop)
      (challengeSetEvent hw radio secret)).output =
        some (.bootloader (.ackChallengeSet .sealed)) then _ else _) = _
  rw [answer]
  simp only [Option.some.injEq, HostProtocolMessage.bootloader.injEq,
    Bootloader.ackChallengeSet.injEq]

theorem change_boot_of_verifies {loop : Loop} (hw : Peripherals)
    (radio : Firmware.RadioReadings) (verifies : VerifiesTwice platform loop.flash .developer) :
    change ((machine platform).fire (.bootloader loop) (bootEvent hw radio .developer)) =
      .wipe := by
  have booted : ((machine platform).fire (.bootloader loop)
      (bootEvent hw radio .developer)).target.isApplication = true := by
    rw [Machine.fire_target, machine_step, step_boot_of_verifies platform _ radio verifies]
    rfl
  exact if_pos ⟨Bool.false_ne_true, booted⟩

/-- The application never seals a secret. -/
theorem change_application (flash : Flash) (uicr : Uicr) (app : Firmware.State)
    (event : Device.Event) :
    change ((machine platform).fire (.application flash uicr app) event) = .none := by
  have never : ∀ hw radio secret, (step platform (.application flash uicr app)
      (challengeSetEvent hw radio secret)).2 ≠ some (.bootloader (.ackChallengeSet .sealed)) := by
    intro hw radio secret answered
    rcases ofApplication_cases flash uicr (Firmware.step platform.firmware uicr app
      (.request radio (some (.bootloader (.challengeSet secret))))) with left | stays
    · cases (congrArg Prod.snd left).symm.trans answered
    · have sealing := (congrArg Prod.snd stays).symm.trans answered
      unfold Firmware.step at sealing
      split at sealing
      · cases sealing
      · cases sealing
  unfold change
  split
  · next hw radio secret asked =>
      rw [Machine.fire_event] at asked
      subst asked
      exact if_neg (never hw radio secret)
  · exact if_neg fun booted => booted.1 rfl
  · rfl

/-- Neither a secret nor a boot of developer firmware means anything else. -/
theorem change_of_other {device : Device} {event : Device.Event}
    (noSecret : ¬ ∃ loop hw radio secret, device = .bootloader loop ∧
      event = challengeSetEvent hw radio secret)
    (noBoot : ¬ ∃ loop hw radio, device = .bootloader loop ∧
      event = bootEvent hw radio .developer ∧ VerifiesTwice platform loop.flash .developer) :
    change ((machine platform).fire device event) = .none := by
  cases device with
  | application flash uicr app => exact change_application platform flash uicr app event
  | bootloader loop =>
      unfold change
      split
      · next hw radio secret asked =>
          exact absurd ⟨loop, hw, radio, secret, rfl, asked⟩ noSecret
      · next hw radio asked =>
          have fails : ¬ VerifiesTwice platform loop.flash .developer :=
            fun verifies => noBoot ⟨loop, hw, radio, rfl, asked, verifies⟩
          rw [Machine.fire_event] at asked
          subst asked
          rw [Machine.fire_target, machine_step, step_boot_of_fails platform _ radio fails]
          exact if_neg fun booted => Bool.false_ne_true booted.2
      · rfl

/-- What a step is to the secret: nothing, its sealing or its wiping. -/
inductive Effect (transition : Device.Transition) : Lifecycle → Lifecycle → Prop where
  | keeps {lifecycle : Lifecycle} (same : transition.target.uicr = transition.source.uicr)
      (stays : lifecycle.next (change transition) = lifecycle)
      (unanswered : ∀ secret, change transition ≠ .provision secret) :
      Effect transition lifecycle lifecycle
  | seals {secret : Vector UInt32 8} (seals : Seals transition secret)
      (changes : change transition = .provision secret) :
      Effect transition .blank (.sealed secret)
  | wipes {secret : Vector UInt32 8} (wipes : Wipes platform transition)
      (changes : change transition = .wipe) : Effect transition (.sealed secret) .wiped

variable {platform} {lifecycle : Lifecycle}

theorem Effect.next_eq {transition : Device.Transition} {next : Lifecycle}
    (effect : Effect platform transition lifecycle next) :
    next = lifecycle.next (change transition) := by
  cases effect with
  | keeps same stays unanswered => exact stays.symm
  | seals seals changes => rw [changes]; rfl
  | wipes wipes changes => rw [changes]; rfl

variable (platform lifecycle) in
/-- The step has its effect, and the device is where it leads. -/
def Advances (device : Device) (event : Device.Event) : Prop :=
  ∃ next, Effect platform ((machine platform).fire device event) lifecycle next ∧
    At (step platform device event).1 next

/-- A step that does not touch the registers and means nothing. -/
private theorem advances_keeps {device : Device} {event : Device.Event}
    (here : At device lifecycle) (untouched : Untouched device (step platform device event).1)
    (stays : lifecycle.next (change ((machine platform).fire device event)) = lifecycle)
    (unanswered : ∀ secret, change ((machine platform).fire device event) ≠ .provision secret) :
    Advances platform lifecycle device event := by
  refine ⟨lifecycle, .keeps untouched.uicr stays unanswered, ?_, untouched.cached here.2⟩
  rw [untouched.uicr]
  exact here.1

private theorem known_of_not_blank {loop : Loop} (here : At (.bootloader loop) lifecycle)
    (notBlank : lifecycle ≠ .blank) :
    loop.cachedSeal = uicrSealedSecret ∨ loop.cachedSeal = uicrSealedWiped := by
  obtain ⟨holds, cached⟩ := here
  cases lifecycle with
  | blank => exact absurd rfl notBlank
  | sealed secret => exact Or.inl (cached.trans holds.2)
  | wiped => exact Or.inr (cached.trans holds.2)

section Bootloader

variable {loop : Loop} {hw : Peripherals} (radio : Firmware.RadioReadings)

/-- A refused secret changes nothing. -/
private theorem advances_refused (here : At (.bootloader loop) lifecycle)
    {secret : Vector UInt32 8} {answer : SecretSaveResponse} (notSealed : answer ≠ .sealed)
    (refused : challengeSet hw.customer loop secret = (loop, answer)) :
    Advances platform lifecycle (.bootloader loop) (challengeSetEvent hw radio secret) := by
  have changed := change_challengeSet platform loop hw radio secret
  rw [refused, if_neg notSealed] at changed
  apply advances_keeps here
  · rw [step_challengeSet, refused]
    exact ⟨rfl, id⟩
  · rw [changed, Lifecycle.next_none]
  · rw [changed]
    exact fun secret => Change.noConfusion

/-- An accepted secret is sealed on blank registers. -/
private theorem advances_sealed (here : At (.bootloader loop) .blank)
    (nor : hw.customer = .nor) {secret : Vector UInt32 8}
    (proper : secret ≠ Vector.replicate 8 0 ∧ secret ≠ Vector.replicate 8 Uicr.erased)
    (accepted : challengeSet .nor loop secret =
      ({ loop with
          uicr := (writeSecret .nor loop.uicr secret uicrSealedSecret).2
          cachedSeal := uicrSealedSecret }, .sealed)) :
    Advances platform .blank (.bootloader loop) (challengeSetEvent hw radio secret) := by
  have blank : Lifecycle.blank.Holds loop.uicr := here.1
  have stepped := step_challengeSet platform loop hw radio secret
  have changed := change_challengeSet platform loop hw radio secret
  rw [nor, accepted] at stepped changed
  rw [if_pos rfl] at changed
  obtain ⟨-, words, sealAfter⟩ :=
    writeSecret_of_takes (takes_of_blank blank secret) uicrSealedSecret
  have sealedAfter : Uicr.sealRegister (writeSecret .nor loop.uicr secret uicrSealedSecret).2 =
      uicrSealedSecret := by
    rw [sealAfter, blank_sealRegister blank]
    exact erased_and _
  have target : ((machine platform).fire (.bootloader loop)
      (challengeSetEvent hw radio secret)).target = _ := congrArg Prod.fst stepped
  have seals : Seals ((machine platform).fire (.bootloader loop)
      (challengeSetEvent hw radio secret)) secret :=
    { asked := ⟨loop, hw, radio, rfl, rfl⟩
      answered := congrArg Prod.snd stepped
      before := blank_sealRegister blank
      after := by rw [target]; exact sealedAfter
      words := by rw [target]; exact words
      proper := proper }
  refine ⟨.sealed secret, .seals seals changed, ?_⟩
  rw [stepped]
  exact ⟨⟨words, sealedAfter⟩, sealedAfter.symm⟩

/-- A secret arrives at the bootloader. -/
theorem advances_challengeSet (here : At (.bootloader loop) lifecycle)
    (nor : hw.customer = .nor) (secret : Vector UInt32 8) :
    Advances platform lifecycle (.bootloader loop) (challengeSetEvent hw radio secret) := by
  by_cases notBlank : lifecycle = .blank
  · subst notBlank
    rcases challengeSet_of_blank here.1 here.2 secret with
      failed | ⟨notZero, notOnes, accepted⟩
    · rw [← nor] at failed
      exact advances_refused radio here (fun same => by cases same) failed
    · exact advances_sealed radio here nor ⟨notZero, notOnes⟩ accepted
  · have refused := challengeSet_notAllowed (known_of_not_blank here notBlank) hw.customer secret
    exact advances_refused radio here (fun same => by cases same) refused

/-- Developer firmware is booted over a sealed secret. -/
private theorem advances_wiped {secret : Vector UInt32 8}
    (here : At (.bootloader loop) (.sealed secret)) (nor : hw.customer = .nor)
    (verifies : VerifiesTwice platform loop.flash .developer) :
    Advances platform (.sealed secret) (.bootloader loop) (bootEvent hw radio .developer) := by
  have before : loop.uicr.sealRegister = uicrSealedSecret := here.1.2
  have wipes : loop.cachedSeal = uicrSealedSecret ∧ TrustLevel.developer = .developer :=
    ⟨Eq.trans here.2 before, rfl⟩
  have stepped := step_boot_of_verifies platform hw radio verifies
  rw [nor, if_pos wipes] at stepped
  have target : ((machine platform).fire (.bootloader loop)
      (bootEvent hw radio .developer)).target = _ := stepped
  have cleared := holds_wiped before
  have wiping : Wipes platform ((machine platform).fire (.bootloader loop)
      (bootEvent hw radio .developer)) :=
    { booted := ⟨loop, hw, radio, _, _, _, rfl, rfl, verifies, target⟩
      before := before
      after := by rw [target]; exact cleared.2
      words := by rw [target]; exact cleared.1 }
  refine ⟨.wiped, .wipes wiping (change_boot_of_verifies platform hw radio verifies), ?_⟩
  rw [stepped]
  exact ⟨cleared, trivial⟩

/-- Developer firmware is booted where there is nothing to wipe. -/
private theorem advances_spared (here : At (.bootloader loop) lifecycle)
    (verifies : VerifiesTwice platform loop.flash .developer)
    (unsealed : loop.cachedSeal ≠ uicrSealedSecret)
    (stays : lifecycle.next .wipe = lifecycle) :
    Advances platform lifecycle (.bootloader loop) (bootEvent hw radio .developer) := by
  have spared : ¬ (loop.cachedSeal = uicrSealedSecret ∧ TrustLevel.developer = .developer) :=
    fun wipes => unsealed wipes.1
  have changed := change_boot_of_verifies platform hw radio verifies
  apply advances_keeps here
  · rw [step_boot_of_verifies platform hw radio verifies, if_neg spared]
    exact ⟨rfl, fun _ => trivial⟩
  · rw [changed]
    exact stays
  · rw [changed]
    exact fun secret => Change.noConfusion

/-- Verified developer firmware is booted. -/
theorem advances_boot (here : At (.bootloader loop) lifecycle) (nor : hw.customer = .nor)
    (verifies : VerifiesTwice platform loop.flash .developer) :
    Advances platform lifecycle (.bootloader loop) (bootEvent hw radio .developer) := by
  cases lifecycle with
  | blank =>
      have cached : loop.cachedSeal = Uicr.erased := Eq.trans here.2 (blank_sealRegister here.1)
      refine advances_spared radio here verifies ?_ rfl
      rw [cached]
      decide
  | sealed secret => exact advances_wiped radio here nor verifies
  | wiped =>
      have cached : loop.cachedSeal = uicrSealedWiped := Eq.trans here.2 here.1.2
      refine advances_spared radio here verifies ?_ rfl
      rw [cached]
      decide

end Bootloader

variable (platform) in
/-- **One step of the lifecycle.** -/
theorem advances_step {device : Device} {event : Device.Event} (here : At device lifecycle)
    (nor : WritesNor event) : Advances platform lifecycle device event := by
  by_cases secrets : ∃ loop hw radio secret, device = .bootloader loop ∧
      event = challengeSetEvent hw radio secret
  · obtain ⟨loop, hw, radio, secret, rfl, rfl⟩ := secrets
    exact advances_challengeSet radio here (nor hw radio _ rfl) secret
  · by_cases boots : ∃ loop hw radio, device = .bootloader loop ∧
        event = bootEvent hw radio .developer ∧ VerifiesTwice platform loop.flash .developer
    · obtain ⟨loop, hw, radio, rfl, rfl, verifies⟩ := boots
      exact advances_boot radio here (nor hw radio _ rfl) verifies
    · rcases step_cases platform device event with
        untouched | set | ⟨loop, hw, radio, same, asked, verifies, -⟩
      · have changed := change_of_other platform secrets boots
        apply advances_keeps here untouched
        · rw [changed, Lifecycle.next_none]
        · rw [changed]
          exact fun secret => Change.noConfusion
      · exact absurd set secrets
      · exact absurd ⟨loop, hw, radio, same, asked, verifies⟩ boots

end Steps

/-- What has become of the secret along a run from a blank device. -/
def lifecycleOf (transitions : List Device.Transition) : Lifecycle :=
  (transitions.map change).foldl Lifecycle.next .blank

/-- **Refinement.** Across boots and resets, a device that was blank is where the
lifecycle says. -/
theorem refines_lifecycle (platform : Device.Platform) {device : Device}
    (blank : At device .blank) {events : List Device.Event}
    (nor : ∀ event ∈ events, WritesNor event) :
    At ((machine platform).run device events)
      (lifecycleOf ((machine platform).trace device events)) := by
  have simulates : ∀ device event lifecycle, At device lifecycle → WritesNor event →
      At ((machine platform).step device event).1
        (lifecycle.next (change ((machine platform).fire device event))) := by
    intro device event lifecycle here nor
    obtain ⟨next, effect, there⟩ := advances_step platform here nor
    rw [← effect.next_eq]
    exact there
  have guarded : ∀ transition ∈ (machine platform).trace device events,
      (fun _ event => WritesNor event) transition.source transition.event :=
    fun transition member => nor _ ((machine platform).event_mem_of_mem_trace member)
  exact (machine platform).run_simulates simulates blank guarded

theorem answersSealed_eq_false {transition : Device.Transition}
    (unanswered : ∀ secret, change transition ≠ .provision secret) :
    answersSealed transition = false := by
  unfold answersSealed
  unfold change at unanswered
  split
  · next hw radio secret asked =>
      rw [asked] at unanswered
      apply decide_eq_false
      intro answered
      exact unanswered secret (if_pos answered)
  · rfl

theorem Effect.registers {platform : Device.Platform} {transition : Device.Transition}
    {lifecycle next : Lifecycle} (effect : Effect platform transition lifecycle next) :
    transition.target.uicr = transition.source.uicr ∨
      (∃ secret, Seals transition secret) ∨ Wipes platform transition := by
  cases effect with
  | keeps same stays unanswered => exact Or.inl same
  | seals seals changes => exact Or.inr (Or.inl ⟨_, seals⟩)
  | wipes wipes changes => exact Or.inr (Or.inr wipes)

/-- How many secrets a device may still accept. -/
def vacancies (device : Device) : ℕ :=
  if device.uicr.sealRegister = Uicr.erased then 1 else 0

theorem Effect.paid {platform : Device.Platform} {transition : Device.Transition}
    {lifecycle next : Lifecycle} (effect : Effect platform transition lifecycle next) :
    (answersSealed transition).toNat + vacancies transition.target ≤
      vacancies transition.source := by
  unfold vacancies
  cases effect with
  | keeps same stays unanswered =>
      rw [answersSealed_eq_false unanswered, same, Bool.toNat_false]
      exact Nat.le_of_eq (Nat.zero_add _)
  | seals seals changes =>
      have full : uicrSealedSecret ≠ Uicr.erased := by decide
      rw [seals.before, seals.after, if_pos rfl, if_neg full]
      exact Bool.toNat_le _
  | wipes wipes changes =>
      have full : uicrSealedSecret ≠ Uicr.erased := by decide
      have gone : uicrSealedWiped ≠ Uicr.erased := by decide
      have unanswered : ∀ secret, change transition ≠ .provision secret := by
        rw [changes]
        exact fun secret => Change.noConfusion
      rw [answersSealed_eq_false unanswered, wipes.before, wipes.after, if_neg full, if_neg gone]
      exact Nat.le_refl _

/-- At every point of the lifecycle the bootloader answers as it should. -/
theorem challengeRequest_eq (platform : Boot.Platform) {loop : Loop} {lifecycle : Lifecycle}
    (holds : lifecycle.Holds loop.uicr) (cached : Cached loop) (nonce : UInt64) :
    challengeRequest platform loop nonce =
      .challengeResult (lifecycle.result platform.hmac nonce) := by
  unfold challengeRequest
  rw [cached, HmacSha256.newFromSlice_eq]
  cases lifecycle with
  | blank =>
      have unsealed : Uicr.erased ≠ uicrSealedSecret := by decide
      rw [blank_sealRegister holds, if_neg unsealed]
      rfl
  | sealed secret =>
      rw [holds.2, if_pos rfl]
      change HostProtocolMessage.challengeResult
        (platform.hmac.mac (loop.uicr.secret.flatMap toLeBytes) (toBeBytes nonce)) = _
      rw [holds.1]
      rfl
  | wiped =>
      have unsealed : uicrSealedWiped ≠ uicrSealedSecret := by decide
      rw [holds.2, if_neg unsealed]
      rfl

/-- So does the application. -/
theorem hmacChallengeResponse_eq (hmac : HmacSha256) {uicr : Uicr} {lifecycle : Lifecycle}
    (holds : lifecycle.Holds uicr) (nonce : UInt64) :
    Firmware.hmacChallengeResponse hmac uicr nonce =
      .challengeResult (lifecycle.result hmac nonce) := by
  unfold Firmware.hmacChallengeResponse
  rw [HmacSha256.newFromSlice_eq]
  cases lifecycle with
  | blank =>
      have unsealed : Uicr.erased ≠ uicrSealedSecret := by decide
      rw [blank_sealRegister holds, if_pos unsealed]
      rfl
  | sealed secret =>
      rw [holds.2, if_neg (not_not.mpr rfl)]
      change HostProtocolMessage.challengeResult
        (hmac.mac (uicr.secret.flatMap toLeBytes) (toBeBytes nonce)) = _
      rw [holds.1]
      rfl
  | wiped =>
      have unsealed : uicrSealedWiped ≠ uicrSealedSecret := by decide
      rw [holds.2, if_pos unsealed]
      rfl

/-- **Provisioning.** Along every run of a device with blank registers, at most
one secret is answered with `sealed`; every step leaves the registers alone,
seals a proper secret on blank registers, or wipes a sealed one by booting
verified developer firmware; and at every point the cached seal is the register
and both programs answer challenges as the lifecycle says. -/
theorem provisioning (platform : Device.Platform) (flash : Flash) {uicr : Uicr}
    (blank : ∀ index ≤ uicrSealIndex, uicr index = Uicr.erased) {events : List Device.Event}
    (nor : ∀ event ∈ events, WritesNor event) :
    ((machine platform).trace (.start flash uicr) events).countP answersSealed ≤ 1 ∧
      (∀ transition ∈ (machine platform).trace (.start flash uicr) events,
        transition.target.uicr = transition.source.uicr ∨
          (∃ secret, Seals transition secret) ∨ Wipes platform transition) ∧
      ∀ before after, events = before ++ after → ∀ device lifecycle,
        device = (machine platform).run (.start flash uicr) before →
        lifecycle = lifecycleOf ((machine platform).trace (.start flash uicr) before) →
        lifecycle.Holds device.uicr ∧
          (∀ loop, device = .bootloader loop → loop.cachedSeal = loop.uicr.sealRegister ∧
            ∀ nonce, challengeRequest platform.boot loop nonce =
              .challengeResult (lifecycle.result platform.firmware.hmac nonce)) ∧
          ∀ nonce, Firmware.hmacChallengeResponse platform.firmware.hmac device.uicr nonce =
            .challengeResult (lifecycle.result platform.firmware.hmac nonce) := by
  have start : At (.start flash uicr) .blank := ⟨blank, rfl⟩
  have paid : ∀ device event, (∃ lifecycle, At device lifecycle) → WritesNor event →
      (∃ lifecycle, At ((machine platform).step device event).1 lifecycle) ∧
        (answersSealed ((machine platform).fire device event)).toNat +
          vacancies ((machine platform).step device event).1 ≤ vacancies device := by
    intro device event ⟨lifecycle, here⟩ writes
    obtain ⟨next, effect, there⟩ := advances_step platform here writes
    exact ⟨⟨next, there⟩, effect.paid⟩
  refine ⟨?_, ?_, ?_⟩
  · have bound := (machine platform).countP_add_le paid ⟨.blank, start⟩ nor
    have one : vacancies (.start flash uicr) ≤ 1 := by
      unfold vacancies
      split
      · exact Nat.le_refl 1
      · exact Nat.zero_le 1
    exact Nat.le_trans (Nat.le_trans (Nat.le_add_right _ _) bound) one
  · intro transition member
    obtain ⟨before, event, after, rfl, rfl⟩ := (machine platform).mem_trace_iff.mp member
    have here := refines_lifecycle platform start
      (fun event member => nor event (List.mem_append_left _ member))
    obtain ⟨next, effect, -⟩ := advances_step platform here
      (nor event (List.mem_append_right _ (List.mem_cons_self ..)))
    exact effect.registers
  · rintro before after rfl device lifecycle rfl rfl
    have here := refines_lifecycle platform start
      (fun event member => nor event (List.mem_append_left _ member))
    refine ⟨here.1, ?_, hmacChallengeResponse_eq platform.firmware.hmac here.1⟩
    intro loop reached
    have atLoop := here
    rw [reached] at atLoop
    exact ⟨atLoop.2, challengeRequest_eq platform.boot atLoop.1 atLoop.2⟩

private def attempts : List Device.Event :=
  [challengeSetEvent ⟨nvmc, .nor⟩ ⟨none, false⟩ (Vector.replicate 8 1), .reset,
    challengeSetEvent ⟨nvmc, .nor⟩ ⟨none, false⟩ (Vector.replicate 8 2)]

/-- Two secrets arrive, with a reset between them. -/
theorem provisioning_attempts :
    ((machine .bare).trace (.start (fun _ => erasedByte) (fun _ => Uicr.erased))
        attempts).countP answersSealed ≤ 1 ∧
      (lifecycleOf ((machine .bare).trace (.start (fun _ => erasedByte) (fun _ => Uicr.erased))
        attempts)).Holds
          ((machine .bare).run (.start (fun _ => erasedByte) (fun _ => Uicr.erased))
            attempts).uicr := by
  have nor : ∀ event ∈ attempts, WritesNor event := by
    intro event member hw radio request sent
    simp only [attempts, List.mem_cons, List.not_mem_nil, or_false] at member
    rcases member with rfl | rfl | rfl
    · cases sent
      rfl
    · cases sent
    · cases sent
      rfl
  have provisioned := provisioning .bare (fun _ => erasedByte) (fun _ _ => rfl) nor
  exact ⟨provisioned.1, (provisioned.2.2 attempts [] rfl _ _ rfl rfl).1⟩

end PrimeBle.Secret
