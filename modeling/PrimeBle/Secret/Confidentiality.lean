import PrimeBle.Secret.DeveloperBoot
import PrimeBle.Secret.Provisioning

/-! # The secret leaves the device only in codes

Two devices whose sealed secrets differ, and nothing else, behave alike in
whatever the host does: all it can learn of the secret is the codes of the
nonces it asks for (`Secret.secret_only_in_codes`). Once a developer boot has
wiped the words, nothing of the difference is left.
-/

namespace PrimeBle.Secret

open Boot Device HostProtocol

/-- Sealed registers that hold one key and the other, and are the same outside of
the words of the secret. -/
structure Keyed (leftKey rightKey : List UInt8) (left right : Uicr) : Prop where
  outside : ∀ index, uicrSecretSize / 4 ≤ index → left index = right index
  sealing : left.sealRegister = uicrSealedSecret
  leftWords : left.secretAsSlice = leftKey
  rightWords : right.secretAsSlice = rightKey

/-- The devices are the same, or the same apart from the words of a sealed
secret. -/
inductive Alike (leftKey rightKey : List UInt8) : Device → Device → Prop
  | same (device : Device) : Alike leftKey rightKey device device
  | bootloader (loop : Loop) {left right : Uicr} (keyed : Keyed leftKey rightKey left right)
      (cached : loop.cachedSeal = uicrSealedSecret) :
      Alike leftKey rightKey (.bootloader { loop with uicr := left })
        (.bootloader { loop with uicr := right })
  | application (flash : Flash) (app : Firmware.State) {left right : Uicr}
      (keyed : Keyed leftKey rightKey left right) :
      Alike leftKey rightKey (.application flash left app) (.application flash right app)

/-- The host asks for the code of a nonce. -/
def Asks (nonce : UInt64) (event : Device.Event) : Prop :=
  ∃ hw radio, event = .request hw radio (some (.challengeRequest nonce))

/-- The two keys give the same codes of the nonces an event asks for. -/
def CodesAgree (platform : Device.Platform) (leftKey rightKey : List UInt8)
    (event : Device.Event) : Prop :=
  ∀ nonce, Asks nonce event →
    platform.firmware.hmac.mac leftKey (toBeBytes nonce) =
      platform.firmware.hmac.mac rightKey (toBeBytes nonce)

variable {leftKey rightKey : List UInt8} {left right : Uicr}

theorem Keyed.sealRegister_eq (keyed : Keyed leftKey rightKey left right) :
    right.sealRegister = left.sealRegister :=
  (keyed.outside uicrSealIndex (by decide)).symm

/-- A wipe leaves no difference. -/
theorem Keyed.wiped_eq (keyed : Keyed leftKey rightKey left right) :
    wiped .nor left = wiped .nor right := by
  have words : left.program .nor 0 (Vector.replicate 8 0).toList =
      right.program .nor 0 (Vector.replicate 8 (0 : UInt32)).toList := by
    have eight : (Vector.replicate 8 (0 : UInt32)).toList.length = 8 := rfl
    funext index
    by_cases below : index < 8
    · rw [Memory.program_inside .nor (Nat.zero_le index) (by omega),
        Memory.program_inside .nor (Nat.zero_le index) (by omega)]
      simp only [Vector.getElem_toList, Vector.getElem_replicate, CellWrite.nor_apply,
        UInt32.and_zero]
    · rw [Memory.program_outside .nor (Or.inr (by omega)),
        Memory.program_outside .nor (Or.inr (by omega))]
      exact keyed.outside index (by unfold uicrSecretSize; omega)
  unfold wiped
  rw [writeSecret_eq, writeSecret_eq,
    if_pos ((secret_program_iff .nor left _).mpr (takes_zeros left)),
    if_pos ((secret_program_iff .nor right _).mpr (takes_zeros right)), words]

/-- After a reset the devices are alike again. -/
theorem Keyed.start (keyed : Keyed leftKey rightKey left right) (flash : Flash) :
    Alike leftKey rightKey (Device.start flash left) (Device.start flash right) := by
  have alike := Alike.bootloader (Loop.start flash left) keyed keyed.sealing
  unfold Device.start Loop.start
  rw [keyed.sealRegister_eq]
  exact alike

section Bootloader

variable (platform : Device.Platform) (hw : Peripherals) (loop : Loop) (uicr : Uicr)

/-- Erasing does not look at the registers. -/
theorem eraseFirmware_uicr (driver : FlashDriver) :
    eraseFirmware driver { loop with uicr } =
      ({ (eraseFirmware driver loop).1 with uicr }, (eraseFirmware driver loop).2) := by
  have unaligned : baseAppAddr / flashPage * flashPage ≠ baseAppAddr := by decide
  simp only [eraseFirmware, unaligned, ↓reduceIte]
  split
  · rfl
  · split
    · rfl
    · split
      · rfl
      · rfl

/-- Nor does writing a block. -/
theorem writeFirmwareBlock_uicr (driver : FlashDriver) (idx : UInt32) (data : List UInt8) :
    writeFirmwareBlock driver { loop with uicr } idx data =
      ({ (writeFirmwareBlock driver loop idx data).1 with uicr },
        (writeFirmwareBlock driver loop idx data).2) := by
  unfold writeFirmwareBlock Loop.cursor
  simp only
  split
  · split
    · rfl
    · rfl
  · rfl

/-- Booting looks at the cache alone. -/
theorem bootFirmware_step (write : CellWrite UInt32) (trust : TrustLevel) :
    (∃ hash, ∀ uicr, bootFirmware platform.boot write { loop with uicr } trust =
        .jumpToApp
          { loop with
            uicr :=
              if loop.cachedSeal = uicrSealedSecret ∧ trust = .developer then wiped write uicr
              else uicr }
          (.bootloader (.ackVerifyFirmware true hash))) ∨
      ∃ response, ∀ uicr, bootFirmware platform.boot write { loop with uicr } trust =
        .next { loop with uicr } response := by
  unfold bootFirmware
  simp only
  split
  · next hash valid => exact Or.inl ⟨hash, fun uicr => rfl⟩
  · next hash => exact Or.inr ⟨_, fun uicr => rfl⟩
  · exact Or.inr ⟨_, fun uicr => rfl⟩

/-- A challenge is answered under the words in the registers. -/
theorem challengeRequest_sealed (cached : loop.cachedSeal = uicrSealedSecret) (nonce : UInt64) :
    challengeRequest platform.boot { loop with uicr } nonce =
      .challengeResult (platform.firmware.hmac.mac uicr.secretAsSlice (toBeBytes nonce)) := by
  simp only [challengeRequest, cached, ↓reduceIte, HmacSha256.newFromSlice_eq]
  rfl

end Bootloader

section Steps

variable (platform : Device.Platform)

/-- What a step leads to, for every pair of alike devices. -/
abbrev StepsAlike (leftKey rightKey : List UInt8) (left right : Device) (event : Device.Event) :
    Prop :=
  Alike leftKey rightKey (step platform left event).1 (step platform right event).1 ∧
    (step platform left event).2 = (step platform right event).2

variable {platform} {loop : Loop} (keyed : Keyed leftKey rightKey left right)
  (cached : loop.cachedSeal = uicrSealedSecret)
include keyed cached

omit cached in
/-- A loop that goes on alike stays alike. -/
theorem stepsAlike_of_next {hw : Peripherals} {radio : Firmware.RadioReadings} {request : Request}
    (next : Loop) (response : Option HostProtocolMessage)
    (sealed : next.cachedSeal = uicrSealedSecret)
    (outcome : ∀ uicr, dispatch platform.boot hw { loop with uicr } request =
      .next { next with uicr } response) :
    StepsAlike platform leftKey rightKey (.bootloader { loop with uicr := left })
      (.bootloader { loop with uicr := right }) (.request hw radio request) := by
  have stepped : ∀ uicr, step platform (.bootloader { loop with uicr })
      (.request hw radio request) = (.bootloader { next with uicr }, response) :=
    fun uicr => congrArg ofOutcome (outcome uicr)
  unfold StepsAlike
  rw [stepped, stepped]
  exact ⟨.bootloader next keyed sealed, rfl⟩

/-- A boot starts alike applications, or wipes the words of both. -/
theorem boot_step_alike {hw : Peripherals} (radio : Firmware.RadioReadings)
    (nor : hw.customer = .nor) (trust : TrustLevel) :
    StepsAlike platform leftKey rightKey (.bootloader { loop with uicr := left })
      (.bootloader { loop with uicr := right }) (bootEvent hw radio trust) := by
  rcases bootFirmware_step platform loop hw.customer trust with
    ⟨hash, boots⟩ | ⟨response, stays⟩
  · have stepped : ∀ uicr, step platform (.bootloader { loop with uicr })
        (bootEvent hw radio trust) =
        (.application loop.flash
          (if loop.cachedSeal = uicrSealedSecret ∧ trust = .developer then
            wiped hw.customer uicr else uicr) .start,
          some (.bootloader (.ackVerifyFirmware true hash))) :=
      fun uicr => congrArg ofOutcome (boots uicr)
    unfold StepsAlike
    rw [stepped, stepped, nor]
    by_cases wipes : loop.cachedSeal = uicrSealedSecret ∧ trust = .developer
    · rw [if_pos wipes, if_pos wipes, keyed.wiped_eq]
      exact ⟨.same _, rfl⟩
    · rw [if_neg wipes, if_neg wipes]
      exact ⟨.application loop.flash .start keyed, rfl⟩
  · exact stepsAlike_of_next keyed loop response cached stays

/-- The bootloader shows nothing of the words but codes. -/
theorem bootloader_step_alike {hw : Peripherals} (radio : Firmware.RadioReadings)
    (nor : hw.customer = .nor) (request : Request)
    (agree : CodesAgree platform leftKey rightKey (.request hw radio request)) :
    StepsAlike platform leftKey rightKey (.bootloader { loop with uicr := left })
      (.bootloader { loop with uicr := right }) (.request hw radio request) := by
  rcases request with _ | msg
  · exact stepsAlike_of_next keyed loop _ cached fun uicr => rfl
  · cases msg with
    | reset => exact ⟨keyed.start loop.flash, rfl⟩
    | challengeRequest nonce =>
        have same := agree nonce ⟨hw, radio, rfl⟩
        refine ⟨.bootloader loop keyed cached, ?_⟩
        change some (challengeRequest platform.boot { loop with uicr := left } nonce) =
          some (challengeRequest platform.boot { loop with uicr := right } nonce)
        rw [challengeRequest_sealed platform loop left cached,
          challengeRequest_sealed platform loop right cached, keyed.leftWords, keyed.rightWords,
          same]
    | bootloader msg =>
        cases msg with
        | eraseFirmware =>
            apply stepsAlike_of_next keyed (eraseFirmware hw.flash loop).1
              (some (.bootloader (eraseFirmware hw.flash loop).2))
              ((eraseFirmware_frame loop hw.flash).2.1.trans cached)
            intro uicr
            change reply (eraseFirmware hw.flash { loop with uicr }) = _
            rw [eraseFirmware_uicr]
            rfl
        | writeFirmwareBlock idx data =>
            apply stepsAlike_of_next keyed (writeFirmwareBlock hw.flash loop idx data).1
              (some (.bootloader (writeFirmwareBlock hw.flash loop idx data).2))
              ((writeFirmwareBlock_frame loop hw.flash idx data).2.trans cached)
            intro uicr
            change reply (writeFirmwareBlock hw.flash { loop with uicr } idx data) = _
            rw [writeFirmwareBlock_uicr]
            rfl
        | challengeSet secret =>
            apply stepsAlike_of_next keyed loop
              (some (.bootloader (.ackChallengeSet .notAllowed))) cached
            intro uicr
            have known : ({ loop with uicr } : Loop).cachedSeal = uicrSealedSecret ∨
                ({ loop with uicr } : Loop).cachedSeal = uicrSealedWiped := Or.inl cached
            have refused := challengeSet_notAllowed known hw.customer secret
            change reply ((challengeSet hw.customer { loop with uicr } secret).1,
              .ackChallengeSet (challengeSet hw.customer { loop with uicr } secret).2) = _
            rw [refused]
            rfl
        | bootFirmware trust => exact boot_step_alike keyed cached radio nor trust
        | firmwareVersion =>
            exact stepsAlike_of_next keyed loop
              (some (.bootloader (firmwareVersion platform.boot loop))) cached fun uicr => rfl
        | bootloaderVersion =>
            exact stepsAlike_of_next keyed loop
              (some (.bootloader (.ackBootloaderVersion "3.0.3"))) cached fun uicr => rfl
        | _ => exact stepsAlike_of_next keyed loop none cached fun uicr => rfl
    | getState =>
        exact stepsAlike_of_next keyed loop (some (.ackState .firmwareUpgrade)) cached
          fun uicr => rfl
    | _ =>
        exact stepsAlike_of_next keyed loop (some (.inappropriateMessage .firmwareUpgrade)) cached
          fun uicr => rfl

omit cached in
/-- Nor does the application. -/
theorem application_step_alike (flash : Flash) (app : Firmware.State) (event : Device.Event)
    (agree : CodesAgree platform leftKey rightKey event) :
    StepsAlike platform leftKey rightKey (.application flash left app)
      (.application flash right app) event := by
  have served : ∀ inner : Firmware.Event,
      Firmware.step platform.firmware left app inner =
        Firmware.step platform.firmware right app inner →
      Alike leftKey rightKey
          (ofApplication flash left (Firmware.step platform.firmware left app inner)).1
          (ofApplication flash right (Firmware.step platform.firmware right app inner)).1 ∧
        (ofApplication flash left (Firmware.step platform.firmware left app inner)).2 =
          (ofApplication flash right (Firmware.step platform.firmware right app inner)).2 := by
    intro inner same
    rw [same]
    unfold ofApplication
    split
    · exact ⟨keyed.start flash, rfl⟩
    · exact ⟨.application flash _ keyed, rfl⟩
  cases event with
  | reset => exact ⟨keyed.start flash, rfl⟩
  | background event => exact served (.background event) rfl
  | request hw radio request =>
      apply served (.request radio request)
      by_cases asks : ∃ nonce, request = some (.challengeRequest nonce)
      · obtain ⟨nonce, rfl⟩ := asks
        have codes := agree nonce ⟨hw, radio, rfl⟩
        have answers : Firmware.hmacChallengeResponse platform.firmware.hmac left nonce =
            Firmware.hmacChallengeResponse platform.firmware.hmac right nonce := by
          simp only [Firmware.hmacChallengeResponse, keyed.sealRegister_eq,
            HmacSha256.newFromSlice_eq, keyed.leftWords, keyed.rightWords, codes]
        simp only [Firmware.step, Firmware.commsTask_challengeRequest, answers]
      · rcases request with _ | msg
        · rfl
        · cases msg with
          | challengeRequest nonce => exact absurd ⟨nonce, rfl⟩ asks
          | _ => rfl

end Steps

/-- **One step.** Alike devices stay alike and answer alike. -/
theorem alike_step (platform : Device.Platform) {left right : Device} {event : Device.Event}
    (alike : Alike leftKey rightKey left right)
    (valid : WritesNor event ∧ CodesAgree platform leftKey rightKey event) :
    StepsAlike platform leftKey rightKey left right event := by
  obtain ⟨nor, agree⟩ := valid
  cases alike with
  | same device => exact ⟨.same _, rfl⟩
  | application flash app keyed => exact application_step_alike keyed flash app event agree
  | bootloader loop keyed cached =>
      cases event with
      | background event => exact ⟨.bootloader loop keyed cached, rfl⟩
      | reset => exact ⟨keyed.start loop.flash, rfl⟩
      | request hw radio request =>
          exact bootloader_step_alike keyed cached radio (nor hw radio request rfl) request agree

/-- **All the host learns of a sealed secret is the codes it asks for.** Take two
devices with the same flash and the same registers apart from the words of the
sealed secret, and any run whose challenges the two keys answer alike. Every
answer of the run is the same on both, the same program runs afterwards, and a
difference is left only in words that are still sealed. -/
theorem secret_only_in_codes (platform : Device.Platform) (flash : Flash) {left right : Uicr}
    (outside : ∀ index, uicrSecretSize / 4 ≤ index → left index = right index)
    (sealing : left.sealRegister = uicrSealedSecret) {events : List Device.Event}
    (nor : ∀ event ∈ events, WritesNor event)
    (codes : ∀ event ∈ events,
      CodesAgree platform left.secretAsSlice right.secretAsSlice event) :
    ((machine platform).trace (.start flash left) events).map Machine.Transition.output =
        ((machine platform).trace (.start flash right) events).map Machine.Transition.output ∧
      Alike left.secretAsSlice right.secretAsSlice
        ((machine platform).run (.start flash left) events)
        ((machine platform).run (.start flash right) events) := by
  have keyed : Keyed left.secretAsSlice right.secretAsSlice left right :=
    ⟨outside, sealing, rfl, rfl⟩
  have agree : ∀ first second event,
      Alike left.secretAsSlice right.secretAsSlice first second →
      (WritesNor event ∧
        CodesAgree platform left.secretAsSlice right.secretAsSlice event) →
      Alike left.secretAsSlice right.secretAsSlice ((machine platform).step first event).1
          ((machine platform).step second event).1 ∧
        ((machine platform).step first event).2 = ((machine platform).step second event).2 :=
    fun _ _ _ alike valid => alike_step platform alike valid
  obtain ⟨final, outputs⟩ := Machine.runs_agree agree (keyed.start flash)
    fun event member => ⟨nor event member, codes event member⟩
  exact ⟨outputs, final⟩

private def sealedWith (word : UInt32) : Uicr := fun index =>
  if index < 8 then word else if index = uicrSealIndex then uicrSealedSecret else Uicr.erased

private def updateAndBoot : List Device.Event :=
  let hw : Peripherals := ⟨nvmc, .nor⟩
  let radio : Firmware.RadioReadings := ⟨none, false⟩
  [.erase hw radio, .block hw radio 0 [1, 2, 3, 4], .reset,
    .request hw radio (some (.bootloader (.bootFirmware .developer))), .background .poll, .reset,
    .request hw radio (some (.bootloader .firmwareVersion))]

/-- An update, a boot that wipes the secret, and resets tell no two secrets apart,
whatever the code. -/
theorem secret_only_in_codes_update :
    ((machine developerSigned).trace (.start (fun _ => 0) (sealedWith 1)) updateAndBoot).map
        Machine.Transition.output =
      ((machine developerSigned).trace (.start (fun _ => 0) (sealedWith 2)) updateAndBoot).map
        Machine.Transition.output := by
  apply (secret_only_in_codes developerSigned (fun _ => 0) ?_ rfl ?_ ?_).1
  · intro index outside
    have above : ¬ index < 8 := by
      unfold uicrSecretSize at outside
      omega
    simp only [sealedWith, above, ↓reduceIte]
  · intro event member hw radio request same
    simp only [updateAndBoot, List.mem_cons, List.not_mem_nil, or_false] at member
    rcases member with rfl | rfl | rfl | rfl | rfl | rfl | rfl
    all_goals
      cases same
      try rfl
  · rintro event member nonce ⟨hw, radio, rfl⟩
    simp [updateAndBoot] at member

end PrimeBle.Secret
