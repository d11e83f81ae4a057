import PrimeBle.Secret.DeveloperBoot
import PrimeBle.Secret.PowerLoss

/-! # The order of the writes survives torn words

However often power is lost inside `write_secret`, and whatever torn value the
word being written is left with: a register that reads as wiped means that the
words are, a register that reads as sealed means that the words have no bit the
sealed secret lacks, and a device that only ever saw one secret, and did not wipe
any of it, can still be sealed with it (`Secret.crashSafe`).
-/

namespace PrimeBle.Secret

open Boot Device HostProtocol

/-- The call that turns the register into the seal of a secret. -/
structure Completes (platform : Device.Platform) (transition : PowerTransition)
    (secret : Vector UInt32 8) : Prop where
  called : ∃ loop request, transition.source = .bootloader loop ∧
    transition.event.request = some request ∧
    secretWrite platform loop request = some (secret, uicrSealedSecret)
  before : transition.source.uicr.sealRegister ≠ uicrSealedSecret
  after : transition.target.uicr.sealRegister = uicrSealedSecret

/-- A call that wipes the secret begins. -/
def BeginsWipe (platform : Device.Platform) (device : Device) (event : PowerEvent) : Prop :=
  ∃ loop request secret, device = .bootloader loop ∧ event.request = some request ∧
    secretWrite platform loop request = some (secret, uicrSealedWiped)

/-- A wipe clears something, even if it is cut short. -/
def ClearsWords (platform : Device.Platform) (transition : PowerTransition) : Prop :=
  BeginsWipe platform transition.source transition.event ∧
    transition.target.uicr ≠ transition.source.uicr

/-- Every secret sent is this one. -/
def OnlySends (secret : Vector UInt32 8) (event : PowerEvent) : Prop :=
  ∀ other, event.request = some (some (.bootloader (.challengeSet other))) → other = secret

/-- After a secret was sealed: the words have no other bits, or they are wiped. -/
def Holding (secret : Vector UInt32 8) (uicr : Uicr) : Prop :=
  (uicr.sealRegister = uicrSealedSecret ∧
    ∀ index (below : index < 8), BitsOf (uicr index) secret[index]) ∨
  (uicr.sealRegister ≠ uicrSealedSecret ∧ Spent uicr)

/-- The registers have all the bits of the secret and its seal, and no other once
sealed. -/
structure Ready (secret : Vector UInt32 8) (uicr : Uicr) : Prop where
  unspent : Unspent uicr
  words : ∀ index (below : index < 8), BitsOf secret[index] (uicr index)
  sealed : uicr.sealRegister = uicrSealedSecret → uicr.secret = secret.toList

section Calls

variable {uicr next : Uicr} {secret other : Vector UInt32 8} {sealWord : UInt32}

theorem Holding.writing (holding : Holding secret uicr) (call : Call uicr other sealWord)
    (writing : Writing uicr other sealWord next) : Holding secret next := by
  rcases holding with ⟨sealed, words⟩ | ⟨unsealed, spent⟩
  · cases call with
    | sealing other unsealed => exact absurd sealed unsealed
    | wiping =>
        rcases spent_of_wiping sealed writing with same | spent
        · exact Or.inl ⟨same, fun index below =>
            (writing.loses index below).trans (words index below)⟩
        · by_cases same : next.sealRegister = uicrSealedSecret
          · refine Or.inl ⟨same, fun index below => ?_⟩
            rw [spent.words index below]
            exact UInt32.zero_and
          · exact Or.inr ⟨same, spent⟩
  · cases call with
    | sealing other _ _ proper =>
        obtain ⟨next, same⟩ := spent.writing proper writing
        exact Or.inr ⟨same ▸ unsealed, next⟩
    | wiping sealed => exact absurd sealed unsealed

/-- The seal is completed only once all words read back. -/
theorem Writing.read_of_sealed (writing : Writing uicr secret sealWord next)
    (before : uicr.sealRegister ≠ uicrSealedSecret)
    (after : next.sealRegister = uicrSealedSecret) : next.secret = secret.toList := by
  rcases writing.seals with same | ⟨read, -⟩
  · exact absurd (same.symm.trans after) before
  · exact read

/-- Attempts to set the one secret leave it possible. -/
theorem Ready.writing (ready : Ready secret uicr)
    (unsealed : uicr.sealRegister ≠ uicrSealedSecret)
    (writing : Writing uicr secret uicrSealedSecret next) : Ready secret next where
  unspent := ready.unspent.sealing writing
  words index below :=
    ((ready.words index below).and (BitsOf.refl _)).trans (writing.keeps index below)
  sealed same := writing.read_of_sealed unsealed same

end Calls

/-- Only a secret that is sent is sealed. -/
theorem request_of_secretWrite (platform : Device.Platform) {loop : Loop} {request : Request}
    {secret : Vector UInt32 8}
    (call : secretWrite platform loop request = some (secret, uicrSealedSecret)) :
    request = some (.bootloader (.challengeSet secret)) := by
  unfold secretWrite at call
  split at call
  · split at call
    · cases call
    · split at call
      · cases call
      · cases call
        rfl
  · split at call
    · split at call
      · have words : uicrSealedWiped = uicrSealedSecret := congrArg Prod.snd (Option.some.inj call)
        exact absurd words (by decide)
      · cases call
    · cases call
  · cases call

section Runs

variable (platform : Device.Platform) {device : Device} {event : PowerEvent}
  {secret : Vector UInt32 8}

theorem holding_step (consistent : Consistent device) (holding : Holding secret device.uicr)
    (tears : TearsWords platform device event) :
    Holding secret ((poweredMachine platform).step device event).1.uicr := by
  rcases step_writing platform tears with
    same | ⟨loop, request, other, sealWord, rfl, -, called, writing⟩
  · rw [same]
    exact holding
  · exact holding.writing (call_of_secretWrite platform consistent.cached called) writing

/-- A call that completes the seal has stored its secret. -/
theorem secret_of_completes (tears : TearsWords platform device event)
    (completes : Completes platform ((poweredMachine platform).fire device event) secret) :
    ((poweredMachine platform).step device event).1.uicr.secret = secret.toList := by
  obtain ⟨⟨loop, request, source, sent, called⟩, before, after⟩ := completes
  rw [Machine.fire_source] at source before
  rw [Machine.fire_event] at sent
  rw [Machine.fire_target] at after
  rcases step_writing platform tears with
    same | ⟨_, _, _, _, here, heard, call, writing⟩
  · rw [same] at after
    exact absurd after before
  · subst source
    cases here
    cases sent.symm.trans heard
    cases called.symm.trans call
    exact writing.read_of_sealed before after

theorem holding_of_completes (tears : TearsWords platform device event)
    (completes : Completes platform ((poweredMachine platform).fire device event) secret) :
    Holding secret ((poweredMachine platform).step device event).1.uicr := by
  refine Or.inl ⟨completes.after, fun index below => ?_⟩
  rw [(secret_eq_iff _ secret).mp (secret_of_completes platform tears completes) index below]
  exact BitsOf.refl _

theorem ready_step (consistent : Consistent device) (ready : Ready secret device.uicr)
    (tears : TearsWords platform device event) (only : OnlySends secret event)
    (noWipe : ¬ ClearsWords platform ((poweredMachine platform).fire device event)) :
    Ready secret ((poweredMachine platform).step device event).1.uicr := by
  rcases step_writing platform tears with
    same | ⟨loop, request, other, sealWord, rfl, sent, called, writing⟩
  · rw [same]
    exact ready
  · cases call_of_secretWrite platform consistent.cached called with
    | sealing other unsealed =>
        have given := request_of_secretWrite platform called
        obtain rfl := only other (sent.trans (congrArg some given))
        exact ready.writing unsealed writing
    | wiping =>
        -- The wipe was cut short before it cleared anything.
        have same := not_not.mp fun other =>
          noWipe ⟨⟨loop, request, _, rfl, sent, called⟩, other⟩
        rw [Machine.fire_target, Machine.fire_source] at same
        rw [same]
        exact ready

private theorem eq_replicate_of_all {word : UInt32}
    (same : secret.all (· == word) = true) : secret = Vector.replicate 8 word := by
  refine Vector.ext fun index below => ?_
  rw [Vector.getElem_replicate]
  exact eq_of_beq (Vector.all_eq_true.mp same index below)

/-- A complete attempt to set the one secret succeeds, unless an earlier one did. -/
theorem Ready.answer {loop : Loop} (ready : Ready secret loop.uicr) (cached : Cached loop)
    (proper : secret ≠ Vector.replicate 8 0 ∧ secret ≠ Vector.replicate 8 Uicr.erased) :
    (challengeSet .nor loop secret).2 = .sealed ∨
      loop.uicr.sealRegister = uicrSealedSecret ∧ loop.uicr.secret = secret.toList := by
  by_cases sealed : loop.uicr.sealRegister = uicrSealedSecret
  · exact Or.inr ⟨sealed, ready.sealed sealed⟩
  · have unwiped : loop.uicr.sealRegister ≠ uicrSealedWiped := by
      intro wiped
      have unspent := ready.unspent
      unfold Unspent at unspent
      rw [wiped] at unspent
      exact absurd unspent (by decide)
    have unknown : ¬ (loop.cachedSeal = uicrSealedSecret ∨ loop.cachedSeal = uicrSealedWiped) := by
      rw [cached]
      exact not_or.mpr ⟨sealed, unwiped⟩
    have usable : ¬ (secret.all (· == 0) ∨ secret.all (· == 0xFFFFFFFF)) :=
      not_or.mpr ⟨fun zeros => proper.1 (eq_replicate_of_all zeros),
        fun ones => proper.2 (eq_replicate_of_all ones)⟩
    have takes : Takes .nor loop.uicr secret := by
      intro index below
      rw [CellWrite.nor_apply, UInt32.and_comm]
      exact ready.words index below
    exact Or.inl (congrArg Prod.snd (challengeSet_of_takes unknown usable takes))

end Runs

/-- The step that turns the register into a seal completes the seal of a secret. -/
theorem completes_of_turn (platform : Device.Platform) {device : Device} {event : PowerEvent}
    (consistent : Consistent device) (tears : TearsWords platform device event)
    (before : device.uicr.sealRegister ≠ uicrSealedSecret)
    (after : ((poweredMachine platform).step device event).1.uicr.sealRegister =
      uicrSealedSecret) :
    ∃ secret, Completes platform ((poweredMachine platform).fire device event) secret := by
  rcases step_writing platform tears with
    same | ⟨loop, request, secret, sealWord, rfl, sent, called, writing⟩
  · rw [same] at after
    exact absurd after before
  · cases call_of_secretWrite platform consistent.cached called with
    | sealing => exact ⟨secret, ⟨loop, request, rfl, sent, called⟩, before, after⟩
    | wiping sealed => exact absurd sealed before

/-- The register reads as sealed. -/
def IsSealed (device : Device) : Prop := device.uicr.sealRegister = uicrSealedSecret

/-- Erased registers do not. -/
theorem unsealed_start (flash : Flash) {uicr : Uicr}
    (blank : ∀ index ≤ uicrSealIndex, uicr index = Uicr.erased) :
    ¬ IsSealed (.start flash uicr) := by
  unfold IsSealed
  rw [show (Device.start flash uicr).uicr.sealRegister = Uicr.erased from blank_sealRegister blank]
  decide

/-- What is known of the device once a secret was sealed. -/
structure Kept (secret : Vector UInt32 8) (device : Device) : Prop where
  consistent : Consistent device
  holding : Holding secret device.uicr

/-- What is known of the device while only one secret is sent. -/
structure Usable (secret : Vector UInt32 8) (device : Device) : Prop where
  consistent : Consistent device
  ready : Ready secret device.uicr

/-- What a device with erased registers is ready for: any secret. -/
theorem ready_start (flash : Flash) {uicr : Uicr}
    (blank : ∀ index ≤ uicrSealIndex, uicr index = Uicr.erased) (secret : Vector UInt32 8) :
    Ready secret (Device.start flash uicr).uicr where
  unspent := by
    unfold Unspent
    rw [show (Device.start flash uicr).uicr.sealRegister = Uicr.erased from
      blank_sealRegister blank]
    decide
  words index below := by
    unfold BitsOf
    rw [show (Device.start flash uicr).uicr index = Uicr.erased from
      blank index (Nat.le_of_lt below), UInt32.and_comm, erased_and]
  sealed sealed := absurd sealed (unsealed_start flash blank)

section Sealed

variable (platform : Device.Platform) {device : Device} {events : List PowerEvent}
  (tears : ∀ transition ∈ (poweredMachine platform).trace device events,
    TearsWords platform transition.source transition.event)

include tears

/-- A sealed secret is kept. -/
theorem kept_run {secret : Vector UInt32 8} (start : Kept secret device) :
    Kept secret ((poweredMachine platform).run device events) := by
  have kept : ∀ next event, Kept secret next → TearsWords platform next event →
      Kept secret ((poweredMachine platform).step next event).1 := fun next event kept tears =>
    ⟨consistent_step platform kept.consistent tears,
      holding_step platform kept.consistent kept.holding tears⟩
  exact Machine.run_preserved kept start tears

variable (start : Consistent device)

include start

/-- Once a secret is sealed, its bits are all that is ever stored. -/
theorem kept_of_completes {transition : PowerTransition}
    (member : transition ∈ (poweredMachine platform).trace device events)
    {secret : Vector UInt32 8} (completes : Completes platform transition secret) :
    Kept secret ((poweredMachine platform).run device events) := by
  have consistent := Machine.source_preserved (fun _ _ => consistent_step platform) start tears _
    member
  have torn := tears _ member
  obtain ⟨before, event, after, rfl, rfl⟩ := (poweredMachine platform).mem_trace_iff.mp member
  rw [Machine.run_append, Machine.run_cons]
  refine kept_run platform (fun later taken => tears later ?_)
    ⟨consistent_step platform consistent torn, holding_of_completes platform torn completes⟩
  rw [Machine.trace_append, Machine.trace_cons]
  exact List.mem_append_right _ (List.mem_cons_of_mem _ taken)

/-- A register that comes to read as sealed was sealed by a call. -/
theorem exists_completes (unsealed : ¬ IsSealed device)
    (sealed : IsSealed ((poweredMachine platform).run device events)) :
    ∃ transition ∈ (poweredMachine platform).trace device events, ∃ secret,
      Completes platform transition secret := by
  obtain ⟨transition, member, before, after⟩ :=
    (poweredMachine platform).exists_turn unsealed sealed
  have consistent := Machine.source_preserved (fun _ _ => consistent_step platform) start tears _
    member
  have torn := tears _ member
  refine ⟨transition, member, ?_⟩
  obtain ⟨_, _, _, -, rfl⟩ := (poweredMachine platform).mem_trace_iff.mp member
  exact completes_of_turn platform consistent torn before after

end Sealed

/-- While only one secret is sent and nothing is wiped, the device stays usable. -/
theorem usable_run (platform : Device.Platform) {device : Device} {secret : Vector UInt32 8}
    (start : Usable secret device) {events : List PowerEvent}
    (tears : ∀ transition ∈ (poweredMachine platform).trace device events,
      TearsWords platform transition.source transition.event)
    (only : ∀ event ∈ events, OnlySends secret event)
    (noWipe : ∀ transition ∈ (poweredMachine platform).trace device events,
      ¬ ClearsWords platform transition) :
    Usable secret ((poweredMachine platform).run device events) := by
  have kept : ∀ next event, Usable secret next →
      (TearsWords platform next event ∧ OnlySends secret event ∧
        ¬ ClearsWords platform ((poweredMachine platform).fire next event)) →
      Usable secret ((poweredMachine platform).step next event).1 :=
    fun next event usable ⟨tears, only, noWipe⟩ =>
      ⟨consistent_step platform usable.consistent tears,
        ready_step platform usable.consistent usable.ready tears only noWipe⟩
  refine Machine.run_preserved kept start fun transition member =>
    ⟨tears transition member, only _ ((poweredMachine platform).event_mem_of_mem_trace member), ?_⟩
  have spared := noWipe transition member
  obtain ⟨before, event, after, -, rfl⟩ := (poweredMachine platform).mem_trace_iff.mp member
  exact spared

/-- **Crash safety.** Along every run from erased registers, with power lost at any
instant inside `write_secret` and any torn value: registers that read as wiped are
wiped; registers that read as sealed were sealed by a call, and have only bits of
the secret it was passed; and while only one proper secret was sent and no wipe, cut
short or not, has cleared anything, setting it completes unless it is already there. -/
theorem crashSafe (platform : Device.Platform) (flash : Flash) {uicr : Uicr}
    (blank : ∀ index ≤ uicrSealIndex, uicr index = Uicr.erased) {events : List PowerEvent}
    (tears : ∀ transition ∈ (poweredMachine platform).trace (.start flash uicr) events,
      TearsWords platform transition.source transition.event) (device : Device)
    (reached : device = (poweredMachine platform).run (.start flash uicr) events) :
    (device.uicr.sealRegister = uicrSealedWiped → ∀ index < 8, device.uicr index = 0) ∧
    (device.uicr.sealRegister = uicrSealedSecret →
      (∃ transition ∈ (poweredMachine platform).trace (.start flash uicr) events, ∃ secret,
        Completes platform transition secret) ∧
      ∀ transition ∈ (poweredMachine platform).trace (.start flash uicr) events, ∀ secret,
        Completes platform transition secret →
          ∀ index (below : index < 8), BitsOf (device.uicr index) secret[index]) ∧
    ∀ secret, secret ≠ Vector.replicate 8 0 ∧ secret ≠ Vector.replicate 8 Uicr.erased →
      (∀ event ∈ events, OnlySends secret event) →
      (∀ transition ∈ (poweredMachine platform).trace (.start flash uicr) events,
        ¬ ClearsWords platform transition) →
      ∀ loop hw radio, device = .bootloader loop → hw.customer = .nor →
        (step platform device (challengeSetEvent hw radio secret)).2 =
            some (.bootloader (.ackChallengeSet .sealed)) ∨
          device.uicr.sealRegister = uicrSealedSecret ∧ device.uicr.secret = secret.toList := by
  have start := consistent_start flash blank
  have consistent : Consistent device := by
    rw [reached]
    exact Machine.run_preserved (fun _ _ => consistent_step platform) start tears
  refine ⟨?_, fun sealed => ⟨?_, ?_⟩, ?_⟩
  · intro wiped
    rcases consistent.phase with unspent | spent
    · unfold Unspent at unspent
      rw [wiped] at unspent
      exact absurd unspent (by decide)
    · exact spent.words
  · have final : IsSealed ((poweredMachine platform).run (.start flash uicr) events) :=
      reached ▸ sealed
    exact exists_completes platform tears start (unsealed_start flash blank) final
  · intro transition member secret completes
    have kept := kept_of_completes platform tears start member completes
    rw [← reached] at kept
    rcases kept.holding with ⟨-, words⟩ | ⟨gone, -⟩
    · exact words
    · exact absurd sealed gone
  · intro secret proper only noWipe loop hw radio atLoop nor
    have usable := usable_run platform ⟨start, ready_start flash blank secret⟩ tears only noWipe
    rw [← reached, atLoop] at usable
    rw [atLoop, step_challengeSet, nor]
    rcases usable.ready.answer usable.consistent.cached proper with answer | already
    · rw [answer]
      exact Or.inl rfl
    · exact Or.inr already

/-- A proper secret. -/
def ones : Vector UInt32 8 := Vector.replicate 8 1

def sendOnes : Request := some (.bootloader (.challengeSet ones))

def blankFlash : Flash := fun _ => erasedByte

def blankUicr : Uicr := fun _ => Uicr.erased

private theorem ones_proper :
    ones ≠ Vector.replicate 8 0 ∧ ones ≠ Vector.replicate 8 Uicr.erased := by decide

/-- Power is lost in the fourth word of a secret, half of which is written. -/
def cutSecret : List PowerEvent := [.powerLoss sendOnes 3 0xFFFF0001]

private theorem cutSecret_call :
    secretWrite .bare (.start blankFlash blankUicr) sendOnes = some (ones, uicrSealedSecret) := by
  decide +kernel

private theorem cutSecret_tears :
    ∀ transition ∈ (poweredMachine .bare).trace (.start blankFlash blankUicr) cutSecret,
      TearsWords .bare transition.source transition.event := by
  intro transition member
  rw [List.mem_singleton.mp member]
  intro loop secret sealWord source call
  cases source
  cases cutSecret_call.symm.trans call
  have word : Torn Uicr.erased 1 0xFFFF0001 := ⟨by decide, by decide⟩
  exact ⟨fun _ => word, fun last => absurd last (by decide)⟩

/-- The secret is set at the second attempt. -/
theorem crashSafe_cutSecret :
    (step .bare ((poweredMachine .bare).run (.start blankFlash blankUicr) cutSecret)
        (challengeSetEvent ⟨nvmc, .nor⟩ ⟨none, false⟩ ones)).2 =
          some (.bootloader (.ackChallengeSet .sealed)) ∨
      ((poweredMachine .bare).run (.start blankFlash blankUicr) cutSecret).uicr.sealRegister =
          uicrSealedSecret ∧
        ((poweredMachine .bare).run (.start blankFlash blankUicr) cutSecret).uicr.secret =
          ones.toList := by
  have blank : ∀ index ≤ uicrSealIndex, blankUicr index = Uicr.erased := fun _ _ => rfl
  have only : ∀ event ∈ cutSecret, OnlySends ones event := by
    intro event member other sent
    rw [List.mem_singleton.mp member] at sent
    cases sent
    rfl
  have noWipe : ∀ transition ∈ (poweredMachine .bare).trace (.start blankFlash blankUicr) cutSecret,
      ¬ ClearsWords .bare transition := by
    intro transition member
    rw [List.mem_singleton.mp member]
    rintro ⟨⟨loop, request, secret, source, sent, call⟩, -⟩
    cases source
    cases sent
    have words : uicrSealedSecret = uicrSealedWiped :=
      congrArg Prod.snd (Option.some.inj (cutSecret_call.symm.trans call))
    exact absurd words (by decide)
  have reached : (poweredMachine .bare).run (.start blankFlash blankUicr) cutSecret =
      .bootloader (.start blankFlash
        (interrupted blankUicr ones uicrSealedSecret 3 0xFFFF0001)) := by
    change lostPower .bare (.bootloader (.start blankFlash blankUicr)) sendOnes 3 0xFFFF0001 = _
    simp only [lostPower, cutSecret_call]
    rfl
  have safe := crashSafe .bare blankFlash blank cutSecret_tears _ rfl
  exact safe.2.2 ones ones_proper only noWipe _ ⟨nvmc, .nor⟩ ⟨none, false⟩ reached rfl

/-- A secret is sealed, and power is lost in the second word of its wipe. -/
def cutWipe : List PowerEvent :=
  [.device (.request ⟨nvmc, .nor⟩ ⟨none, false⟩ sendOnes),
    .powerLoss (some (.bootloader (.bootFirmware .developer))) 1 1]

theorem cutWipe_word : ((poweredMachine developerSigned).step (.start blankFlash blankUicr)
    (.device (.request ⟨nvmc, .nor⟩ ⟨none, false⟩ sendOnes))).1.uicr 1 = 1 := by decide +kernel

/-- No firmware was booted, and yet the secret can be neither used nor set again. -/
theorem cutWipe_not_usable :
    (∀ transition ∈ (poweredMachine developerSigned).trace (.start blankFlash blankUicr) cutWipe,
      TearsWords developerSigned transition.source transition.event ∧
        transition.target.isApplication = false) ∧
    (∀ event ∈ cutWipe, OnlySends ones event) ∧
    ¬ ((step developerSigned
        ((poweredMachine developerSigned).run (.start blankFlash blankUicr) cutWipe)
        (challengeSetEvent ⟨nvmc, .nor⟩ ⟨none, false⟩ ones)).2 =
          some (.bootloader (.ackChallengeSet .sealed)) ∨
      ((poweredMachine developerSigned).run (.start blankFlash blankUicr)
          cutWipe).uicr.sealRegister = uicrSealedSecret ∧
        ((poweredMachine developerSigned).run (.start blankFlash blankUicr) cutWipe).uicr.secret =
          ones.toList) := by
  refine ⟨?_, ?_, by decide +kernel⟩
  · intro transition member
    simp only [cutWipe, Machine.trace_cons, Machine.trace_nil, List.mem_cons, List.not_mem_nil,
      or_false] at member
    rcases member with rfl | rfl
    · refine ⟨?_, by decide +kernel⟩
      intro hw radio request sent
      cases sent
      rfl
    · refine ⟨?_, by decide +kernel⟩
      intro loop secret sealWord source _
      have word := cutWipe_word
      have old := TornAt.old loop.uicr secret sealWord 1
      rw [Machine.fire_source] at source
      rw [source] at word
      change loop.uicr 1 = 1 at word
      rw [word] at old
      exact old
  · intro event member other sent
    simp only [cutWipe, List.mem_cons, List.not_mem_nil, or_false] at member
    rcases member with rfl | rfl
    · cases sent
      rfl
    · cases sent

end PrimeBle.Secret
