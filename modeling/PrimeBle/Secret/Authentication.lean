import PrimeBle.Secret.TornWrites

/-! # Whose key a challenge is answered with

Power may be lost between any two register writes. A wipe clears the words before
it touches the seal, so one that is cut short leaves a device that reads as sealed
with a damaged key, and both programs answer challenges under it. The key is that
of an accepted secret exactly when no challenge arrives after such a wipe while the
register still reads as sealed (`Secret.authentic_iff_noCutWipe`).
-/

namespace PrimeBle.Secret

open Boot Device HostProtocol

/-- Register writes are atomic: the one after the last complete write has not
begun when power is lost. -/
def WholeWords (device : Device) : PowerEvent → Prop
  | .device event => WritesNor event
  | .powerLoss _ done torn => torn = device.uicr done

/-- A challenge arrives. -/
abbrev challengeEvent (hw : Peripherals) (radio : Firmware.RadioReadings) (nonce : UInt64) :
    PowerEvent :=
  .device (.request hw radio (some (.challengeRequest nonce)))

/-- The words under which the running program answers a challenge, if it has a key. -/
def answerKey : Device → Option (List UInt32)
  | .bootloader loop => if loop.cachedSeal = uicrSealedSecret then some loop.uicr.secret else none
  | .application _ uicr _ => if uicr.sealRegister = uicrSealedSecret then some uicr.secret else none

/-- The answer under a key, or without one. -/
def keyedResult (hmac : HmacSha256) (nonce : UInt64) : Option (List UInt32) → Vector UInt8 32
  | some words => hmac.mac (words.flatMap toLeBytes) (toBeBytes nonce)
  | none => Vector.replicate 32 0xFF

/-- The running program takes requests. -/
def Listens : Device → Prop
  | .bootloader _ => True
  | .application _ _ app => app.power = .running

/-- An answer gives nothing away, or is keyed with exactly the words of a secret
that was accepted. -/
def Authentic (platform : Device.Platform) (past : List PowerTransition) (device : Device)
    (nonce : UInt64) (output : Option HostProtocolMessage) : Prop :=
  ∀ result, output = some (.challengeResult result) →
    (answerKey device = none ∧ result = Vector.replicate 32 0xFF) ∨
    ∃ secret, (∃ transition ∈ past, Completes platform transition secret) ∧
      answerKey device = some secret.toList ∧
      result = platform.firmware.hmac.mac (secret.toList.flatMap toLeBytes) (toBeBytes nonce)

/-- Power is lost in a wipe that has cleared bits. -/
def CutsWipe (platform : Device.Platform) (device : Device) (event : PowerEvent) : Prop :=
  ∃ loop request done torn secret, device = .bootloader loop ∧
    event = .powerLoss request done torn ∧
    secretWrite platform loop request = some (secret, uicrSealedWiped) ∧
    ∃ index < done, index < 8 ∧ loop.uicr index ≠ 0

/-- Atomic writes are a case of torn ones. -/
theorem WholeWords.tears (platform : Device.Platform) {device : Device} {event : PowerEvent}
    (whole : WholeWords device event) : TearsWords platform device event := by
  cases event with
  | device event => exact whole
  | powerLoss request done torn =>
      rintro loop secret sealWord rfl call
      rw [show torn = loop.uicr done from whole]
      exact TornAt.old loop.uicr secret sealWord done

/-- What the bootloader answers. -/
theorem challengeRequest_keyed (platform : Device.Platform) (loop : Loop) (nonce : UInt64) :
    challengeRequest platform.boot loop nonce =
      .challengeResult
        (keyedResult platform.firmware.hmac nonce (answerKey (.bootloader loop))) := by
  simp only [challengeRequest, HmacSha256.newFromSlice_eq, answerKey]
  split <;> rfl

/-- What the application answers. -/
theorem hmacChallengeResponse_keyed (hmac : HmacSha256) (flash : Flash) (uicr : Uicr)
    (app : Firmware.State) (nonce : UInt64) :
    Firmware.hmacChallengeResponse hmac uicr nonce =
      .challengeResult (keyedResult hmac nonce (answerKey (.application flash uicr app))) := by
  simp only [Firmware.hmacChallengeResponse, HmacSha256.newFromSlice_eq, answerKey]
  by_cases sealed : uicr.sealRegister = uicrSealedSecret
  · rw [if_neg (not_not.mpr sealed), if_pos sealed]
    rfl
  · rw [if_pos sealed, if_neg sealed]
    rfl

/-- **How a challenge is answered**: by whichever program runs, under the words in
the registers if it takes them for a secret. -/
theorem step_challenge (platform : Device.Platform) {device : Device} (listens : Listens device)
    (hw : Peripherals) (radio : Firmware.RadioReadings) (nonce : UInt64) :
    ((poweredMachine platform).step device (challengeEvent hw radio nonce)).2 =
      some (.challengeResult
        (keyedResult platform.firmware.hmac nonce (answerKey device))) := by
  cases device with
  | bootloader loop => exact congrArg some (challengeRequest_keyed platform loop nonce)
  | application flash uicr app =>
      have running : app.power = .running := listens
      have answered : Firmware.step platform.firmware uicr app
          (.request radio (some (.challengeRequest nonce))) =
        (app, ⟨some (Firmware.hmacChallengeResponse platform.firmware.hmac uicr nonce), none⟩) :=
        if_pos running
      change (ofApplication flash uicr (Firmware.step platform.firmware uicr app
        (.request radio (some (.challengeRequest nonce))))).2 = _
      rw [answered, hmacChallengeResponse_keyed _ flash uicr app]
      simp only [ofApplication, running]

/-- A program that does not listen does not answer. -/
theorem step_challenge_deaf (platform : Device.Platform) {device : Device}
    (deaf : ¬ Listens device) (hw : Peripherals) (radio : Firmware.RadioReadings)
    (nonce : UInt64) :
    ((poweredMachine platform).step device (challengeEvent hw radio nonce)).2 = none := by
  cases device with
  | bootloader loop => exact absurd trivial deaf
  | application flash uicr app =>
      have stopped : Firmware.step platform.firmware uicr app
          (.request radio (some (.challengeRequest nonce))) = (app, ⟨none, none⟩) :=
        if_neg deaf
      change (ofApplication flash uicr (Firmware.step platform.firmware uicr app
        (.request radio (some (.challengeRequest nonce))))).2 = _
      rw [stopped]
      simp only [ofApplication]
      split <;> rfl

/-- The programs have a key exactly when the register reads as sealed. -/
theorem answerKey_of_sealed {device : Device} (consistent : Consistent device)
    (sealed : IsSealed device) : answerKey device = some device.uicr.secret := by
  cases device with
  | bootloader loop => exact if_pos (consistent.cached.trans sealed)
  | application flash uicr app => exact if_pos sealed

theorem answerKey_of_unsealed {device : Device} (consistent : Consistent device)
    (unsealed : ¬ IsSealed device) : answerKey device = none := by
  cases device with
  | bootloader loop => exact if_neg fun same => unsealed (consistent.cached.symm.trans same)
  | application flash uicr app => exact if_neg unsealed

/-- A wipe that has cleared no bit changes no word. -/
theorem interrupted_untouched {uicr : Uicr} {done : ℕ}
    (clear : ∀ index < done, index < 8 → uicr index = 0) {index : ℕ} (below : index < 8)
    (sealWord : UInt32) :
    interrupted uicr (Vector.replicate 8 0) sealWord done (uicr done) index = uicr index := by
  by_cases here : index = done
  · subst here
    exact interrupted_self uicr _ sealWord (uicr index) below
  · rw [interrupted_word uicr _ sealWord (uicr done) below here]
    split
    · next written => rw [clear index written below, UInt32.zero_and]
    · rfl

/-- The words before the one being written are wiped. -/
theorem interrupted_cleared {uicr : Uicr} {done index : ℕ} (below : index < 8)
    (written : index < done) (sealWord torn : UInt32) :
    interrupted uicr (Vector.replicate 8 0) sealWord done torn index = 0 := by
  rw [interrupted_word uicr _ sealWord torn below (Nat.ne_of_lt written), if_pos written,
    Vector.getElem_replicate, UInt32.and_zero]

/-- A wipe that runs to its end says so in the register. -/
theorem sealRegister_wiped {uicr : Uicr} (sealed : uicr.sealRegister = uicrSealedSecret)
    (torn : UInt32) :
    (interrupted uicr (Vector.replicate 8 0) uicrSealedWiped 9 torn).sealRegister =
      uicrSealedWiped := by
  rw [← writeSecret_interrupted]
  exact (holds_wiped sealed).2

/-- What is known of the device from the time its secret is sealed, as long as no
wipe is cut short: the words are those of the secret. -/
structure Genuine (secret : Vector UInt32 8) (device : Device) : Prop where
  kept : Kept secret device
  words : IsSealed device → device.uicr.secret = secret.toList

/-- No other secret is sealed after the first. -/
theorem Kept.not_sealed (platform : Device.Platform) {device : Device} {event : PowerEvent}
    {secret : Vector UInt32 8} (kept : Kept secret device)
    (tears : TearsWords platform device event) (before : ¬ IsSealed device) :
    ¬ IsSealed ((poweredMachine platform).step device event).1 := by
  intro after
  have spent : Spent device.uicr := by
    rcases kept.holding with ⟨sealed, -⟩ | ⟨-, spent⟩
    · exact absurd sealed before
    · exact spent
  rcases step_writing platform tears with
    same | ⟨loop, request, other, sealWord, rfl, -, called, writing⟩
  · unfold IsSealed at after
    rw [same] at after
    exact before after
  · cases call_of_secretWrite platform kept.consistent.cached called with
    | sealing other _ _ proper => exact before ((spent.writing proper writing).2.symm.trans after)
    | wiping sealed => exact before sealed

theorem genuine_step (platform : Device.Platform) {device : Device} {event : PowerEvent}
    {secret : Vector UInt32 8} (genuine : Genuine secret device) (whole : WholeWords device event)
    (noCut : ¬ CutsWipe platform device event) :
    Genuine secret ((poweredMachine platform).step device event).1 where
  kept := ⟨consistent_step platform genuine.kept.consistent (whole.tears platform),
    holding_step platform genuine.kept.consistent genuine.kept.holding (whole.tears platform)⟩
  words sealed := by
    have nor : ∀ other, event = .device other → WritesNor other := by
      rintro other rfl
      exact whole
    rcases step_interrupted platform device nor with
      same | ⟨loop, request, other, sealWord, done, torn, rfl, sent, called, left, ends⟩
    · unfold IsSealed at sealed
      rw [same] at sealed ⊢
      exact genuine.words sealed
    · cases call_of_secretWrite platform genuine.kept.consistent.cached called with
      | sealing other unsealed =>
          exact absurd sealed
            (genuine.kept.not_sealed platform (whole.tears platform) unsealed)
      | wiping before =>
          rcases ends with rfl | rfl
          · have clear : ∀ index < done, index < 8 → loop.uicr index = 0 := by
              intro index written below
              by_contra set
              exact noCut
                ⟨loop, request, done, torn, _, rfl, rfl, called, index, written, below, set⟩
            have words : Uicr.secret (interrupted loop.uicr (Vector.replicate 8 0)
                uicrSealedWiped done torn) = loop.uicr.secret := by
              rw [show torn = loop.uicr done from whole]
              apply Memory.slice_congr
              intro index _ below
              exact interrupted_untouched clear (by omega) uicrSealedWiped
            rw [left, words]
            exact genuine.words before
          · unfold IsSealed at sealed
            rw [left, sealRegister_wiped before] at sealed
            exact absurd sealed (by decide)

/-- The word reads as wiped. -/
def Cleared (index : ℕ) (device : Device) : Prop := device.uicr index = 0

section Runs

variable (platform : Device.Platform) {device : Device} {events : List PowerEvent}

/-- Atomic writes along a run are a case of torn ones. -/
theorem tears_of_whole
    (whole : ∀ transition ∈ (poweredMachine platform).trace device events,
      WholeWords transition.source transition.event) :
    ∀ transition ∈ (poweredMachine platform).trace device events,
      TearsWords platform transition.source transition.event :=
  fun transition member => (whole transition member).tears platform

/-- A word that was cleared stays so. -/
theorem cleared_run {index : ℕ} (below : index < 8) (cleared : Cleared index device)
    (tears : ∀ transition ∈ (poweredMachine platform).trace device events,
      TearsWords platform transition.source transition.event) :
    Cleared index ((poweredMachine platform).run device events) := by
  have kept : ∀ next event, Cleared index next → TearsWords platform next event →
      Cleared index ((poweredMachine platform).step next event).1 := by
    intro next event cleared tears
    unfold Cleared at cleared ⊢
    rcases step_writing platform tears with
      same | ⟨loop, request, secret, sealWord, rfl, -, -, writing⟩
    · rw [same]
      exact cleared
    · have bits := writing.loses index below
      rw [show loop.uicr index = 0 from cleared] at bits
      exact bits.symm.trans UInt32.and_zero
  exact Machine.run_preserved kept cleared tears

/-- While no wipe is cut short, a sealed device holds an accepted secret. -/
theorem genuine_of_noCut (start : Consistent device) (unsealed : ¬ IsSealed device)
    (whole : ∀ transition ∈ (poweredMachine platform).trace device events,
      WholeWords transition.source transition.event)
    (noCut : ∀ transition ∈ (poweredMachine platform).trace device events,
      ¬ CutsWipe platform transition.source transition.event)
    (sealed : IsSealed ((poweredMachine platform).run device events)) :
    ∃ secret, (∃ transition ∈ (poweredMachine platform).trace device events,
        Completes platform transition secret) ∧
      ((poweredMachine platform).run device events).uicr.secret = secret.toList := by
  have tears := tears_of_whole platform whole
  obtain ⟨transition, member, secret, completes⟩ :=
    exists_completes platform tears start unsealed sealed
  refine ⟨secret, ⟨transition, member, completes⟩, ?_⟩
  have consistent := Machine.source_preserved (fun _ _ => consistent_step platform) start tears _
    member
  have torn := tears _ member
  obtain ⟨before, event, after, rfl, rfl⟩ := (poweredMachine platform).mem_trace_iff.mp member
  have kept : ∀ next event, Genuine secret next →
      (WholeWords next event ∧ ¬ CutsWipe platform next event) →
      Genuine secret ((poweredMachine platform).step next event).1 :=
    fun next event genuine allowed => genuine_step platform genuine allowed.1 allowed.2
  have genuine : Genuine secret ((poweredMachine platform).step
      ((poweredMachine platform).run device before) event).1 :=
    ⟨⟨consistent_step platform consistent torn, holding_of_completes platform torn completes⟩,
      fun _ => secret_of_completes platform torn completes⟩
  rw [Machine.run_append, Machine.run_cons] at sealed ⊢
  refine (Machine.run_preserved kept genuine fun later taken => ?_).words sealed
  have listed : later ∈ (poweredMachine platform).trace device (before ++ event :: after) := by
    rw [Machine.trace_append, Machine.trace_cons]
    exact List.mem_append_right _ (List.mem_cons_of_mem _ taken)
  exact ⟨whole later listed, noCut later listed⟩

/-- Once a secret is sealed, no other is accepted. -/
theorem Kept.no_other {secret : Vector UInt32 8} (kept : Kept secret device)
    (tears : ∀ transition ∈ (poweredMachine platform).trace device events,
      TearsWords platform transition.source transition.event) {transition : PowerTransition}
    (member : transition ∈ (poweredMachine platform).trace device events)
    (other : Vector UInt32 8) : ¬ Completes platform transition other := by
  intro completes
  have torn := tears _ member
  obtain ⟨before, event, after, rfl, rfl⟩ := (poweredMachine platform).mem_trace_iff.mp member
  have here := kept_run platform
    (fun earlier taken => tears earlier ((poweredMachine platform).mem_trace_append_left _ taken))
    kept
  exact here.not_sealed platform torn completes.before completes.after

/-- A wipe that is cut short finds the device sealed and clears some word of it. -/
theorem CutsWipe.clears {event : PowerEvent} (cuts : CutsWipe platform device event)
    (consistent : Consistent device) :
    IsSealed device ∧ ∃ index < 8, device.uicr index ≠ 0 ∧
      Cleared index ((poweredMachine platform).step device event).1 := by
  obtain ⟨loop, request, done, torn, secret, rfl, rfl, called, index, written, below, set⟩ := cuts
  have call := call_of_secretWrite platform consistent.cached called
  generalize words : uicrSealedWiped = sealWord at call
  cases call with
  | sealing => exact absurd words (by decide)
  | wiping sealed =>
      refine ⟨sealed, index, below, set, ?_⟩
      unfold Cleared
      simp only [poweredMachine_powerLoss, lostPower, called]
      exact interrupted_cleared below written uicrSealedWiped torn

/-- After a wipe that is cut short, the words are those of no accepted secret. -/
theorem not_genuine_of_cut (start : Consistent device) (unsealed : ¬ IsSealed device)
    (tears : ∀ transition ∈ (poweredMachine platform).trace device events,
      TearsWords platform transition.source transition.event)
    {cut : PowerTransition} (member : cut ∈ (poweredMachine platform).trace device events)
    (cuts : CutsWipe platform cut.source cut.event) {accepted : PowerTransition}
    (taken : accepted ∈ (poweredMachine platform).trace device events)
    {secret : Vector UInt32 8} (completes : Completes platform accepted secret) :
    ((poweredMachine platform).run device events).uicr.secret ≠ secret.toList := by
  have torn := tears _ member
  have consistent := Machine.source_preserved (fun _ _ => consistent_step platform) start tears _
    member
  obtain ⟨before, event, after, rfl, rfl⟩ := (poweredMachine platform).mem_trace_iff.mp member
  have early : ∀ transition ∈ (poweredMachine platform).trace device before,
      TearsWords platform transition.source transition.event := fun transition taken =>
    tears transition ((poweredMachine platform).mem_trace_append_left _ taken)
  have late : ∀ transition ∈ (poweredMachine platform).trace
      ((poweredMachine platform).step ((poweredMachine platform).run device before) event).1 after,
      TearsWords platform transition.source transition.event := by
    intro transition taken
    apply tears transition
    rw [Machine.trace_append, Machine.trace_cons]
    exact List.mem_append_right _ (List.mem_cons_of_mem _ taken)
  obtain ⟨sealed, index, below, set, cleared⟩ := cuts.clears platform consistent
  rw [Machine.trace_append, Machine.trace_cons] at taken
  intro words
  rcases List.mem_append.mp taken with earlier | here
  · -- The secret was sealed before: it still had the bit that the wipe cleared.
    have kept := kept_of_completes platform early start earlier completes
    have final : Cleared index
        ((poweredMachine platform).run device (before ++ event :: after)) := by
      rw [Machine.run_append, Machine.run_cons]
      exact cleared_run platform below cleared late
    rcases kept.holding with ⟨-, bits⟩ | ⟨gone, -⟩
    · have word := (secret_eq_iff _ secret).mp words index below
      have bit := bits index below
      rw [← word, show ((poweredMachine platform).run device
        (before ++ event :: after)).uicr index = 0 from final] at bit
      exact set (bit.symm.trans UInt32.and_zero)
    · exact gone sealed
  · rcases List.mem_cons.mp here with rfl | later
    · exact completes.before sealed
    · -- Nothing is sealed any more after the wipe.
      obtain ⟨first, sealing, original, completed⟩ :=
        exists_completes platform early start unsealed sealed
      have kept := kept_of_completes platform early start sealing completed
      have next : Kept original ((poweredMachine platform).step
          ((poweredMachine platform).run device before) event).1 :=
        ⟨consistent_step platform consistent torn,
          holding_step platform consistent kept.holding torn⟩
      exact next.no_other platform late later secret completes

end Runs

/-- **No authentication under a damaged key** exactly when no challenge arrives after
a wipe that was cut short, on a device that still reads as sealed: along every run
from erased registers, with power lost after any register write inside
`write_secret`. -/
theorem authentic_iff_noCutWipe (platform : Device.Platform) (flash : Flash) {uicr : Uicr}
    (blank : ∀ index ≤ uicrSealIndex, uicr index = Uicr.erased) {events : List PowerEvent}
    (whole : ∀ transition ∈ (poweredMachine platform).trace (.start flash uicr) events,
      WholeWords transition.source transition.event) :
    (∀ before hw radio nonce after, events = before ++ challengeEvent hw radio nonce :: after →
      Authentic platform ((poweredMachine platform).trace (.start flash uicr) before)
        ((poweredMachine platform).run (.start flash uicr) before) nonce
        ((poweredMachine platform).step ((poweredMachine platform).run (.start flash uicr) before)
          (challengeEvent hw radio nonce)).2) ↔
      ∀ before hw radio nonce after, events = before ++ challengeEvent hw radio nonce :: after →
        Listens ((poweredMachine platform).run (.start flash uicr) before) →
        IsSealed ((poweredMachine platform).run (.start flash uicr) before) →
        ∀ earlier ∈ (poweredMachine platform).trace (.start flash uicr) before,
          ¬ CutsWipe platform earlier.source earlier.event := by
  have start := consistent_start flash blank
  have unsealed : ¬ IsSealed (.start flash uicr) := unsealed_start flash blank
  have tears := tears_of_whole platform whole
  have consistent : ∀ before rest, events = before ++ rest →
      Consistent ((poweredMachine platform).run (.start flash uicr) before) := by
    rintro before rest rfl
    exact Machine.run_preserved (fun _ _ => consistent_step platform) start fun earlier member =>
      tears earlier ((poweredMachine platform).mem_trace_append_left _ member)
  constructor
  · intro authentic before hw radio nonce after split listens sealed earlier member cuts
    have answered := step_challenge platform listens hw radio nonce
    have key := answerKey_of_sealed (consistent before _ split) sealed
    rcases authentic before hw radio nonce after split _ answered with
      ⟨keyless, -⟩ | ⟨secret, ⟨accepted, taken, completes⟩, keyed, -⟩
    · cases key.symm.trans keyless
    · subst split
      refine not_genuine_of_cut platform start unsealed (fun other listed => tears other
        ((poweredMachine platform).mem_trace_append_left _ listed)) member cuts taken completes ?_
      exact Option.some.inj (key.symm.trans keyed)
  · intro noCut before hw radio nonce after split result answered
    by_cases listens : Listens ((poweredMachine platform).run (.start flash uicr) before)
    · have expected := step_challenge platform listens hw radio nonce
      have same : keyedResult platform.firmware.hmac nonce
          (answerKey ((poweredMachine platform).run (.start flash uicr) before)) = result :=
        HostProtocolMessage.challengeResult.inj (Option.some.inj (expected.symm.trans answered))
      by_cases sealed : IsSealed ((poweredMachine platform).run (.start flash uicr) before)
      · have allowed := noCut before hw radio nonce after split listens sealed
        have key := answerKey_of_sealed (consistent before _ split) sealed
        subst split
        obtain ⟨secret, accepted, words⟩ := genuine_of_noCut platform start unsealed
          (fun other listed => whole other
            ((poweredMachine platform).mem_trace_append_left _ listed)) allowed sealed
        rw [words] at key
        rw [key] at same
        exact Or.inr ⟨secret, accepted, key, same.symm⟩
      · have key := answerKey_of_unsealed (consistent before _ split) sealed
        rw [key] at same
        exact Or.inl ⟨key, same.symm⟩
    · have silent := step_challenge_deaf platform listens hw radio nonce
      cases silent.symm.trans answered

/-- Power is lost before the fourth word of a secret, which is then sent again. -/
def cutSealing : List PowerEvent :=
  [.powerLoss sendOnes 3 Uicr.erased, .device (.request ⟨nvmc, .nor⟩ ⟨none, false⟩ sendOnes)]

private def challenged : List PowerEvent :=
  cutSealing ++ [challengeEvent ⟨nvmc, .nor⟩ ⟨none, false⟩ 7]

private theorem challenged_whole : ∀ transition ∈
    (poweredMachine .bare).trace (.start blankFlash blankUicr) challenged,
    WholeWords transition.source transition.event := by
  intro transition member
  simp only [challenged, cutSealing, List.cons_append, List.nil_append, Machine.trace_cons,
    Machine.trace_nil, List.mem_cons, List.not_mem_nil, or_false] at member
  rcases member with rfl | rfl | rfl
  · rfl
  · intro hw radio request sent
    cases sent
    rfl
  · intro hw radio request sent
    cases sent
    rfl

/-- A call that seals does not wipe. -/
private theorem secretWrite_sendOnes {platform : Device.Platform} {loop : Loop}
    {secret : Vector UInt32 8} :
    secretWrite platform loop sendOnes ≠ some (secret, uicrSealedWiped) := by
  intro called
  unfold secretWrite sendOnes at called
  simp only at called
  split at called
  · cases called
  · split at called
    · cases called
    · have same : uicrSealedSecret = uicrSealedWiped := congrArg Prod.snd (Option.some.inj called)
      exact absurd same (by decide)

/-- A secret is sealed at the second attempt, and a challenge arrives. -/
theorem authentic_iff_noCutWipe_challenged :
    Authentic .bare ((poweredMachine .bare).trace (.start blankFlash blankUicr) cutSealing)
      ((poweredMachine .bare).run (.start blankFlash blankUicr) cutSealing) 7
      ((poweredMachine .bare).step
        ((poweredMachine .bare).run (.start blankFlash blankUicr) cutSealing)
        (challengeEvent ⟨nvmc, .nor⟩ ⟨none, false⟩ 7)).2 := by
  have blank : ∀ index ≤ uicrSealIndex, blankUicr index = Uicr.erased := fun _ _ => rfl
  refine (authentic_iff_noCutWipe .bare blankFlash blank challenged_whole).mpr ?_ cutSealing _ _ 7
    [] rfl
  intro before hw radio nonce after split _ _ earlier member
  have listed : earlier.event ∈ challenged := by
    rw [split]
    exact List.mem_append_left _ ((poweredMachine .bare).event_mem_of_mem_trace member)
  rintro ⟨_, _, _, _, _, _, lost, called, -⟩
  rw [lost] at listed
  simp only [challenged, cutSealing, List.cons_append, List.nil_append, List.mem_cons,
    PowerEvent.powerLoss.injEq, reduceCtorEq, List.not_mem_nil, or_false] at listed
  rw [listed.1] at called
  exact secretWrite_sendOnes called

/-- Power was lost in the second word of a wipe, and the next challenge is answered
under what is left of the secret. -/
theorem cutWipe_not_authentic :
    (∀ transition ∈ (poweredMachine developerSigned).trace (.start blankFlash blankUicr) cutWipe,
      WholeWords transition.source transition.event) ∧
    ¬ Authentic developerSigned
      ((poweredMachine developerSigned).trace (.start blankFlash blankUicr) cutWipe)
      ((poweredMachine developerSigned).run (.start blankFlash blankUicr) cutWipe) 7
      ((poweredMachine developerSigned).step
        ((poweredMachine developerSigned).run (.start blankFlash blankUicr) cutWipe)
        (challengeEvent ⟨nvmc, .nor⟩ ⟨none, false⟩ 7)).2 := by
  constructor
  · intro transition member
    simp only [cutWipe, Machine.trace_cons, Machine.trace_nil, List.mem_cons, List.not_mem_nil,
      or_false] at member
    rcases member with rfl | rfl
    · intro hw radio request sent
      cases sent
      rfl
    · exact cutWipe_word.symm
  · intro authentic
    have key : answerKey ((poweredMachine developerSigned).run (.start blankFlash blankUicr)
        cutWipe) = some [0, 1, 1, 1, 1, 1, 1, 1] := by decide +kernel
    have answered : ((poweredMachine developerSigned).step
        ((poweredMachine developerSigned).run (.start blankFlash blankUicr) cutWipe)
        (challengeEvent ⟨nvmc, .nor⟩ ⟨none, false⟩ 7)).2 =
          some (.challengeResult (Vector.replicate 32 0)) := by decide +kernel
    rcases authentic _ answered with ⟨keyless, -⟩ | ⟨secret, ⟨accepted, taken, completes⟩, keyed, -⟩
    · cases key.symm.trans keyless
    · obtain ⟨loop, request, -, sent, called⟩ := completes.called
      obtain rfl := request_of_secretWrite developerSigned called
      simp only [cutWipe, Machine.trace_cons, Machine.trace_nil, List.mem_cons, List.not_mem_nil,
        or_false] at taken
      rcases taken with rfl | rfl
      · have same : some (.bootloader (.challengeSet ones)) =
          some (HostProtocolMessage.bootloader (.challengeSet secret)) := Option.some.inj sent
        cases same
        exact absurd (key.symm.trans keyed) (by decide)
      · have same : some (.bootloader (.bootFirmware .developer)) =
          some (HostProtocolMessage.bootloader (.challengeSet secret)) := Option.some.inj sent
        cases same

end PrimeBle.Secret
