import PrimeBle.Secret.Provisioning

/-! # Losing power while the secret is written

Power may be lost at any instant inside `write_secret`. The words before that
point are written, the one being written is left torn, and the bootloader starts
anew. Whatever the point, what becomes of the registers is one relation between
them and the arguments of the call (`Secret.Writing`), and a step of the device
either leaves the registers alone or is such a call, complete or not
(`Secret.step_writing`).
-/

namespace PrimeBle.Secret

open Boot Device HostProtocol

/-- The call of `write_secret` that serving a request comes to: the words and the
seal. -/
def secretWrite (platform : Device.Platform) (loop : Loop) :
    Request → Option (Vector UInt32 8 × UInt32)
  | some (.bootloader (.challengeSet secret)) =>
      if loop.cachedSeal = uicrSealedSecret ∨ loop.cachedSeal = uicrSealedWiped then none
      else if secret.all (· == 0) ∨ secret.all (· == 0xFFFFFFFF) then none
      else some (secret, uicrSealedSecret)
  | some (.bootloader (.bootFirmware trust)) =>
      match verifyFwImage platform.cosign loop.flash trust with
      | some (.valid, .valid, _) =>
          if loop.cachedSeal = uicrSealedSecret ∧ trust = .developer then
            some (Vector.replicate 8 0, uicrSealedWiped)
          else none
      | _ => none
  | _ => none

/-- The registers a call leaves. -/
def afterWrite (write : CellWrite UInt32) (uicr : Uicr) :
    Option (Vector UInt32 8 × UInt32) → Uicr
  | some (secret, sealWord) => (writeSecret write uicr secret sealWord).2
  | none => uicr

/-- The registers when power is lost in `write_secret`: the first `done` words are
written and the register after them is torn. The seal comes after the words, and
only if they read back. -/
def interrupted (uicr : Uicr) (secret : Vector UInt32 8) (sealWord : UInt32) (done : ℕ)
    (torn : UInt32) : Uicr :=
  let written := uicr.program .nor 0 (secret.toList.take done)
  if done < 8 then Function.update written done torn
  else if Uicr.secret written ≠ secret.toList then written
  else if done = 8 then Function.update written uicrSealIndex torn
  else written.set .nor uicrSealIndex sealWord

/-- Requests that do not write flash or UICR make no such call. -/
theorem secretWrite_passive (platform : Device.Platform) (loop : Loop) {request : Request}
    (passive : Passive request) : secretWrite platform loop request = none := by
  obtain ⟨-, -, noSecret, noBoot, -⟩ := passive
  rcases request with _ | msg
  · rfl
  · cases msg with
    | bootloader msg =>
        cases msg with
        | challengeSet secret => exact absurd rfl (noSecret secret)
        | bootFirmware trust => exact absurd rfl (noBoot trust)
        | _ => rfl
    | _ => rfl

/-- **The registers change only through `write_secret`.** -/
theorem dispatch_uicr (platform : Device.Platform) (hw : Peripherals) (loop : Loop)
    (request : Request) :
    (ofOutcome (dispatch platform.boot hw loop request)).1.uicr =
      afterWrite hw.customer loop.uicr (secretWrite platform loop request) := by
  rcases dispatch_cases platform.boot hw loop request with
    ⟨rfl, outcome⟩ | ⟨idx, data, rfl, outcome⟩ | ⟨secret, rfl, outcome⟩ | ⟨trust, rfl, outcome⟩ |
      ⟨rfl, outcome⟩ | ⟨passive, response, outcome⟩
  · rw [outcome]
    exact (eraseFirmware_frame loop hw.flash).1
  · rw [outcome]
    exact (writeFirmwareBlock_frame loop hw.flash idx data).1
  · rw [outcome]
    change (challengeSet hw.customer loop secret).1.uicr = _
    simp only [challengeSet, secretWrite]
    split
    · rfl
    · split
      · rfl
      · simp only [afterWrite]
        split <;> simp only [*]
  · rw [outcome]
    have same : platform.boot.cosign = platform.cosign := rfl
    simp only [bootFirmware, secretWrite, same]
    rcases verifyFwImage platform.cosign loop.flash trust with _ | ⟨first, second, hash⟩
    · rfl
    · cases first with
      | invalid => rfl
      | valid =>
          cases second with
          | invalid => rfl
          | valid =>
              simp only [ofOutcome, uicr]
              split <;> rfl
  · rw [outcome]
    rfl
  · rw [outcome, secretWrite_passive platform loop passive]
    rfl

/-- What a call does to the registers, wherever it ends: words only lose bits, keep
those they should have, and the seal is touched only once the words read back. -/
structure Writing (uicr : Uicr) (secret : Vector UInt32 8) (sealWord : UInt32) (next : Uicr) :
    Prop where
  loses : ∀ index < 8, BitsOf (next index) (uicr index)
  keeps : ∀ index (below : index < 8), BitsOf (uicr index &&& secret[index]) (next index)
  seals : next.sealRegister = uicr.sealRegister ∨
    next.secret = secret.toList ∧ Torn uicr.sealRegister sealWord next.sealRegister

/-- The torn value is one that the interrupted register may hold. -/
structure TornAt (uicr : Uicr) (secret : Vector UInt32 8) (sealWord : UInt32) (done : ℕ)
    (torn : UInt32) : Prop where
  word : ∀ below : done < 8, Torn (uicr done) secret[done] torn
  sealing : done = 8 → Torn uicr.sealRegister sealWord torn

section Calls

variable (uicr : Uicr) (secret : Vector UInt32 8) (sealWord : UInt32)

/-- The register may be left as it was. -/
theorem TornAt.old (done : ℕ) : TornAt uicr secret sealWord done (uicr done) where
  word below := Torn.old (uicr done) secret[done]
  sealing last := last ▸ Torn.old uicr.sealRegister sealWord

/-- The words written before the power went are programmed, the others are not. -/
theorem program_take (done : ℕ) {index : ℕ} (below : index < 8) :
    uicr.program .nor 0 (secret.toList.take done) index =
      if index < done then uicr index &&& secret[index] else uicr index := by
  have length : (secret.toList.take done).length = min done 8 := by
    rw [List.length_take, Vector.length_toList]
  by_cases written : index < done
  · rw [if_pos written, Memory.program_inside .nor (Nat.zero_le _) (by omega)]
    simp only [CellWrite.nor_apply, Nat.sub_zero, List.getElem_take, Vector.getElem_toList]
  · rw [if_neg written, Memory.program_outside .nor (by omega)]

theorem writing_program (done : ℕ) :
    Writing uicr secret sealWord (uicr.program .nor 0 (secret.toList.take done)) where
  loses index below := by
    rw [program_take uicr secret done below]
    split
    · exact BitsOf.and_left ..
    · exact BitsOf.refl _
  keeps index below := by
    rw [program_take uicr secret done below]
    split
    · exact BitsOf.refl _
    · exact BitsOf.and_left ..
  seals := by
    apply Or.inl
    apply Memory.program_outside .nor
    rw [List.length_take, Vector.length_toList]
    exact Or.inr (by unfold uicrSealIndex; omega)

/-- The word being written is torn. -/
theorem writing_torn {done : ℕ} (below : done < 8) {torn : UInt32}
    (word : Torn (uicr done) secret[done] torn) :
    Writing uicr secret sealWord
      (Function.update (uicr.program .nor 0 (secret.toList.take done)) done torn) where
  loses index inside := by
    by_cases here : index = done
    · subst here
      rw [Function.update_self]
      exact word.upper
    · rw [Function.update_of_ne here]
      exact (writing_program uicr secret sealWord done).loses index inside
  keeps index inside := by
    by_cases here : index = done
    · subst here
      rw [Function.update_self]
      exact word.lower
    · rw [Function.update_of_ne here]
      exact (writing_program uicr secret sealWord done).keeps index inside
  seals := by
    have elsewhere : uicrSealIndex ≠ done := by
      unfold uicrSealIndex
      omega
    refine Or.inl (Eq.trans ?_ (sealRegister_program .nor uicr secret))
    unfold Uicr.sealRegister
    rw [Function.update_of_ne elsewhere, Memory.program_outside .nor ?_,
      Memory.program_outside .nor ?_]
    · rw [Vector.length_toList]
      exact Or.inr (Nat.le_refl _)
    · rw [List.length_take, Vector.length_toList]
      exact Or.inr (by unfold uicrSealIndex; omega)

/-- The words read back and the seal is torn, or written in full. -/
theorem writing_sealed {torn : UInt32} (sealing : Torn uicr.sealRegister sealWord torn)
    (read : Uicr.secret (uicr.program .nor 0 secret.toList) = secret.toList) :
    Writing uicr secret sealWord
      (Function.update (uicr.program .nor 0 secret.toList) uicrSealIndex torn) := by
  have whole : secret.toList.take 8 = secret.toList :=
    List.take_of_length_le (Nat.le_of_eq secret.length_toList)
  have words := writing_program uicr secret sealWord 8
  rw [whole] at words
  have other : ∀ index < 8, index ≠ uicrSealIndex := fun index below => Nat.ne_of_lt below
  constructor
  · intro index below
    rw [Function.update_of_ne (other index below)]
    exact words.loses index below
  · intro index below
    rw [Function.update_of_ne (other index below)]
    exact words.keeps index below
  · refine Or.inr ⟨?_, ?_⟩
    · refine Eq.trans ?_ read
      apply Memory.slice_congr
      intro index _ below
      rw [Function.update_of_ne (other index (by omega))]
    · unfold Uicr.sealRegister at sealing ⊢
      rw [Function.update_self]
      exact sealing

/-- A call that is cut short writes. -/
theorem writing_interrupted {done : ℕ} {torn : UInt32}
    (tears : TornAt uicr secret sealWord done torn) :
    Writing uicr secret sealWord (interrupted uicr secret sealWord done torn) := by
  simp only [interrupted]
  by_cases below : done < 8
  · rw [if_pos below]
    exact writing_torn uicr secret sealWord below (tears.word below)
  · have whole : secret.toList.take done = secret.toList :=
      List.take_of_length_le (by rw [secret.length_toList]; omega)
    rw [if_neg below, whole]
    by_cases read : Uicr.secret (uicr.program .nor 0 secret.toList) = secret.toList
    · rw [if_neg (not_not.mpr read)]
      by_cases last : done = 8
      · rw [if_pos last]
        exact writing_sealed uicr secret sealWord (tears.sealing last) read
      · rw [if_neg last]
        have sealing : Torn uicr.sealRegister sealWord
            (uicr.program .nor 0 secret.toList uicrSealIndex &&& sealWord) := by
          rw [show uicr.program .nor 0 secret.toList uicrSealIndex = uicr.sealRegister from
            sealRegister_program .nor uicr secret]
          exact Torn.written ..
        exact writing_sealed uicr secret sealWord sealing read
    · rw [if_pos read, ← whole]
      exact writing_program uicr secret sealWord done

/-- The words other than the one being written. -/
theorem interrupted_word {done : ℕ} (torn : UInt32) {index : ℕ} (below : index < 8)
    (other : index ≠ done) :
    interrupted uicr secret sealWord done torn index =
      if index < done then uicr index &&& secret[index] else uicr index := by
  have notSeal : index ≠ uicrSealIndex := Nat.ne_of_lt below
  rw [← program_take uicr secret done below]
  simp only [interrupted]
  split
  · rw [Function.update_of_ne other]
  · split
    · rfl
    · split
      · rw [Function.update_of_ne notSeal]
      · rw [Memory.set_of_ne .nor _ _ notSeal]

/-- The word being written. -/
theorem interrupted_self {done : ℕ} (torn : UInt32) (below : done < 8) :
    interrupted uicr secret sealWord done torn done = torn := by
  simp only [interrupted, below, ↓reduceIte]
  exact Function.update_self ..

/-- A call that runs to its end is one that is cut short after its last write. -/
theorem writeSecret_interrupted (torn : UInt32) :
    (writeSecret .nor uicr secret sealWord).2 = interrupted uicr secret sealWord 9 torn := by
  have whole : secret.toList.take 9 = secret.toList :=
    List.take_of_length_le (by rw [secret.length_toList]; omega)
  have reached : ¬ 9 < 8 := by decide
  have past : ¬ 9 = 8 := by decide
  rw [writeSecret_eq]
  simp only [interrupted, whole, reached, past, ↓reduceIte]
  split
  · simp only [*, ne_eq, not_true_eq_false, ↓reduceIte]
  · next stale => rfl

end Calls

/-- What happens to the device: something it is asked, or power lost while it
serves a request. -/
inductive PowerEvent where
  | device (event : Device.Event)
  /-- Power is lost once `done` words of the secret write are written, the next
  register being left with a torn value. -/
  | powerLoss (request : Request) (done : ℕ) (torn : UInt32)

/-- A secret is not written outside a call, so there a power loss is a reset. -/
def lostPower (platform : Device.Platform) (device : Device) (request : Request) (done : ℕ)
    (torn : UInt32) : Device :=
  match device with
  | .bootloader loop =>
      match secretWrite platform loop request with
      | some (secret, sealWord) =>
          Device.start loop.flash (interrupted loop.uicr secret sealWord done torn)
      | none => Device.start loop.flash loop.uicr
  | .application flash uicr _ => Device.start flash uicr

/-- The device on a supply that may fail. -/
def poweredMachine (platform : Device.Platform) :
    Machine Device PowerEvent (Option HostProtocolMessage) where
  step
    | device, .device event => Device.step platform device event
    | device, .powerLoss request done torn => (lostPower platform device request done torn, none)

@[simp] theorem poweredMachine_device (platform : Device.Platform) (device : Device)
    (event : Device.Event) :
    (poweredMachine platform).step device (.device event) = Device.step platform device event :=
  rfl

@[simp] theorem poweredMachine_powerLoss (platform : Device.Platform) (device : Device)
    (request : Request) (done : ℕ) (torn : UInt32) :
    (poweredMachine platform).step device (.powerLoss request done torn) =
      (lostPower platform device request done torn, none) := rfl

abbrev PowerTransition := Machine.Transition Device PowerEvent (Option HostProtocolMessage)

/-- Complete register writes clear bits; a torn value lies between the old one and
the one that would have been left. -/
def TearsWords (platform : Device.Platform) (device : Device) : PowerEvent → Prop
  | .device event => WritesNor event
  | .powerLoss request done torn =>
      ∀ loop secret sealWord, device = .bootloader loop →
        secretWrite platform loop request = some (secret, sealWord) →
        TornAt loop.uicr secret sealWord done torn

/-- The request that an event brings to the device. -/
def PowerEvent.request : PowerEvent → Option Request
  | .device (.request _ _ request) => some request
  | .device _ => none
  | .powerLoss request _ _ => some request

/-- **What a step does to the registers.** It leaves them alone, or it is a call of
`write_secret`: cut short by a power loss, or run to its end. -/
theorem step_interrupted (platform : Device.Platform) (device : Device) {event : PowerEvent}
    (nor : ∀ other, event = .device other → WritesNor other) :
    ((poweredMachine platform).step device event).1.uicr = device.uicr ∨
    ∃ loop request secret sealWord done torn, device = .bootloader loop ∧
      event.request = some request ∧
      secretWrite platform loop request = some (secret, sealWord) ∧
      ((poweredMachine platform).step device event).1.uicr =
        interrupted loop.uicr secret sealWord done torn ∧
      (event = .powerLoss request done torn ∨ 9 = done) := by
  cases device with
  | application flash uicr app =>
      refine Or.inl ?_
      cases event with
      | device event =>
          rw [poweredMachine_device]
          rcases step_application platform flash uicr app event with reset | ⟨next, same⟩
          · rw [reset]
            rfl
          · rw [same]
            rfl
      | powerLoss request done torn => rfl
  | bootloader loop =>
      cases event with
      | powerLoss request done torn =>
          simp only [poweredMachine_powerLoss, lostPower]
          cases call : secretWrite platform loop request with
          | none => exact Or.inl rfl
          | some arguments =>
              obtain ⟨secret, sealWord⟩ := arguments
              exact Or.inr ⟨loop, request, secret, sealWord, done, torn, rfl, rfl, call, rfl,
                Or.inl rfl⟩
      | device event =>
          cases event with
          | background event => exact Or.inl rfl
          | reset => exact Or.inl rfl
          | request hw radio request =>
              have served := dispatch_uicr platform hw loop request
              rw [nor _ rfl hw radio request rfl] at served
              have stepped : ((poweredMachine platform).step (.bootloader loop)
                  (.device (.request hw radio request))).1.uicr =
                (ofOutcome (dispatch platform.boot hw loop request)).1.uicr := rfl
              rw [stepped, served]
              cases call : secretWrite platform loop request with
              | none => exact Or.inl rfl
              | some arguments =>
                  obtain ⟨secret, sealWord⟩ := arguments
                  exact Or.inr ⟨loop, request, secret, sealWord, 9, 0, rfl, rfl, call,
                    writeSecret_interrupted loop.uicr secret sealWord 0, Or.inr rfl⟩

/-- The same for torn writes, as a relation between the registers before and after. -/
theorem step_writing (platform : Device.Platform) {device : Device} {event : PowerEvent}
    (tears : TearsWords platform device event) :
    ((poweredMachine platform).step device event).1.uicr = device.uicr ∨
    ∃ loop request secret sealWord, device = .bootloader loop ∧ event.request = some request ∧
      secretWrite platform loop request = some (secret, sealWord) ∧
      Writing loop.uicr secret sealWord ((poweredMachine platform).step device event).1.uicr := by
  have nor : ∀ other, event = .device other → WritesNor other := by
    rintro other rfl
    exact tears
  rcases step_interrupted platform device nor with
    same | ⟨loop, request, secret, sealWord, done, torn, rfl, sent, call, left, ends⟩
  · exact Or.inl same
  · refine Or.inr ⟨loop, request, secret, sealWord, rfl, sent, call, ?_⟩
    rw [left]
    apply writing_interrupted
    rcases ends with rfl | rfl
    · exact tears loop secret sealWord rfl call
    · exact ⟨fun below => absurd below (by decide), fun last => absurd last (by decide)⟩

/-- When `write_secret` is called, and with what: a proper secret while the device
is neither sealed nor wiped, or zeros while it is sealed. -/
inductive Call (uicr : Uicr) : Vector UInt32 8 → UInt32 → Prop where
  | sealing (secret : Vector UInt32 8) (unsealed : uicr.sealRegister ≠ uicrSealedSecret)
      (unwiped : uicr.sealRegister ≠ uicrSealedWiped) (proper : secret ≠ Vector.replicate 8 0) :
      Call uicr secret uicrSealedSecret
  | wiping (sealing : uicr.sealRegister = uicrSealedSecret) :
      Call uicr (Vector.replicate 8 0) uicrSealedWiped

theorem call_of_secretWrite (platform : Device.Platform) {loop : Loop} (cached : Cached loop)
    {request : Request} {secret : Vector UInt32 8} {sealWord : UInt32}
    (call : secretWrite platform loop request = some (secret, sealWord)) :
    Call loop.uicr secret sealWord := by
  unfold secretWrite at call
  rw [cached] at call
  split at call
  · next given =>
      split at call
      · cases call
      · next closed =>
          split at call
          · cases call
          · next proper =>
              cases call
              exact .sealing secret (fun same => closed (Or.inl same))
                (fun same => closed (Or.inr same))
                (fun same => proper (Or.inl (by simp [same])))
  · split at call
    · split at call
      · next sealed =>
          cases call
          exact .wiping sealed.1
      · cases call
    · cases call
  · cases call

/-- The seal register still has the bits of the seal that stands for a secret: no
wipe has touched it. -/
def Unspent (uicr : Uicr) : Prop := BitsOf uicrSealedSecret uicr.sealRegister

/-- The words are wiped, and the seal register is on its way to saying so. -/
structure Spent (uicr : Uicr) : Prop where
  words : ∀ index < 8, uicr index = 0
  lower : BitsOf uicrSealedWiped uicr.sealRegister
  upper : BitsOf uicr.sealRegister uicrSealedSecret

theorem secret_eq_iff (uicr : Uicr) (secret : Vector UInt32 8) :
    uicr.secret = secret.toList ↔ ∀ index (below : index < 8), uicr index = secret[index] := by
  have eight : secret.toList.length = 8 := secret.length_toList
  have cells := Memory.slice_eq_iff uicr 0 secret.toList
  simp only [eight, Nat.zero_add, Vector.getElem_toList] at cells
  exact cells

private theorem eq_zero_of_bitsOf {word : UInt32} (bits : BitsOf word 0) : word = 0 :=
  bits.symm.trans UInt32.and_zero

section Phases

variable {uicr next : Uicr} {secret : Vector UInt32 8} {sealWord : UInt32}

/-- Wiped words take no proper secret. -/
theorem Spent.writing (spent : Spent uicr) (proper : secret ≠ Vector.replicate 8 0)
    (writing : Writing uicr secret sealWord next) :
    Spent next ∧ next.sealRegister = uicr.sealRegister := by
  have zeros : ∀ index < 8, next index = 0 := fun index below =>
    eq_zero_of_bitsOf (spent.words index below ▸ writing.loses index below)
  rcases writing.seals with same | ⟨read, -⟩
  · exact ⟨⟨zeros, same ▸ spent.lower, same ▸ spent.upper⟩, same⟩
  · refine absurd (Vector.ext fun index below => ?_) proper
    rw [Vector.getElem_replicate, ← (secret_eq_iff next secret).mp read index below,
      zeros index below]

/-- A secret that is written keeps the bits of its seal. -/
theorem Unspent.sealing (unspent : Unspent uicr)
    (writing : Writing uicr secret uicrSealedSecret next) : Unspent next := by
  unfold Unspent at unspent ⊢
  rcases writing.seals with same | ⟨-, torn⟩
  · rw [same]
    exact unspent
  · exact (unspent.and (BitsOf.refl _)).trans torn.lower

/-- A wipe that reaches the seal has wiped the words. -/
theorem spent_of_wiping (sealing : uicr.sealRegister = uicrSealedSecret)
    (writing : Writing uicr (Vector.replicate 8 0) uicrSealedWiped next) :
    next.sealRegister = uicrSealedSecret ∨ Spent next := by
  rcases writing.seals with same | ⟨read, torn⟩
  · exact Or.inl (same.trans sealing)
  · refine Or.inr ⟨fun index below => ?_, ?_, ?_⟩
    · rw [(secret_eq_iff next _).mp read index below, Vector.getElem_replicate]
    · have bits : BitsOf uicrSealedWiped (uicr.sealRegister &&& uicrSealedWiped) := by
        rw [sealing]
        decide
      exact bits.trans torn.lower
    · rw [← sealing]
      exact torn.upper

/-- Every call leaves the registers unspent or spent. -/
theorem phase_of_call (phase : Unspent uicr ∨ Spent uicr) (call : Call uicr secret sealWord)
    (writing : Writing uicr secret sealWord next) : Unspent next ∨ Spent next := by
  cases call with
  | sealing secret unsealed unwiped proper =>
      rcases phase with unspent | spent
      · exact Or.inl (unspent.sealing writing)
      · exact Or.inr (spent.writing proper writing).1
  | wiping sealing =>
      rcases spent_of_wiping sealing writing with same | spent
      · exact Or.inl (by unfold Unspent; rw [same]; exact BitsOf.refl _)
      · exact Or.inr spent

end Phases

/-- A complete call keeps the cache in step with the seal. -/
theorem cached_challengeSet {loop : Loop} (cached : Cached loop)
    (phase : Unspent loop.uicr ∨ Spent loop.uicr) (secret : Vector UInt32 8) :
    Cached (challengeSet .nor loop secret).1 := by
  by_cases known : loop.cachedSeal = uicrSealedSecret ∨ loop.cachedSeal = uicrSealedWiped
  · rw [challengeSet_notAllowed known]
    exact cached
  · by_cases improper : secret.all (· == 0) ∨ secret.all (· == 0xFFFFFFFF)
    · rw [challengeSet_of_improper known improper]
      exact cached
    · by_cases takes : Takes .nor loop.uicr secret
      · have sealed := (writeSecret_of_takes takes uicrSealedSecret).2.2
        rw [challengeSet_of_takes known improper takes]
        refine Eq.trans ?_ sealed.symm
        rcases phase with unspent | spent
        · rw [CellWrite.nor_apply, UInt32.and_comm]
          exact unspent.symm
        · have zeros : secret = Vector.replicate 8 0 := by
            refine Vector.ext fun index below => ?_
            have word := takes index below
            rw [spent.words index below, CellWrite.nor_apply, UInt32.zero_and] at word
            rw [Vector.getElem_replicate, ← word]
          exact absurd (Or.inl (by simp [zeros])) improper
      · have frame := (writeSecret_of_fails takes uicrSealedSecret).2.2
        rw [challengeSet_of_fails known improper takes]
        exact cached.trans frame.symm

/-- The registers are unspent or spent, and the bootloader knows their seal. -/
structure Consistent (device : Device) : Prop where
  phase : Unspent device.uicr ∨ Spent device.uicr
  cached : device.AtLoop Cached

theorem consistent_step (platform : Device.Platform) {device : Device} {event : PowerEvent}
    (consistent : Consistent device) (tears : TearsWords platform device event) :
    Consistent ((poweredMachine platform).step device event).1 where
  phase := by
    rcases step_writing platform tears with
      same | ⟨loop, request, secret, sealWord, rfl, -, call, writing⟩
    · rw [same]
      exact consistent.phase
    · exact phase_of_call consistent.phase
        (call_of_secretWrite platform consistent.cached call) writing
  cached := by
    cases event with
    | powerLoss request done torn =>
        cases device with
        | application flash uicr app => rfl
        | bootloader loop =>
            simp only [poweredMachine_powerLoss, lostPower]
            split <;> rfl
    | device event =>
        rw [poweredMachine_device]
        rcases step_cases platform device event with
          untouched | ⟨loop, hw, radio, secret, rfl, rfl⟩ | ⟨loop, hw, radio, rfl, rfl, verifies, -⟩
        · exact untouched.cached consistent.cached
        · rw [step_challengeSet, show hw.customer = .nor from tears hw radio _ rfl]
          exact cached_challengeSet consistent.cached consistent.phase secret
        · rw [step_boot_of_verifies platform hw radio verifies]
          trivial

/-- Erased registers are unspent. -/
theorem consistent_start (flash : Flash) {uicr : Uicr}
    (blank : ∀ index ≤ uicrSealIndex, uicr index = Uicr.erased) :
    Consistent (.start flash uicr) where
  phase := by
    apply Or.inl
    unfold Unspent
    have erased : (Device.start flash uicr).uicr.sealRegister = Uicr.erased :=
      blank_sealRegister blank
    rw [erased]
    decide
  cached := rfl

end PrimeBle.Secret
