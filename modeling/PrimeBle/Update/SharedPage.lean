import PrimeBle.Update.Transfer

/-! # The page the SoftDevice shares with the application area

An erase covers the end of the SoftDevice, which it saves in RAM and writes back.
The saved copy lives as long as the request. A request that fails in between can
leave bytes of the SoftDevice erased, and the next request saves and restores
what it finds: the acknowledgement of an erase means an intact SoftDevice exactly
when no erase request before it failed at the expense of those bytes
(`Update.keepsHead_iff_noHarm`).
-/

namespace PrimeBle.Update

open Boot Device

/-- The part of the SoftDevice in the first page an erase covers is the same. -/
def SameHead (first second : Flash) : Prop :=
  ∀ address, sharedPage.toNat ≤ address → address < baseAppAddr.toNat →
    first address = second address

/-- Every byte of that part stays as it was or reads as erased. -/
def Fades (before after : Flash) : Prop :=
  ∀ address, sharedPage.toNat ≤ address → address < baseAppAddr.toNat →
    after address = before address ∨ after address = erasedByte

/-- The erase, or the write of the saved bytes after it, fails and costs bytes of
the SoftDevice. -/
def FailsWithHarm (driver : FlashDriver) (flash : Flash) : Prop :=
  ∃ saved, savedHead driver flash = some saved ∧
    ((erasedPages driver flash).1 = false ∧ ¬ SameHead flash (erasedPages driver flash).2 ∨
      (erasedPages driver flash).1 = true ∧ (restoredHead driver flash saved).1 = false ∧
        ¬ SameHead flash (restoredHead driver flash saved).2)

/-- The read, the erase and the write of the saved bytes all succeed. -/
def Succeeds (driver : FlashDriver) (flash : Flash) : Prop :=
  ∃ saved, savedHead driver flash = some saved ∧ (erasedPages driver flash).1 = true ∧
    (restoredHead driver flash saved).1 = true

theorem SameHead.refl (flash : Flash) : SameHead flash flash := fun _ _ _ => rfl

theorem SameHead.symm {first second : Flash} (same : SameHead first second) :
    SameHead second first :=
  fun address lower upper => (same address lower upper).symm

theorem SameHead.trans {first second third : Flash} (left : SameHead first second)
    (right : SameHead second third) : SameHead first third :=
  fun address lower upper => (left address lower upper).trans (right address lower upper)

theorem SameHead.fades {before after : Flash} (same : SameHead before after) :
    Fades before after :=
  fun address lower upper => Or.inl (same address lower upper).symm

theorem Fades.trans {first second third : Flash} (left : Fades first second)
    (right : Fades second third) : Fades first third := by
  intro address lower upper
  rcases right address lower upper with same | erased
  · rw [same]
    exact left address lower upper
  · exact Or.inr erased

/-- Bytes that are there at the end were there all the way. -/
theorem Fades.sameHead {first second third : Flash} (left : Fades first second)
    (right : Fades second third) (same : SameHead first third) : SameHead first second := by
  intro address lower upper
  have ends := same address lower upper
  rcases left address lower upper with kept | erased
  · exact kept.symm
  · rcases right address lower upper with kept | gone
    · rw [ends, kept]
    · rw [ends, gone, erased]

section Request

variable {driver : FlashDriver} (contract : driver.NorFlash) (flash : Flash)

include contract

theorem savedHead_eq {saved : List UInt8} (read : savedHead driver flash = some saved) :
    saved = flash.slice sharedPage.toNat (baseAppAddr % flashPage).toNat :=
  contract.read_ok flash _ _ saved read

/-- An erase that fails only erases. -/
theorem fades_of_eraseErr (failed : (erasedPages driver flash).1 = false) :
    Fades flash (erasedPages driver flash).2 := by
  intro address lower upper
  rcases contract.erase_err flash _ _ failed address with same | ⟨-, -, erased⟩
  · exact Or.inl same
  · exact Or.inr erased

variable {flash} {saved : List UInt8} (read : savedHead driver flash = some saved)
  (erased : (erasedPages driver flash).1 = true)

include read erased

/-- Written back in full, the saved bytes are what was there. -/
theorem program_savedHead {address : ℕ} (upper : address < baseAppAddr.toNat) :
    (erasedPages driver flash).2.program .nor sharedPage.toNat saved address = flash address := by
  have pages := contract.erase_ok flash _ _ erased
  have kept := erasedFlash_outside flash (Or.inl upper)
  rw [savedHead_eq contract flash read]
  unfold erasedFlash at kept
  rw [← kept]
  exact congrFun (congrArg (fun memory : Flash => memory.program .nor sharedPage.toNat
    (flash.slice sharedPage.toNat (baseAppAddr % flashPage).toNat)) pages) address

/-- An erase that goes through keeps the SoftDevice as it finds it. -/
theorem sameHead_of_restored (restored : (restoredHead driver flash saved).1 = true) :
    SameHead flash (restoredHead driver flash saved).2 := by
  intro address _ upper
  have written := contract.write_ok _ _ _ restored
  rw [← program_savedHead contract read erased upper]
  exact (congrFun written address).symm

/-- A write of the saved bytes that fails leaves some of them erased. -/
theorem fades_of_writeErr (failed : (restoredHead driver flash saved).1 = false) :
    Fades flash (restoredHead driver flash saved).2 := by
  intro address lower upper
  have top : baseAppAddr.toNat ≤ baseBootloaderAddr.toNat := by decide
  have pages := contract.erase_ok flash _ _ erased
  have blank : (erasedPages driver flash).2 address = erasedByte := by
    rw [pages]
    exact Memory.fill_inside lower (by omega)
  rcases contract.write_err _ _ _ failed address with same | ⟨-, -, gone | kept⟩
  · exact Or.inr (same.trans blank)
  · exact Or.inr gone
  · exact Or.inl (kept.trans (program_savedHead contract read erased upper))

end Request

section Loop

variable {driver : FlashDriver} (contract : driver.NorFlash) (loop : Loop)

include contract

/-- An erase request changes bytes of the SoftDevice only to erased ones. -/
theorem eraseFirmware_fades : Fades loop.flash (eraseFirmware driver loop).1.flash := by
  rcases eraseFirmware_cases loop driver with
    ⟨-, answer⟩ | ⟨saved, -, failed, answer⟩ | ⟨saved, read, erased, failed, answer⟩ |
      ⟨saved, read, erased, restored, answer⟩
  · rw [answer]
    exact (SameHead.refl loop.flash).fades
  · rw [answer]
    exact fades_of_eraseErr contract loop.flash failed
  · rw [answer]
    exact fades_of_writeErr contract read erased failed
  · rw [answer]
    exact (sameHead_of_restored contract read erased restored).fades

/-- It keeps them all unless it fails with harm. -/
theorem eraseFirmware_sameHead (harmless : ¬ FailsWithHarm driver loop.flash) :
    SameHead loop.flash (eraseFirmware driver loop).1.flash := by
  rcases eraseFirmware_cases loop driver with
    ⟨-, answer⟩ | ⟨saved, read, failed, answer⟩ | ⟨saved, read, erased, failed, answer⟩ |
      ⟨saved, read, erased, restored, answer⟩
  · rw [answer]
    exact SameHead.refl loop.flash
  · rw [answer]
    by_contra different
    exact harmless ⟨saved, read, Or.inl ⟨failed, different⟩⟩
  · rw [answer]
    by_contra different
    exact harmless ⟨saved, read, Or.inr ⟨erased, failed, different⟩⟩
  · rw [answer]
    exact sameHead_of_restored contract read erased restored

omit contract in
/-- A request that fails with harm takes bytes away. -/
theorem eraseFirmware_not_sameHead (harm : FailsWithHarm driver loop.flash) :
    ¬ SameHead loop.flash (eraseFirmware driver loop).1.flash := by
  obtain ⟨saved, read, lost⟩ := harm
  rcases eraseFirmware_cases loop driver with
    ⟨unread, -⟩ | ⟨other, -, failed, answer⟩ | ⟨other, again, erased, failed, answer⟩ |
      ⟨other, again, erased, restored, -⟩
  · rw [unread] at read
    cases read
  · rw [answer]
    rcases lost with ⟨-, different⟩ | ⟨erased, -⟩
    · exact different
    · rw [failed] at erased
      cases erased
  · rw [read] at again
    cases again
    rw [answer]
    rcases lost with ⟨unerased, -⟩ | ⟨-, -, different⟩
    · rw [erased] at unerased
      cases unerased
    · exact different
  · rw [read] at again
    cases again
    rcases lost with ⟨unerased, -⟩ | ⟨-, unwritten, -⟩
    · rw [erased] at unerased
      cases unerased
    · rw [restored] at unwritten
      cases unwritten

omit contract in
/-- A request that succeeds does not fail with harm. -/
theorem Succeeds.harmless {flash : Flash} (succeeds : Succeeds driver flash) :
    ¬ FailsWithHarm driver flash := by
  obtain ⟨saved, read, erased, restored⟩ := succeeds
  rintro ⟨other, again, ⟨unerased, -⟩ | ⟨-, unwritten, -⟩⟩
  · rw [erased] at unerased
    cases unerased
  · rw [read] at again
    cases again
    rw [restored] at unwritten
    cases unwritten

/-- Blocks are written behind the SoftDevice. -/
theorem writeFirmwareBlock_sameHead (idx : UInt32) (data : List UInt8) :
    SameHead loop.flash (writeFirmwareBlock driver loop idx data).1.flash := by
  intro address _ upper
  have behind : loop.InArea → address < loop.cursor.toNat := fun inArea =>
    Nat.lt_of_lt_of_le upper (UInt32.le_iff_toNat_le.mp inArea.1)
  rcases writeFirmwareBlock_cases loop driver idx data with
    ⟨⟨inArea, accepted⟩, answer⟩ | ⟨⟨inArea, refused⟩, answer⟩ | ⟨-, answer⟩
  · rw [answer]
    change loop.flash address = (driver.write loop.flash loop.cursor data).2 address
    rw [contract.write_ok _ _ _ accepted, Memory.program_outside .nor (Or.inl (behind inArea))]
  · rw [answer]
    rcases contract.write_err _ _ _ refused address with same | ⟨inside, -⟩
    · exact same.symm
    · exact absurd (behind inArea) (Nat.not_lt.mpr inside)
  · rw [answer]

end Loop

/-- An erase request is acknowledged exactly when its three operations succeed. -/
theorem eraseFirmware_ack_iff (driver : FlashDriver) (loop : Loop) :
    (eraseFirmware driver loop).2 = .ackEraseFirmware ↔ Succeeds driver loop.flash := by
  rcases eraseFirmware_cases loop driver with
    ⟨unread, answer⟩ | ⟨saved, read, failed, answer⟩ | ⟨saved, read, erased, failed, answer⟩ |
      ⟨saved, read, erased, restored, answer⟩
  · simp [answer, Succeeds, unread]
  · simp [answer, Succeeds, failed]
  · simp [answer, Succeeds, read, failed]
  · simp [answer, Succeeds, read, erased, restored]

/-- Booting leaves the flash alone. -/
theorem bootFirmware_flash (platform : Device.Platform) (loop : Loop) (write : CellWrite UInt32)
    (trust : HostProtocol.TrustLevel) :
    (ofOutcome (bootFirmware platform.boot write loop trust)).1.flash = loop.flash := by
  simp only [bootFirmware]
  split <;> rfl

/-- **What touches the flash.** Erase requests and blocks; every other step leaves
it alone. -/
theorem step_flash (platform : Device.Platform) (device : Device) (event : Device.Event) :
    (step platform device event).1.flash = device.flash ∨
    (∃ loop hw radio, device = .bootloader loop ∧ event = .erase hw radio) ∨
    (∃ loop hw radio idx data, device = .bootloader loop ∧
      event = .block hw radio idx data) := by
  cases device with
  | application flash uicr app =>
      refine Or.inl ?_
      rcases step_application platform flash uicr app event with reset | ⟨next, same⟩
      · rw [reset]
        rfl
      · rw [same]
        rfl
  | bootloader loop =>
      cases event with
      | background event => exact Or.inl rfl
      | reset => exact Or.inl rfl
      | request hw radio request =>
          have stepped : (step platform (.bootloader loop) (.request hw radio request)).1 =
            (ofOutcome (dispatch platform.boot hw loop request)).1 := rfl
          rcases dispatch_cases platform.boot hw loop request with
            ⟨rfl, -⟩ | ⟨idx, data, rfl, -⟩ | ⟨secret, -, outcome⟩ | ⟨trust, -, outcome⟩ |
              ⟨-, outcome⟩ | ⟨-, response, outcome⟩
          · exact Or.inr (Or.inl ⟨loop, hw, radio, rfl, rfl⟩)
          · exact Or.inr (Or.inr ⟨loop, hw, radio, idx, data, rfl, rfl⟩)
          · refine Or.inl ?_
            rw [stepped, outcome]
            exact (challengeSet_frame loop hw.customer secret).1
          · refine Or.inl ?_
            rw [stepped, outcome]
            exact bootFirmware_flash platform loop hw.customer trust
          · refine Or.inl ?_
            rw [stepped, outcome]
            rfl
          · refine Or.inl ?_
            rw [stepped, outcome]
            rfl

/-- The driver an event comes with keeps the contract. -/
def KeepsContract (event : Device.Event) : Prop :=
  ∀ hw radio request, event = .request hw radio request → hw.flash.NorFlash

/-- An erase request fails with harm. -/
def Harms (device : Device) (event : Device.Event) : Prop :=
  ∃ loop hw radio, device = .bootloader loop ∧ event = .erase hw radio ∧
    FailsWithHarm hw.flash loop.flash

/-- An erase request goes through. -/
def Erases (device : Device) (event : Device.Event) : Prop :=
  ∃ loop hw radio, device = .bootloader loop ∧ event = .erase hw radio ∧
    Succeeds hw.flash loop.flash

/-- An acknowledged erase leaves the SoftDevice as it was. -/
def KeepsHead (original : Flash) (transition : Device.Transition) : Prop :=
  ∀ loop hw radio, transition.source = .bootloader loop → transition.event = .erase hw radio →
    transition.output = some (.bootloader .ackEraseFirmware) →
    SameHead original transition.target.flash

/-- The device still has the SoftDevice. -/
def Intact (original : Flash) (device : Device) : Prop := SameHead original device.flash

/-- The device has lost no more of the SoftDevice than some of its bytes. -/
def Worn (original : Flash) (device : Device) : Prop := Fades original device.flash

section Runs

variable (platform : Device.Platform) {device : Device} {event : Device.Event}

theorem step_sameHead (contract : KeepsContract event) (harmless : ¬ Harms device event) :
    SameHead device.flash (step platform device event).1.flash := by
  rcases step_flash platform device event with
    same | ⟨loop, hw, radio, rfl, rfl⟩ | ⟨loop, hw, radio, idx, data, rfl, rfl⟩
  · rw [same]
    exact SameHead.refl device.flash
  · rw [step_erase]
    exact eraseFirmware_sameHead (contract hw radio _ rfl) loop
      fun harm => harmless ⟨loop, hw, radio, rfl, rfl, harm⟩
  · rw [step_block]
    exact writeFirmwareBlock_sameHead (contract hw radio _ rfl) loop idx data

theorem step_fades (contract : KeepsContract event) :
    Fades device.flash (step platform device event).1.flash := by
  by_cases harm : Harms device event
  · obtain ⟨loop, hw, radio, rfl, rfl, -⟩ := harm
    rw [step_erase]
    exact eraseFirmware_fades (contract hw radio _ rfl) loop
  · exact (step_sameHead platform contract harm).fades

theorem Harms.not_sameHead (harm : Harms device event) :
    ¬ SameHead device.flash (step platform device event).1.flash := by
  obtain ⟨loop, hw, radio, rfl, rfl, failed⟩ := harm
  rw [step_erase]
  exact eraseFirmware_not_sameHead loop failed

theorem Erases.harmless (erases : Erases device event) : ¬ Harms device event := by
  obtain ⟨loop, hw, radio, rfl, rfl, succeeds⟩ := erases
  intro ⟨other, hw, radio, same, sameEvent, failed⟩
  cases same
  cases sameEvent
  exact succeeds.harmless failed

/-- While no request fails with harm, the SoftDevice stays. -/
theorem run_intact {original : Flash} (intact : Intact original device)
    {events : List Device.Event} (contract : ∀ event ∈ events, KeepsContract event)
    (harmless : ∀ transition ∈ (machine platform).trace device events,
      ¬ Harms transition.source transition.event) :
    Intact original ((machine platform).run device events) := by
  have kept : ∀ next event, Intact original next → (KeepsContract event ∧ ¬ Harms next event) →
      Intact original (step platform next event).1 :=
    fun next event same allowed => same.trans (step_sameHead platform allowed.1 allowed.2)
  refine Machine.run_preserved kept intact fun transition member => ⟨?_, harmless transition member⟩
  exact contract _ ((machine platform).event_mem_of_mem_trace member)

/-- Along a run bytes of the SoftDevice are only ever lost. -/
theorem run_worn {original : Flash} (worn : Worn original device) {events : List Device.Event}
    (contract : ∀ event ∈ events, KeepsContract event) :
    Worn original ((machine platform).run device events) := by
  have kept : ∀ next event, Worn original next → KeepsContract event →
      Worn original (step platform next event).1 :=
    fun next event faded contract => faded.trans (step_fades platform contract)
  exact Machine.run_preserved_of_events kept worn contract

/-- A loss on the way shows at the end. -/
theorem not_intact_of_harms {original : Flash} (worn : Worn original device)
    (harms : Harms device event) {events : List Device.Event}
    (contract : ∀ other ∈ event :: events, KeepsContract other) :
    ¬ Intact original ((machine platform).run device (event :: events)) := by
  obtain ⟨here, later⟩ := List.forall_mem_cons.mp contract
  intro intact
  have next : Fades device.flash (step platform device event).1.flash := step_fades platform here
  have rest : Worn (step platform device event).1.flash
      ((machine platform).run (step platform device event).1 events) :=
    run_worn platform (SameHead.refl _).fades later
  have first : SameHead original device.flash := worn.sameHead (next.trans rest) intact
  have second : SameHead original (step platform device event).1.flash :=
    Fades.sameHead (worn.trans next) rest intact
  exact harms.not_sameHead platform (first.symm.trans second)

end Runs

/-- **The SoftDevice survives an acknowledged erase** exactly when no erase request
before it failed with harm: for every run in which each of the three flash
operations may succeed or fail, on drivers that keep the contract of NOR flash. -/
theorem keepsHead_iff_noHarm (platform : Device.Platform) (flash : Flash) (uicr : Uicr)
    {events : List Device.Event} (contract : ∀ event ∈ events, KeepsContract event) :
    (∀ transition ∈ (machine platform).trace (.start flash uicr) events,
        KeepsHead flash transition) ↔
      ∀ before event after, events = before ++ event :: after →
        Erases ((machine platform).run (.start flash uicr) before) event →
        ∀ earlier ∈ (machine platform).trace (.start flash uicr) before,
          ¬ Harms earlier.source earlier.event := by
  constructor
  · rintro kept before event after rfl erases earlier member harms
    obtain ⟨first, harmful, between, rfl, rfl⟩ := (machine platform).mem_trace_iff.mp member
    obtain ⟨loop, hw, radio, reached, rfl, succeeds⟩ := erases
    have taken := (machine platform).fire_mem_trace (.start flash uicr)
      (first ++ harmful :: between) (.erase hw radio) after
    rw [reached] at taken
    have ack : ((machine platform).fire (.bootloader loop) (.erase hw radio)).output =
        some (.bootloader .ackEraseFirmware) := by
      rw [Machine.fire_output, machine_step, step_erase,
        (eraseFirmware_ack_iff hw.flash loop).mpr succeeds]
    have final := kept _ taken loop hw radio rfl rfl ack
    have early : ∀ event ∈ first, KeepsContract event := fun event member =>
      contract event (by simp only [List.append_assoc, List.mem_append, member, true_or])
    have late : ∀ event ∈ harmful :: (between ++ [.erase hw radio]), KeepsContract event := by
      intro event member
      apply contract event
      simp only [List.mem_cons, List.mem_append, List.append_assoc, List.cons_append] at member ⊢
      tauto
    have start : Worn flash (.start flash uicr) := (SameHead.refl flash).fades
    rw [Machine.fire_source, Machine.fire_event] at harms
    refine not_intact_of_harms platform (run_worn platform start early) harms late ?_
    rw [← Machine.run_append, ← List.cons_append, ← List.append_assoc, Machine.run_append, reached]
    exact final
  · intro harmless transition member loop hw radio source erase ack
    obtain ⟨before, event, after, rfl, rfl⟩ := (machine platform).mem_trace_iff.mp member
    rw [Machine.fire_source] at source
    rw [Machine.fire_event] at erase
    subst erase
    rw [Machine.fire_output, source, machine_step, step_erase] at ack
    injection ack with message
    injection message with answer
    have erases : Erases (.bootloader loop) (.erase hw radio) :=
      ⟨loop, hw, radio, rfl, rfl, (eraseFirmware_ack_iff hw.flash loop).mp answer⟩
    have early : ∀ event ∈ before, KeepsContract event := fun event member =>
      contract event (List.mem_append_left _ member)
    have start : Intact flash (.start flash uicr) := SameHead.refl flash
    have intact := run_intact platform start early
      (harmless before (.erase hw radio) after rfl (source ▸ erases))
    have here : KeepsContract (.erase hw radio) :=
      contract _ (List.mem_append_right _ (List.mem_cons_self ..))
    rw [Machine.fire_target, source, machine_step]
    rw [source] at intact
    exact intact.trans (step_sameHead platform here erases.harmless)

/-- A driver whose operations all succeed does no harm. -/
theorem not_harms_of_nvmc {hw : Peripherals} (spec : hw.flash.Nvmc)
    (radio : Firmware.RadioReadings) (device : Device) : ¬ Harms device (.erase hw radio) := by
  rintro ⟨loop, _, _, rfl, same, failed⟩
  cases same
  have acked : (eraseFirmware hw.flash loop).2 = .ackEraseFirmware := by
    rw [eraseFirmware_eq spec]
  exact ((eraseFirmware_ack_iff hw.flash loop).mp acked).harmless failed

private def erasing (driver : FlashDriver) : Device.Event := .erase ⟨driver, .nor⟩ ⟨none, false⟩

private theorem erasing_contract {driver : FlashDriver} (contract : driver.NorFlash) :
    KeepsContract (erasing driver) := by
  intro hw radio request same
  cases same
  exact contract

/-- The SoftDevice survives two erase requests that succeed. -/
theorem keepsHead_iff_noHarm_succeeding :
    KeepsHead (fun _ => 0) ((machine .bare).fire
      ((machine .bare).run (.start (fun _ => 0) (fun _ => 0)) [erasing nvmc]) (erasing nvmc)) := by
  have contract : ∀ event ∈ [erasing nvmc, erasing nvmc], KeepsContract event := by
    intro event member
    simp only [List.mem_cons, List.not_mem_nil, or_false, or_self] at member
    rw [member]
    exact erasing_contract nvmc_norFlash
  have last := (machine .bare).fire_mem_trace (.start (fun _ => 0) (fun _ => 0)) [erasing nvmc]
    (erasing nvmc) []
  refine (keepsHead_iff_noHarm .bare (fun _ => 0) (fun _ => 0) contract).mpr ?_ _ last
  intro before event after split erases earlier member
  have taken := (machine .bare).event_mem_of_mem_trace member
  have listed : earlier.event ∈ [erasing nvmc, erasing nvmc] := by
    rw [split]
    exact List.mem_append_left _ taken
  simp only [List.mem_cons, List.not_mem_nil, or_false, or_self] at listed
  rw [listed]
  exact not_harms_of_nvmc nvmc_spec _ _

/-- A driver whose erase reports an error after erasing everything. -/
private def failing : FlashDriver where
  read := nvmc.read
  erase flash first last := (false, flash.fill first.toNat last.toNat erasedByte)
  write := nvmc.write

private theorem failing_norFlash : failing.NorFlash where
  read_ok := nvmc_norFlash.read_ok
  erase_ok flash first last erased := nomatch erased
  erase_err flash first last _ address := by
    by_cases inside : first.toNat ≤ address ∧ address < last.toNat
    · exact Or.inr ⟨inside.1, inside.2, Memory.fill_inside inside.1 inside.2⟩
    · exact Or.inl (Memory.fill_outside (by omega))
  write_ok := nvmc_norFlash.write_ok
  write_err := nvmc_norFlash.write_err

/-- What the failing erase leaves of an empty flash. -/
private def worn : Loop :=
  { Loop.start (fun _ => 0) (fun _ => 0) with
    flash := Memory.fill (fun _ => 0) sharedPage.toNat baseBootloaderAddr.toNat erasedByte }

private theorem worn_blank : worn.flash sharedPage.toNat = erasedByte := by
  have below : sharedPage.toNat < baseBootloaderAddr.toNat := by decide
  simp only [worn]
  exact Memory.fill_inside (Nat.le_refl _) below

private theorem worn_reached :
    (step .bare (.start (fun _ => 0) (fun _ => 0)) (erasing failing)).1 = .bootloader worn := by
  have readable : sharedPage.toNat + (baseAppAddr % flashPage).toNat ≤ flashSize := by decide
  have read : savedHead failing (fun _ => 0) = some _ := nvmc_spec.read_eq _ _ _ readable
  have failed : erasedPages failing (fun _ => 0) = (false, worn.flash) := rfl
  rcases eraseFirmware_cases (.start (fun _ => 0) (fun _ => 0)) failing with
    ⟨unread, -⟩ | ⟨_, -, -, answer⟩ | ⟨_, -, erased, -⟩ | ⟨_, -, erased, -⟩
  · cases read.symm.trans unread
  · exact congrArg Device.bootloader (congrArg Prod.fst answer)
  · cases erased
  · cases erased

/-- An erase fails and is sent again. -/
def retriedErase : List Device.Event := [erasing failing, erasing nvmc]

/-- The second erase acknowledges the damage that the first one did. -/
theorem retriedErase_not_kept :
    (∀ event ∈ retriedErase, KeepsContract event) ∧
      ¬ ∀ transition ∈ (machine .bare).trace (.start (fun _ => 0) (fun _ => 0)) retriedErase,
        KeepsHead (fun _ => 0) transition := by
  constructor
  · intro event member
    simp only [retriedErase, List.mem_cons, List.not_mem_nil, or_false] at member
    rcases member with rfl | rfl
    · exact erasing_contract failing_norFlash
    · exact erasing_contract nvmc_norFlash
  · intro kept
    have reached : (machine .bare).run (.start (fun _ => 0) (fun _ => 0)) [erasing failing] =
      .bootloader worn := worn_reached
    have taken := (machine .bare).fire_mem_trace (.start (fun _ => 0) (fun _ => 0))
      [erasing failing] (erasing nvmc) []
    rw [reached] at taken
    have acked := eraseFirmware_eq nvmc_spec worn
    have second : step .bare (.bootloader worn) (erasing nvmc) =
        (.bootloader { worn with flash := erasedFlash worn.flash, bootStatus := {} },
          some (.bootloader .ackEraseFirmware)) := by
      unfold erasing
      rw [step_erase, acked]
    have same := kept _ taken worn _ _ rfl rfl (congrArg Prod.snd second)
    rw [Machine.fire_target, machine_step, second] at same
    have byte := same sharedPage.toNat (Nat.le_refl _) (by decide)
    simp only [Device.flash] at byte
    rw [erasedFlash_outside worn.flash (Or.inl (by decide)), worn_blank] at byte
    exact absurd byte (by decide)

end PrimeBle.Update
