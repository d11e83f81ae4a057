import PrimeBle.Boot.Serve
import PrimeBle.Device

/-! # What an update transfers

Seen from the host, a transfer appends every acknowledged block to a log that an
erase empties. The bootloader refines that log as long as it neither erases nor
is left (`Update.run_transferring`): the offset is the length of the log, and the
application area holds the log followed by erased bytes. Up to the size of the
area, nothing else in flash differs from what the erase found
(`Update.transfer_correct`).
-/

namespace PrimeBle.Update

open Boot Device HostProtocol

/-- The data of a block. -/
def blockData : Device.Event → List UInt8
  | .request _ _ (some (.bootloader (.writeFirmwareBlock _ data))) => data
  | _ => []

/-- The answer to a block that was written. -/
def isAck : Option HostProtocolMessage → Bool
  | some (.bootloader (.ackWithIdxCrc _ _)) => true
  | _ => false

/-- The data a transition acknowledges. -/
def acknowledged (transition : Device.Transition) : List UInt8 :=
  if isAck transition.output then blockData transition.event else []

/-- The acknowledged data of a run, in order of arrival. -/
def transferred (transitions : List Device.Transition) : List UInt8 :=
  (transitions.map acknowledged).flatten

/-- A message arrives that neither erases nor resets nor boots. -/
def KeepsUpdating (platform : Device.Platform) (device : Device) (event : Device.Event) : Prop :=
  ∃ hw radio request, event = .request hw radio request ∧ hw.flash.Nvmc ∧
    request ≠ some (.bootloader .eraseFirmware) ∧ request ≠ some .reset ∧
    ∀ flash uicr app, (step platform device event).1 ≠ .application flash uicr app

/-- The loop after an erase of `original` and a log of acknowledged data. -/
structure Appended (original : Flash) (log : List UInt8) (loop : Loop) : Prop where
  offset : loop.bootStatus.offset.toNat = log.length
  aligned : log.length % 4 = 0
  logged : loop.flash.Logged baseAppAddr.toNat baseBootloaderAddr.toNat erasedByte log
  untouched : log.length ≤ appSize.toNat → ∀ address,
    address < baseAppAddr.toNat ∨ baseBootloaderAddr.toNat ≤ address →
      loop.flash address = original address

theorem erasedByte_and (value : UInt8) : erasedByte &&& value = value :=
  UInt8.eq_of_toBitVec_eq (BitVec.allOnes_and)

/-- Start of the page that the SoftDevice shares with the application area. -/
def sharedPage : UInt32 := baseAppAddr / flashPage * flashPage

/-- The flash an erase leaves: the area and the rest of the shared page are
erased, and the part of the page before the area is written back. -/
def erasedFlash (flash : Flash) : Flash :=
  (flash.fill sharedPage.toNat baseBootloaderAddr.toNat erasedByte).program .nor
    sharedPage.toNat (flash.slice sharedPage.toNat (baseAppAddr % flashPage).toNat)

/-- With the documented driver an erase succeeds. -/
theorem eraseFirmware_eq {driver : FlashDriver} (spec : driver.Nvmc) (loop : Loop) :
    eraseFirmware driver loop =
      ({ loop with flash := erasedFlash loop.flash, bootStatus := {} }, .ackEraseFirmware) := by
  have unaligned : sharedPage ≠ baseAppAddr := by decide
  have readable : sharedPage.toNat + (baseAppAddr % flashPage).toNat ≤ flashSize := by decide
  have erasable : Erasable sharedPage baseBootloaderAddr := by decide
  have writable : Writable sharedPage
      (loop.flash.slice sharedPage.toNat (baseAppAddr % flashPage).toNat) := by
    unfold Writable
    rw [Memory.length_slice]
    decide
  have read := spec.read_eq loop.flash _ _ readable
  have erase := spec.erase_eq loop.flash _ _ erasable
  have write := spec.write_eq
    (loop.flash.fill sharedPage.toNat baseBootloaderAddr.toNat erasedByte) _ _ writable
  unfold eraseFirmware
  rw [show baseAppAddr / flashPage * flashPage = sharedPage from rfl]
  simp only [unaligned, ↓reduceIte, read, erase, write]
  rfl

/-- What precedes the area survives an erase. -/
theorem erasedFlash_outside (flash : Flash) {address : ℕ}
    (outside : address < baseAppAddr.toNat ∨ baseBootloaderAddr.toNat ≤ address) :
    erasedFlash flash address = flash address := by
  have shared : sharedPage.toNat = 0x1B000 := rfl
  have base : baseAppAddr.toNat = 0x1B400 := rfl
  have top : baseBootloaderAddr.toNat = 0x27000 := rfl
  have head : (baseAppAddr % flashPage).toNat = 0x400 := rfl
  have length : (flash.slice sharedPage.toNat (baseAppAddr % flashPage).toNat).length = 0x400 :=
    Memory.length_slice ..
  unfold erasedFlash
  by_cases saved : sharedPage.toNat ≤ address ∧ address < baseAppAddr.toNat
  · rw [Memory.program_inside .nor saved.1 (by omega), Memory.fill_inside saved.1 (by omega),
      CellWrite.nor_apply, erasedByte_and, Memory.getElem_slice, Nat.add_sub_cancel' saved.1]
  · rw [Memory.program_outside .nor (by omega), Memory.fill_outside (by omega)]

/-- The area is empty after an erase. -/
theorem erasedFlash_logged (flash : Flash) :
    (erasedFlash flash).Logged baseAppAddr.toNat baseBootloaderAddr.toNat erasedByte [] := by
  have blank : (flash.fill sharedPage.toNat baseBootloaderAddr.toNat erasedByte).Logged
      baseAppAddr.toNat baseBootloaderAddr.toNat erasedByte [] :=
    Memory.Logged.fill flash (by decide) (Nat.le_refl _)
  apply blank.congr
  intro address inside _
  apply Memory.program_outside .nor
  rw [Memory.length_slice]
  exact Or.inr inside

/-- An erase starts an empty log. -/
theorem appended_erase (loop : Loop) :
    Appended loop.flash []
      { loop with flash := erasedFlash loop.flash, bootStatus := {} } where
  offset := rfl
  aligned := rfl
  logged := erasedFlash_logged loop.flash
  untouched _ _ outside := erasedFlash_outside loop.flash outside

/-- **Appending.** An accepted block is appended to the log. -/
theorem appended_block {driver : FlashDriver} (spec : driver.Nvmc) {original : Flash}
    {log : List UInt8} {loop : Loop} (appended : Appended original log loop) (idx : UInt32)
    {data : List UInt8} (accepts : loop.Accepts driver data) :
    Appended original (log ++ data) (writeFirmwareBlock driver loop idx data).1 := by
  obtain ⟨inArea, words⟩ := (Loop.accepts_iff spec).mp accepts
  have within := (Loop.inArea_iff loop).mp inArea
  have size : appSize.toNat = 0xBC00 := rfl
  have base : baseAppAddr.toNat = 0x1B400 := rfl
  have top : baseBootloaderAddr.toNat = 0x27000 := rfl
  have cursor : loop.cursor.toNat = baseAppAddr.toNat + log.length := by
    rw [Loop.cursor_toNat within, appended.offset]
  have written : driver.write loop.flash loop.cursor data =
      (true, loop.flash.program .nor (baseAppAddr.toNat + log.length) data) := by
    rw [spec.write_eq _ _ _ words, cursor]
  obtain ⟨-, aligned, inFlash⟩ := words
  have room : loop.bootStatus.offset.toNat + data.length < 2 ^ 32 := by
    unfold flashSize at inFlash
    omega
  rw [writeFirmwareBlock_of_accepts driver idx accepts, written]
  refine ⟨?_, ?_, ?_, ?_⟩
  · change (loop.bootStatus.advance idx data.length).offset.toNat = _
    rw [BootState.advance_offset idx room, appended.offset, List.length_append]
  · rw [List.length_append, Nat.add_mod, appended.aligned, aligned]
  · exact appended.logged.program erasedByte_and data
  · intro fits address outside
    rw [List.length_append] at fits
    change loop.flash.program .nor (baseAppAddr.toNat + log.length) data address = _
    rw [Memory.program_outside .nor (by omega)]
    exact appended.untouched (by omega) address outside

/-- The log is in the flash and the update state alone. -/
theorem Appended.congr {original : Flash} {log : List UInt8} {loop next : Loop}
    (appended : Appended original log loop) (flash : next.flash = loop.flash)
    (bootStatus : next.bootStatus = loop.bootStatus) : Appended original log next where
  offset := by rw [bootStatus, appended.offset]
  aligned := appended.aligned
  logged := by rw [flash]; exact appended.logged
  untouched := by rw [flash]; exact appended.untouched

/-- A refused block leaves the log as it is. -/
theorem refused_block {driver : FlashDriver} (spec : driver.Nvmc) {loop : Loop} (idx : UInt32)
    {data : List UInt8} (refused : ¬ loop.Accepts driver data) :
    (writeFirmwareBlock driver loop idx data).1 = loop := by
  rcases writeFirmwareBlock_cases loop driver idx data with
    ⟨accepts, -⟩ | ⟨⟨-, failed⟩, answer⟩ | ⟨-, answer⟩
  · exact absurd accepts refused
  · rw [answer]
    have partial_words : ¬ Writable loop.cursor data := by
      intro words
      rw [spec.write_eq _ _ _ words] at failed
      cases failed
    rw [spec.write_err _ _ _ partial_words]
  · rw [answer]

section Steps

variable (platform : Device.Platform) {loop : Loop} {hw : Peripherals}
  (radio : Firmware.RadioReadings) (idx : UInt32) {data : List UInt8}

theorem acknowledged_of_accepts (accepts : loop.Accepts hw.flash data) :
    acknowledged ((machine platform).fire (.bootloader loop) (.block hw radio idx data)) =
      data := by
  unfold acknowledged
  rw [Machine.fire_output, machine_step, step_block, writeFirmwareBlock_of_accepts _ _ accepts]
  rfl

theorem acknowledged_of_refused (refused : ¬ loop.Accepts hw.flash data) :
    acknowledged ((machine platform).fire (.bootloader loop) (.block hw radio idx data)) = [] := by
  unfold acknowledged
  rw [Machine.fire_output, machine_step, step_block]
  rcases writeFirmwareBlock_cases loop hw.flash idx data with
    ⟨accepts, -⟩ | ⟨-, answer⟩ | ⟨-, answer⟩
  · exact absurd accepts refused
  · rw [answer]
    rfl
  · rw [answer]
    rfl

/-- What the driver accepts is acknowledged, and nothing else. -/
theorem isAck_iff_accepts : isAck (step platform (.bootloader loop)
    (.block hw radio idx data)).2 = true ↔ loop.Accepts hw.flash data := by
  rw [step_block]
  rcases writeFirmwareBlock_cases loop hw.flash idx data with
    ⟨accepts, answer⟩ | ⟨⟨-, failed⟩, answer⟩ | ⟨outside, answer⟩
  · rw [answer]
    exact iff_of_true rfl accepts
  · rw [answer]
    refine iff_of_false Bool.false_ne_true fun accepts => ?_
    exact Bool.false_ne_true (failed.symm.trans accepts.2)
  · rw [answer]
    exact iff_of_false Bool.false_ne_true fun accepts => outside accepts.1

omit radio in
theorem acknowledged_of_other {transition : Device.Transition} {request : Request}
    {radio : Firmware.RadioReadings} (sent : transition.event = .request hw radio request)
    (other : ∀ idx data, request ≠ some (.bootloader (.writeFirmwareBlock idx data))) :
    acknowledged transition = [] := by
  have noData : blockData transition.event = [] := by
    rw [sent]
    unfold blockData
    split
    · next same =>
        cases same
        exact absurd rfl (other _ _)
    · rfl
  unfold acknowledged
  rw [noData, ite_self]

omit radio in
private theorem KeepsUpdating.goesOn {platform : Device.Platform} {event : Device.Event}
    (keeps : KeepsUpdating platform (.bootloader loop) event) :
    ∃ hw radio request next response, event = .request hw radio request ∧ hw.flash.Nvmc ∧
      request ≠ some (.bootloader .eraseFirmware) ∧
      dispatch platform.boot hw loop request = .next next response ∧
      step platform (.bootloader loop) event = (.bootloader next, response) := by
  obtain ⟨hw, radio, request, rfl, spec, noErase, noReset, stays⟩ := keeps
  have noJump : ∀ next sent, dispatch platform.boot hw loop request ≠ .jumpToApp next sent := by
    intro next sent jumps
    apply stays next.flash next.uicr .start
    change (ofOutcome (dispatch platform.boot hw loop request)).1 = _
    rw [jumps]
    rfl
  obtain ⟨next, response, outcome⟩ := dispatch_goesOn platform.boot hw loop noReset noJump
  refine ⟨hw, radio, request, next, response, rfl, spec, noErase, outcome, ?_⟩
  change ofOutcome (dispatch platform.boot hw loop request) = _
  rw [outcome]
  rfl

/-- **One step of a transfer.** The log grows by what the step acknowledges. -/
theorem appended_step {original : Flash} {log : List UInt8} {event : Device.Event}
    (appended : Appended original log loop)
    (keeps : KeepsUpdating platform (.bootloader loop) event) :
    ∃ next, (step platform (.bootloader loop) event).1 = .bootloader next ∧
      Appended original (log ++ acknowledged ((machine platform).fire (.bootloader loop) event))
        next := by
  obtain ⟨hw, radio, request, next, response, rfl, spec, noErase, outcome, stepped⟩ := keeps.goesOn
  refine ⟨next, by rw [stepped], ?_⟩
  by_cases block : ∃ idx data, request = some (.bootloader (.writeFirmwareBlock idx data))
  · obtain ⟨idx, data, rfl⟩ := block
    cases outcome
    by_cases accepts : loop.Accepts hw.flash data
    · rw [acknowledged_of_accepts platform radio idx accepts]
      exact appended_block spec appended idx accepts
    · rw [acknowledged_of_refused platform radio idx accepts, List.append_nil,
        refused_block spec idx accepts]
      exact appended
  · have other : ∀ idx data, request ≠ some (.bootloader (.writeFirmwareBlock idx data)) :=
      fun idx data same => block ⟨idx, data, same⟩
    rw [acknowledged_of_other rfl other, List.append_nil]
    rcases dispatch_next platform.boot hw loop outcome with
      ⟨same, -⟩ | ⟨idx, data, same, -⟩ | ⟨secret, -, rfl⟩ | rfl
    · exact absurd same noErase
    · exact absurd same (other idx data)
    · have frame := challengeSet_frame loop hw.customer secret
      exact appended.congr frame.1 frame.2
    · exact appended

/-- The device is in the middle of a transfer that has logged some data. -/
def Transferring (original : Flash) (device : Device) (log : List UInt8) : Prop :=
  ∃ loop, device = .bootloader loop ∧ Appended original log loop

/-- **A whole transfer.** As long as the bootloader neither erases nor is left,
it refines the log of what it acknowledges. -/
theorem run_transferring {original : Flash} {device : Device} {log : List UInt8}
    (start : Transferring original device log) {events : List Device.Event}
    (keeps : ∀ transition ∈ (machine platform).trace device events,
      KeepsUpdating platform transition.source transition.event) :
    Transferring original ((machine platform).run device events)
      (log ++ transferred ((machine platform).trace device events)) := by
  have simulates : ∀ device event log, Transferring original device log →
      KeepsUpdating platform device event →
      Transferring original ((machine platform).step device event).1
        (log ++ acknowledged ((machine platform).fire device event)) := by
    rintro device event log ⟨loop, rfl, appended⟩ keeps
    exact appended_step platform appended keeps
  have simulated := (machine platform).run_simulates simulates start keeps
  rw [List.foldl_map, List.foldl_append_eq_append] at simulated
  exact simulated

/-- A refusal changes nothing. -/
theorem nack_unchanged {event : Device.Event}
    (keeps : KeepsUpdating platform (.bootloader loop) event) {idx : UInt32}
    (nack : (step platform (.bootloader loop) event).2 =
      some (.bootloader (.nackWithIdx idx))) :
    (step platform (.bootloader loop) event).1 = .bootloader loop := by
  obtain ⟨hw, radio, request, next, response, rfl, spec, noErase, outcome, stepped⟩ := keeps.goesOn
  rw [stepped] at nack ⊢
  rcases dispatch_next platform.boot hw loop outcome with
    ⟨same, -⟩ | ⟨_, data, rfl, rfl⟩ | ⟨secret, rfl, -⟩ | rfl
  · exact absurd same noErase
  · cases outcome
    have refused : ¬ loop.Accepts hw.flash data := by
      intro accepts
      rw [writeFirmwareBlock_of_accepts _ _ accepts] at nack
      cases nack
    rw [refused_block spec _ refused]
  · cases outcome
    cases nack
  · rfl

omit radio in
theorem keepsUpdating_block (spec : hw.flash.Nvmc) (radio : Firmware.RadioReadings) :
    KeepsUpdating platform (.bootloader loop) (.block hw radio idx data) := by
  refine ⟨hw, radio, _, rfl, spec, ?_, ?_, fun flash uicr app => Device.noConfusion⟩
  · intro same
    cases same
  · intro same
    cases same

/-- Nothing but blocks keeps the transfer going. -/
theorem keepsUpdating_blocks (loop : Loop) {events : List Device.Event}
    (blocks : ∀ event ∈ events, ∃ hw radio idx data,
      event = .block hw radio idx data ∧ hw.flash.Nvmc) :
    ∀ transition ∈ (machine platform).trace (.bootloader loop) events,
      KeepsUpdating platform transition.source transition.event := by
  induction events generalizing loop with
  | nil => intro transition member; cases member
  | cons event events ih =>
      obtain ⟨⟨hw, radio, idx, data, rfl, spec⟩, later⟩ := List.forall_mem_cons.mp blocks
      rw [Machine.trace_cons, List.forall_mem_cons]
      exact ⟨keepsUpdating_block platform idx spec radio, ih _ later⟩

end Steps

/-- What the host may rely on after an erase of `original` and `data`. -/
structure Transferred (original : Flash) (data : List UInt8) (loop : Loop) : Prop where
  offset : loop.bootStatus.offset.toNat = data.length
  aligned : loop.bootStatus.offset.toNat % 4 = 0
  written : loop.flash.slice baseAppAddr.toNat data.length = data
  blank : ∀ address, baseAppAddr.toNat + data.length ≤ address →
    address < baseBootloaderAddr.toNat → loop.flash address = erasedByte
  untouched : ∀ address, address < baseAppAddr.toNat ∨ baseBootloaderAddr.toNat ≤ address →
    loop.flash address = original address

theorem Appended.transferred {original : Flash} {log : List UInt8} {loop : Loop}
    (appended : Appended original log loop) (fits : log.length ≤ appSize.toNat) :
    Transferred original log loop where
  offset := appended.offset
  aligned := by rw [appended.offset, appended.aligned]
  written := by
    apply appended.logged.slice_eq
    have size : baseBootloaderAddr.toNat = baseAppAddr.toNat + appSize.toNat := rfl
    omega
  blank := by
    intro address after inside
    have cell := appended.logged (address - baseAppAddr.toNat) (by omega)
    rw [List.getD_eq_default _ _ (by omega), Nat.add_sub_cancel' (by omega)] at cell
    exact cell
  untouched := appended.untouched fits

/-- The device after an erase request to the bootloader. -/
abbrev afterErase (platform : Device.Platform) (loop : Loop) (hw : Peripherals)
    (radio : Firmware.RadioReadings) : Device :=
  ((machine platform).step (.bootloader loop) (.erase hw radio)).1

/-- An erase starts a transfer. -/
theorem transferring_afterErase (platform : Device.Platform) (loop : Loop) {hw : Peripherals}
    (spec : hw.flash.Nvmc) (radio : Firmware.RadioReadings) :
    Transferring loop.flash (afterErase platform loop hw radio) [] := by
  unfold afterErase
  rw [machine_step, step_erase, eraseFirmware_eq spec]
  exact ⟨_, rfl, appended_erase loop⟩

/-- **Transfer correctness.** An erase is acknowledged; at every point of a
transfer after it, the flash and the update state are as the host expects, and a
refusal changes nothing. -/
theorem transfer_correct (platform : Device.Platform) (loop : Loop) (hw : Peripherals)
    (radio : Firmware.RadioReadings) (spec : hw.flash.Nvmc) {events : List Device.Event}
    (keeps : ∀ transition ∈ (machine platform).trace (afterErase platform loop hw radio) events,
      KeepsUpdating platform transition.source transition.event)
    (total : (transferred ((machine platform).trace (afterErase platform loop hw radio)
      events)).length ≤ appSize.toNat) :
    ((machine platform).step (.bootloader loop) (.erase hw radio)).2 =
        some (.bootloader .ackEraseFirmware) ∧
      (∀ before after, events = before ++ after → ∃ next,
        (machine platform).run (afterErase platform loop hw radio) before = .bootloader next ∧
          Transferred loop.flash
            (transferred ((machine platform).trace (afterErase platform loop hw radio) before))
            next) ∧
      ∀ transition ∈ (machine platform).trace (afterErase platform loop hw radio) events,
        ∀ idx, transition.output = some (.bootloader (.nackWithIdx idx)) →
          transition.target = transition.source := by
  have start := transferring_afterErase platform loop spec radio
  refine ⟨?_, ?_, ?_⟩
  · rw [machine_step, step_erase, eraseFirmware_eq spec]
  · rintro before after rfl
    rw [Machine.trace_append] at total
    obtain ⟨next, reached, appended⟩ := run_transferring platform start
      (fun transition member => keeps transition (Machine.mem_trace_append_left _ after member))
    refine ⟨next, reached, appended.transferred ?_⟩
    unfold transferred at total ⊢
    rw [List.map_append, List.flatten_append, List.length_append] at total
    rw [List.nil_append]
    omega
  · intro transition member idx nack
    have kept := keeps transition member
    obtain ⟨before, event, after, rfl, rfl⟩ := (machine platform).mem_trace_iff.mp member
    obtain ⟨next, reached, -⟩ := run_transferring platform start
      (fun transition member => keeps transition (Machine.mem_trace_append_left _ _ member))
    rw [reached] at kept nack ⊢
    exact nack_unchanged platform kept nack

private def unerased : Loop := .start (fun _ => 0) (fun _ => 0)

private def sampleHw : Peripherals := ⟨nvmc, .nor⟩

private def sampleBlock (data : List UInt8) : Device.Event := .block sampleHw ⟨none, false⟩ 0 data

private def sampleTransfer : List Device.Event :=
  [sampleBlock [1, 2, 3, 4], sampleBlock [5, 6, 7], sampleBlock [8, 9, 10, 11]]

private theorem sampleTransfer_keeps :
    ∀ transition ∈ (machine .bare).trace (afterErase .bare unerased sampleHw ⟨none, false⟩)
        sampleTransfer,
      KeepsUpdating .bare transition.source transition.event := by
  apply keepsUpdating_blocks
  intro event member
  simp only [sampleTransfer, List.mem_cons, List.not_mem_nil, or_false] at member
  rcases member with rfl | rfl | rfl
  · exact ⟨_, _, _, _, rfl, nvmc_spec⟩
  · exact ⟨_, _, _, _, rfl, nvmc_spec⟩
  · exact ⟨_, _, _, _, rfl, nvmc_spec⟩

private theorem sampleTransfer_data :
    transferred ((machine .bare).trace (afterErase .bare unerased sampleHw ⟨none, false⟩)
      sampleTransfer) = [1, 2, 3, 4, 8, 9, 10, 11] := by
  decide +kernel

/-- Two blocks are acknowledged, and one of three bytes between them is not. -/
theorem transfer_correct_sample :
    ∃ next, (machine .bare).run (afterErase .bare unerased sampleHw ⟨none, false⟩)
        sampleTransfer = .bootloader next ∧
      Transferred unerased.flash [1, 2, 3, 4, 8, 9, 10, 11] next := by
  have total : (transferred ((machine .bare).trace
      (afterErase .bare unerased sampleHw ⟨none, false⟩) sampleTransfer)).length ≤
      appSize.toNat := by
    rw [sampleTransfer_data]
    decide
  have correct := transfer_correct .bare unerased sampleHw ⟨none, false⟩ nvmc_spec
    sampleTransfer_keeps total
  have final := correct.2.1 sampleTransfer [] rfl
  rw [← sampleTransfer_data]
  exact final

end PrimeBle.Update
