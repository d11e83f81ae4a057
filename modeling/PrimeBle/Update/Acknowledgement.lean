import PrimeBle.Update.Transfer

/-! # What an acknowledgement says about the flash

The checksum in an acknowledgement is computed from the data received, not from
the flash, and the controller can only clear bits. So what is acknowledged is
stored exactly when the cells written still had all the bits of the data
(`Update.stored_iff_bitsLeft`), as erased cells do (`Update.bitsLeft_of_erased`).
-/

namespace PrimeBle.Update

open Boot Device

/-- An acknowledged block is in flash, and its checksum is that of the flash. -/
def Stored (transition : Device.Transition) : Prop :=
  ∀ loop hw radio idx data, transition.source = .bootloader loop →
    transition.event = .block hw radio idx data →
    ∀ blockIdx crc, transition.output = some (.bootloader (.ackWithIdxCrc blockIdx crc)) →
      transition.target.flash.slice loop.cursor.toNat data.length = data ∧
        crc = Crc32.iscsi.checksum
          (transition.target.flash.slice loop.cursor.toNat data.length)

/-- Every cell from the cursor on has the bits of the byte that goes there. -/
def BitsLeft (loop : Loop) (data : List UInt8) : Prop :=
  ∀ index (below : index < data.length),
    loop.flash (loop.cursor.toNat + index) &&& data[index] = data[index]

/-- The blocks that the controller accepts go to cells that have their bits. -/
def SendsToErased (device : Device) (event : Device.Event) : Prop :=
  ∀ loop hw radio idx data, device = .bootloader loop → event = .block hw radio idx data →
    loop.Accepts hw.flash data → BitsLeft loop data

/-- The driver an event comes with can only clear bits. -/
def OnlyClears (event : Device.Event) : Prop :=
  ∀ hw radio request, event = .request hw radio request → hw.flash.ClearsBits

theorem slice_write_iff {driver : FlashDriver} (clears : driver.ClearsBits) {loop : Loop}
    {data : List UInt8} (accepts : loop.Accepts driver data) :
    (driver.write loop.flash loop.cursor data).2.slice loop.cursor.toNat data.length = data ↔
      BitsLeft loop data := by
  rw [clears loop.flash loop.cursor data accepts.2]
  exact Memory.slice_program_eq_iff loop.flash loop.cursor.toNat data

theorem stored_of_bitsLeft (platform : Device.Platform) {device : Device} {event : Device.Event}
    (clears : OnlyClears event) (erased : SendsToErased device event) :
    Stored ((machine platform).fire device event) := by
  rintro loop hw radio idx data rfl rfl blockIdx crc ack
  rw [Machine.fire_output, machine_step, step_block] at ack
  rw [Machine.fire_target, machine_step, step_block]
  by_cases accepts : loop.Accepts hw.flash data
  · have read := (slice_write_iff (clears hw radio _ rfl) accepts).mpr
      (erased loop hw radio idx data rfl rfl accepts)
    rw [writeFirmwareBlock_of_accepts _ _ accepts] at ack ⊢
    cases ack
    refine ⟨read, ?_⟩
    change _ = Crc32.iscsi.checksum
      ((hw.flash.write loop.flash loop.cursor data).2.slice loop.cursor.toNat data.length)
    rw [read]
  · rcases writeFirmwareBlock_cases loop hw.flash idx data with
      ⟨accepted, -⟩ | ⟨-, answer⟩ | ⟨-, answer⟩
    · exact absurd accepted accepts
    · rw [answer] at ack
      cases ack
    · rw [answer] at ack
      cases ack

theorem bitsLeft_of_stored (platform : Device.Platform) {device : Device} {event : Device.Event}
    (clears : OnlyClears event) (stored : Stored ((machine platform).fire device event)) :
    SendsToErased device event := by
  rintro loop hw radio idx data rfl rfl accepts
  have served := writeFirmwareBlock_of_accepts hw.flash idx accepts
  have ack : ((machine platform).fire (.bootloader loop) (.block hw radio idx data)).output =
      some (.bootloader (.ackWithIdxCrc idx (Crc32.iscsi.checksum data))) := by
    rw [Machine.fire_output, machine_step, step_block, served]
  have read := (stored loop hw radio idx data rfl rfl _ _ ack).1
  rw [Machine.fire_target, machine_step, step_block, served] at read
  exact (slice_write_iff (clears hw radio _ rfl) accepts).mp read

/-- **Acknowledgements.** From a reset on, with drivers that can only clear bits,
whatever is acknowledged is in flash exactly when all of it went to cells that
had its bits. -/
theorem stored_iff_bitsLeft (platform : Device.Platform) (flash : Flash) (uicr : Uicr)
    {events : List Device.Event} (clears : ∀ event ∈ events, OnlyClears event) :
    (∀ transition ∈ (machine platform).trace (.start flash uicr) events, Stored transition) ↔
      ∀ transition ∈ (machine platform).trace (.start flash uicr) events,
        SendsToErased transition.source transition.event := by
  have kept : ∀ device event, True → OnlyClears event → SendsToErased device event →
      Stored ((machine platform).fire device event) ∧ True :=
    fun device event _ clears erased => ⟨stored_of_bitsLeft platform clears erased, trivial⟩
  have needed : ∀ device event, True → OnlyClears event →
      Stored ((machine platform).fire device event) → SendsToErased device event :=
    fun device event _ clears => bitsLeft_of_stored platform clears
  exact (machine platform).forall_trace_iff_of_valid kept needed trivial clears

/-- Erased cells have every bit. -/
theorem bitsLeft_of_erased {loop : Loop} {data : List UInt8}
    (erased : ∀ index < data.length, loop.flash (loop.cursor.toNat + index) = erasedByte) :
    BitsLeft loop data := by
  intro index below
  rw [erased index below]
  exact erasedByte_and _

private def oneBlock : Device.Event := .block ⟨nvmc, .nor⟩ ⟨none, false⟩ 0 [1, 1, 1, 1]

private theorem oneBlock_clears : ∀ event ∈ [oneBlock], OnlyClears event := by
  intro event member hw radio request sent
  rw [List.mem_singleton.mp member] at sent
  cases sent
  exact nvmc_spec.clearsBits

/-- A block goes to erased flash. -/
theorem stored_iff_bitsLeft_erased :
    Stored ((machine .bare).fire (.start (fun _ => erasedByte) (fun _ => 0)) oneBlock) := by
  have erased : ∀ transition ∈ (machine .bare).trace
      (.start (fun _ => erasedByte) (fun _ => 0)) [oneBlock],
      SendsToErased transition.source transition.event := by
    intro transition member
    rw [List.mem_singleton.mp member]
    rintro loop hw radio idx data same - -
    cases same
    exact bitsLeft_of_erased fun _ _ => rfl
  have stored := (stored_iff_bitsLeft .bare _ _ oneBlock_clears).mpr erased
  exact stored _ (List.mem_singleton.mpr rfl)

/-- The same block goes, unerased, over an older image, and is acknowledged. -/
theorem unerased_not_stored :
    ¬ ∀ transition ∈ (machine .bare).trace (.start (fun _ => 0) (fun _ => 0)) [oneBlock],
      Stored transition := by
  intro stored
  have here := stored _ (List.mem_singleton.mpr rfl)
  have acked : ((machine .bare).fire (.start (fun _ => 0) (fun _ => 0)) oneBlock).output =
      some (.bootloader (.ackWithIdxCrc 0 (Crc32.iscsi.checksum [1, 1, 1, 1]))) := by
    decide +kernel
  have read := (here _ _ _ _ _ rfl rfl _ _ acked).1
  have different : ((machine .bare).fire (.start (fun _ => 0) (fun _ => 0))
      oneBlock).target.flash.slice (Loop.start (fun _ => 0) (fun _ => 0)).cursor.toNat 4 ≠
        [1, 1, 1, 1] := by
    decide +kernel
  exact different read

end PrimeBle.Update
