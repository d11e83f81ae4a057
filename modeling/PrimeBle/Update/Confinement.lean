import PrimeBle.Boot.Serve
import PrimeBle.Device

/-! # Where an update may write

A block is confined if what the flash controller accepts of it lies in the
application area and a block with no room left is turned away. The range check
includes the end of the area and does not look at the length of the block, so
confinement holds along a run exactly when the host never sends a block that
does not fit (`Update.confined_iff_fits`).
-/

namespace PrimeBle.Update

open Boot Device

/-- The block fits in what is left of the application area. -/
def Fits (loop : Loop) (data : List UInt8) : Prop :=
  loop.bootStatus.offset.toNat + data.length ≤ appSize.toNat

/-- What confinement asks of the answer to a block. -/
def Confined (transition : Device.Transition) : Prop :=
  ∀ loop hw radio idx data, transition.source = .bootloader loop →
    transition.event = .block hw radio idx data →
    (loop.Accepts hw.flash data → baseAppAddr.toNat ≤ loop.cursor.toNat ∧
      loop.cursor.toNat + data.length ≤ baseBootloaderAddr.toNat) ∧
    (¬ Fits loop data →
      transition.output = some (.bootloader (.firmwareOutOfBounds idx)) ∧
        transition.target = transition.source)

/-- The host sends no block that does not fit. -/
def SendsFitting (device : Device) (event : Device.Event) : Prop :=
  ∀ loop hw radio idx data, device = .bootloader loop → event = .block hw radio idx data →
    Fits loop data

/-- The update has not outgrown the application area. -/
def Within (loop : Loop) : Prop := loop.bootStatus.offset.toNat ≤ appSize.toNat

private theorem within_start (flash : Flash) (uicr : Uicr) : Within (.start flash uicr) :=
  Nat.zero_le _

private theorem within_cursor {loop : Loop} (within : Within loop) :
    loop.cursor.toNat = baseAppAddr.toNat + loop.bootStatus.offset.toNat :=
  Loop.cursor_toNat within

private theorem area_end : baseAppAddr.toNat + appSize.toNat = baseBootloaderAddr.toNat := rfl

/-- A block is refused as out of bounds only once the update has outgrown the
area. -/
theorem not_outOfBounds {loop : Loop} (within : Within loop) (driver : FlashDriver)
    (idx : UInt32) (data : List UInt8) :
    (writeFirmwareBlock driver loop idx data).2 ≠ .firmwareOutOfBounds idx := by
  rcases writeFirmwareBlock_cases loop driver idx data with
    ⟨-, answer⟩ | ⟨-, answer⟩ | ⟨outside, -⟩
  · rw [answer]
    exact HostProtocol.Bootloader.noConfusion
  · rw [answer]
    exact HostProtocol.Bootloader.noConfusion
  · exact absurd ((Loop.inArea_iff loop).mpr within) outside

/-- Fitting blocks keep the update in the area. -/
theorem within_block {loop : Loop} (within : Within loop) (driver : FlashDriver) (idx : UInt32)
    {data : List UInt8} (fits : Fits loop data) :
    Within (writeFirmwareBlock driver loop idx data).1 := by
  have size : appSize.toNat = 0xBC00 := rfl
  unfold Fits at fits
  rcases writeFirmwareBlock_cases loop driver idx data with
    ⟨-, answer⟩ | ⟨-, answer⟩ | ⟨-, answer⟩
  · rw [answer]
    change (loop.bootStatus.advance idx data.length).offset.toNat ≤ appSize.toNat
    rw [BootState.advance_offset idx (by omega)]
    exact fits
  · rw [answer]
    exact within
  · rw [answer]
    exact within

/-- While the host sends only what fits, the update stays in the area. -/
theorem within_step (platform : Device.Platform) {device : Device} {event : Device.Event}
    (within : device.AtLoop Within) (fitting : SendsFitting device event) :
    (step platform device event).1.AtLoop Within := by
  apply atLoop_step platform within within_start
  rintro loop hw radio request next response rfl rfl goesOn
  rcases dispatch_next platform.boot hw loop goesOn with
    ⟨-, rfl⟩ | ⟨idx, data, rfl, rfl⟩ | ⟨secret, -, rfl⟩ | rfl
  · unfold Within
    rcases (eraseFirmware_frame loop hw.flash).2.2 with same | reset
    · rw [same]
      exact within
    · rw [reset]
      exact Nat.zero_le _
  · exact within_block within hw.flash idx (fitting loop hw radio idx data rfl rfl)
  · unfold Within
    rw [(challengeSet_frame loop hw.customer secret).2]
    exact within
  · exact within

private theorem confined_of_fits (platform : Device.Platform) {device : Device}
    {event : Device.Event} (within : device.AtLoop Within) (fitting : SendsFitting device event) :
    Confined ((machine platform).fire device event) := by
  rintro loop hw radio idx data rfl rfl
  have fits := fitting loop hw radio idx data rfl rfl
  refine ⟨fun _ => ?_, fun tooLong => absurd fits tooLong⟩
  rw [within_cursor within, ← area_end]
  unfold Fits at fits
  omega

private theorem fits_of_confined (platform : Device.Platform) {device : Device}
    {event : Device.Event} (within : device.AtLoop Within)
    (confined : Confined ((machine platform).fire device event)) :
    SendsFitting device event := by
  rintro loop hw radio idx data rfl rfl
  by_contra tooLong
  have refused := ((confined loop hw radio idx data rfl rfl).2 tooLong).1
  rw [Machine.fire_output, machine_step, step_block] at refused
  injection refused with message
  injection message with answer
  exact not_outOfBounds within hw.flash idx data answer

/-- **Write confinement.** From a reset on, on any platform and however the
peripherals behave, every answer to a block is confined exactly when every block
sent fits. -/
theorem confined_iff_fits (platform : Device.Platform) (flash : Flash) (uicr : Uicr)
    (events : List Device.Event) :
    (∀ transition ∈ (machine platform).trace (.start flash uicr) events, Confined transition) ↔
      ∀ transition ∈ (machine platform).trace (.start flash uicr) events,
        SendsFitting transition.source transition.event := by
  have kept : ∀ device event, device.AtLoop Within → SendsFitting device event →
      Confined ((machine platform).fire device event) ∧
        ((machine platform).step device event).1.AtLoop Within :=
    fun device event within fitting =>
      ⟨confined_of_fits platform within fitting, within_step platform within fitting⟩
  have needed : ∀ device event, device.AtLoop Within →
      Confined ((machine platform).fire device event) → SendsFitting device event :=
    fun device event within => fits_of_confined platform within
  have start : (Device.start flash uicr).AtLoop Within := within_start flash uicr
  exact (machine platform).forall_trace_iff kept needed start events

/-- Aligned blocks of one size fill the area up to any multiple of their size. -/
theorem run_blocks (platform : Device.Platform) (hw : Peripherals) (spec : hw.flash.Nvmc)
    (radio : Firmware.RadioReadings) (idx : UInt32) {data : List UInt8}
    (words : data.length % 4 = 0) (short : data.length ≤ rawBufSize) (count : ℕ) {loop : Loop}
    (aligned : loop.bootStatus.offset.toNat % 4 = 0)
    (room : loop.bootStatus.offset.toNat + count * data.length ≤ appSize.toNat) :
    ∃ next, (machine platform).run (.bootloader loop)
        (List.replicate count (.block hw radio idx data)) = .bootloader next ∧
      next.bootStatus.offset.toNat = loop.bootStatus.offset.toNat + count * data.length := by
  have size : appSize.toNat = 0xBC00 := rfl
  induction count generalizing loop with
  | zero => exact ⟨loop, rfl, by omega⟩
  | succ count ih =>
      rw [Nat.succ_mul] at room ⊢
      have accepts : loop.Accepts hw.flash data :=
        Loop.accepts_of_words spec (by omega) aligned words short
      have moved : (loop.bootStatus.advance idx data.length).offset.toNat =
          loop.bootStatus.offset.toNat + data.length :=
        BootState.advance_offset idx (by omega)
      rw [List.replicate_succ, Machine.run_cons, machine_step, step_block,
        writeFirmwareBlock_of_accepts hw.flash idx accepts]
      obtain ⟨next, reached, offset⟩ := @ih
        { loop with
          flash := (hw.flash.write loop.flash loop.cursor data).2
          bootStatus := loop.bootStatus.advance idx data.length }
        (by rw [moved]; omega) (by rw [moved]; omega)
      refine ⟨next, reached, ?_⟩
      rw [offset, moved]
      omega

private def zeros : List UInt8 := List.replicate 256 0

private theorem length_zeros : zeros.length = 256 := List.length_replicate

private theorem zeros_words : zeros.length % 4 = 0 := by rw [length_zeros]

private theorem zeros_short : zeros.length ≤ rawBufSize := by
  rw [length_zeros]
  decide

private def filler : Device.Event := .block ⟨nvmc, .nor⟩ ⟨none, false⟩ 0 zeros

/-- One block of 256 bytes more than the area holds. -/
def overfilling : List Device.Event := List.replicate 188 filler ++ [filler]

/-- After all but the last of these blocks the area is full. -/
theorem overfilling_fills (flash : Flash) (uicr : Uicr) :
    ∃ full, (machine .bare).run (.start flash uicr) (List.replicate 188 filler) =
        .bootloader full ∧ full.bootStatus.offset.toNat = appSize.toNat := by
  have size : appSize.toNat = 188 * 256 := rfl
  have zero : (Loop.start flash uicr).bootStatus.offset.toNat = 0 := rfl
  have aligned : (Loop.start flash uicr).bootStatus.offset.toNat % 4 = 0 := by rw [zero]
  have room : (Loop.start flash uicr).bootStatus.offset.toNat + 188 * zeros.length ≤
      appSize.toNat := by
    have length := length_zeros
    omega
  obtain ⟨full, reached, offset⟩ :=
    run_blocks .bare ⟨nvmc, .nor⟩ nvmc_spec ⟨none, false⟩ 0 zeros_words zeros_short 188
      aligned room
  refine ⟨full, reached, ?_⟩
  rw [offset, zero, length_zeros, size]

/-- The last block is accepted, and lands on the bootloader. -/
theorem overfilling_not_confined :
    ¬ ∀ transition ∈ (machine .bare).trace (.start (fun _ => erasedByte) (fun _ => 0)) overfilling,
      Confined transition := by
  intro confined
  obtain ⟨full, reached, offset⟩ := overfilling_fills (fun _ => erasedByte) (fun _ => 0)
  have aligned : full.bootStatus.offset.toNat % 4 = 0 := by
    rw [offset]
    rfl
  have accepts : full.Accepts nvmc zeros :=
    Loop.accepts_of_words nvmc_spec (Nat.le_of_eq offset) aligned zeros_words zeros_short
  have last := (machine .bare).fire_mem_trace (.start (fun _ => erasedByte) (fun _ => 0))
    (List.replicate 188 filler) filler []
  rw [reached] at last
  have inside := ((confined _ last full _ _ _ _ rfl rfl).1 accepts).2
  rw [Loop.cursor_toNat (Nat.le_of_eq offset), offset, area_end, length_zeros] at inside
  omega

end PrimeBle.Update
