import PrimeBle.Spi.Lockstep

/-! # Transactions without a trace

What a host asks a device without commanding it leaves nothing behind: bytes that do
not decode, messages for the other program, messages that only a device sends, and
requests that only read. Over a whole run these transactions can be left out, and
every other input is still met by the same device, with the same frames
(`Spi.queries_untraced`).
-/

namespace PrimeBle.Spi

open HostProtocol

/-- The bootloader writes memory, boots or resets at this request. -/
def bootloaderCommand : Request → Bool
  | some .reset => true
  | some (.bootloader msg) =>
      match msg with
      | .eraseFirmware | .writeFirmwareBlock _ _ | .challengeSet _ | .bootFirmware _ => true
      | _ => false
  | _ => false

/-- The application changes its state or uses the radio at this request. -/
def applicationCommand : Request → Bool
  | some .reset => true
  | some (.bluetooth msg) =>
      match msg with
      | .disableChannels _ | .enable | .disable | .getStatus | .sendData _ | .getReceivedData
      | .setTxPower _ | .disconnect | .setDeviceName _ => true
      | _ => false
  | _ => false

/-- The running program is commanded, or something other than a transaction happens
to it. Radio events pass the bootloader by. -/
def acts (transition : Machine.Transition Device Input (List (List UInt8))) : Bool :=
  match transition.source, transition.event with
  | _, .reset => true
  | .bootloader _, .transaction _ _ bytes =>
      bootloaderCommand (fromBytes Boot.rawBufSize bytes)
  | .application _ _ _, .transaction _ _ bytes =>
      applicationCommand (fromBytes maxMsgSize bytes)
  | .bootloader _, .background _ => false
  | .application _ _ _, .background _ => true

section Programs

variable (platform : Device.Platform)

/-- A request that is no command leaves the loop where it was. -/
theorem dispatch_query (loop : Boot.Loop) (hw : Boot.Peripherals) {request : Request}
    (query : bootloaderCommand request = false) :
    ∃ response, Boot.dispatch platform.boot hw loop request = .next loop response := by
  rcases Boot.dispatch_cases platform.boot hw loop request with
    ⟨rfl, -⟩ | ⟨idx, data, rfl, -⟩ | ⟨secret, rfl, -⟩ | ⟨trust, rfl, -⟩ | ⟨rfl, -⟩ |
      ⟨-, response, outcome⟩
  · cases query
  · cases query
  · cases query
  · cases query
  · cases query
  · exact ⟨response, outcome⟩

theorem handled_query {app : Firmware.State} {msg : Bluetooth}
    {answer : Firmware.State × HostProtocolMessage} (handled : Firmware.Handled app msg answer)
    (query : applicationCommand (some (.bluetooth msg)) = false) : answer.1 = app := by
  cases handled with
  | disablesChannels chan => cases query
  | enables => cases query
  | disables terminating => cases query
  | disconnects terminating => cases query
  | reports radio => cases query
  | hands taken => cases query
  | drains empty => cases query
  | setsPower power => cases query
  | setsName name => cases query
  | _ => rfl

/-- A request that is no command leaves the application as it was. -/
theorem step_query (uicr : Uicr) (app : Firmware.State) (radio : Firmware.RadioReadings)
    {request : Request} (query : applicationCommand request = false) :
    (Firmware.step platform.firmware uicr app (.request radio request)).1 = app := by
  by_cases running : app.power = .running
  · rw [Firmware.step_request platform.firmware uicr running]
    cases request with
    | none => rfl
    | some msg =>
        cases msg with
        | bluetooth msg =>
            exact handled_query (Firmware.bluetoothHandler_handled _ radio app msg) query
        | reset => cases query
        | _ => rfl
  · rw [Firmware.step_stopped platform.firmware uicr running]

end Programs

section Runs

variable (platform : Device.Platform)

/-- The chip is not about to reset: a reset leads to the bootloader at once. -/
def Up : Device → Prop
  | .bootloader _ => True
  | .application _ _ app => app.power ≠ .reset

theorem up_ofApplication (flash : Boot.Flash) (uicr : Uicr)
    (after : Firmware.State × Firmware.Output) :
    Up (Device.ofApplication flash uicr after).1 := by
  unfold Device.ofApplication
  split
  · exact trivial
  · next other => exact other

theorem up_ofOutcome (outcome : Boot.Outcome) : Up (Device.ofOutcome outcome).1 := by
  cases outcome with
  | next loop response => exact trivial
  | sysReset loop => exact trivial
  | jumpToApp loop sent => exact Firmware.Power.noConfusion

theorem up_step (device : Device) (input : Input) (before : Up device) :
    Up ((machine platform).step device input).1 := by
  cases device with
  | bootloader loop =>
      cases input with
      | transaction hw radio bytes => exact up_ofOutcome _
      | background event => exact trivial
      | reset => exact trivial
  | application flash uicr app =>
      cases input with
      | transaction hw radio bytes => exact up_ofApplication flash uicr _
      | background event => exact up_ofApplication flash uicr _
      | reset => exact trivial

/-- **Steps.** A step that is no act leaves the device as it was. -/
theorem still_of_idle {device : Device} (up : Up device) (input : Input)
    (idle : acts ((machine platform).fire device input) = false) :
    ((machine platform).step device input).1 = device := by
  cases device with
  | bootloader loop =>
      cases input with
      | reset => cases idle
      | background event => rfl
      | transaction hw radio bytes =>
          by_cases empty : bytes = []
          · rw [empty]
            rfl
          · obtain ⟨response, outcome⟩ := dispatch_query platform loop hw idle
            simp only [machine, serve, turn_of_ne_nil platform loop hw empty, outcome,
              Device.ofOutcome]
  | application flash uicr app =>
      cases input with
      | reset => cases idle
      | background event => cases idle
      | transaction hw radio bytes =>
          have kept := step_query platform uicr app radio idle
          simp only [machine, serve, Device.step, Device.ofApplication, kept]
          split
          · next resets => exact absurd resets up
          · rfl

/-- **Queries leave no trace.** From power-on, whatever is in flash and the
registers, leave out of a run every transaction that commands the program then
running to nothing. The remaining inputs are met by the same devices, with the same
frames, and lead to the same device in the end. -/
theorem queries_untraced (flash : Boot.Flash) (uicr : Uicr) (inputs : List Input) :
    (machine platform).trace (Device.start flash uicr)
        ((((machine platform).trace (Device.start flash uicr) inputs).filter acts).map
          Machine.Transition.event) =
      ((machine platform).trace (Device.start flash uicr) inputs).filter acts ∧
    (machine platform).run (Device.start flash uicr)
        ((((machine platform).trace (Device.start flash uicr) inputs).filter acts).map
          Machine.Transition.event) =
      (machine platform).run (Device.start flash uicr) inputs := by
  apply (machine platform).run_acting
  intro transition member idle
  obtain ⟨before, input, after, rfl, rfl⟩ := (machine platform).mem_trace_iff.mp member
  have start : Up (Device.start flash uicr) := trivial
  have up := Machine.run_invariant (up_step platform) start before
  exact still_of_idle platform up input idle

end Runs

end PrimeBle.Spi
