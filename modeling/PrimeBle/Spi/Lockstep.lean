import PrimeBle.Device
import PrimeBle.Firmware.Steps
import PrimeBle.Spi.Responses

/-! # Requests and responses in lockstep

The host reads one response after each request it sends, so a transaction that is
not answered, or an answer to nothing, shifts every later pair. The loops differ
where they leave that rule: the bootloader is silent to messages that only it
sends, and the application answers an empty transaction, which the bootloader
skips. These are the only ways out of step (`Spi.lockstep_iff_attended`).
-/

namespace PrimeBle.Spi

open HostProtocol

/-- What happens to a device on its bus and around it. -/
inductive Input where
  /-- The host transfers these bytes, to a program on peripherals as given. -/
  | transaction (hw : Boot.Peripherals) (radio : Firmware.RadioReadings) (bytes : List UInt8)
  | background (event : Firmware.Background)
  | reset

variable (platform : Device.Platform)

/-- The running program reads a transaction into its buffer and serves it. -/
def serve (device : Device) (input : Input) : Device × Option HostProtocolMessage :=
  match device, input with
  | .bootloader loop, .transaction hw _ bytes =>
      Device.ofOutcome (Boot.turn platform.boot hw loop (some bytes))
  | .application flash uicr app, .transaction hw radio bytes =>
      Device.step platform (.application flash uicr app)
        (.request hw radio (fromBytes maxMsgSize bytes))
  | device, .background event => Device.step platform device (.background event)
  | device, .reset => Device.step platform device .reset

/-- What is written to the bus for a response. -/
def written : Option HostProtocolMessage → List (List UInt8)
  | none => []
  | some response => (sendFrame response).toList

/-- The device, from one transaction or event to the next. -/
def machine : Machine Device Input (List (List UInt8)) where
  step device input := ((serve platform device input).1, written (serve platform device input).2)

/-- A program is there to read the bus. -/
def Reading : Device → Prop
  | .bootloader _ => True
  | .application _ _ app => app.power = .running

/-- A transaction resets the chip or boots the application. -/
def Leaves (device : Device) (hw : Boot.Peripherals) (bytes : List UInt8) : Prop :=
  match device with
  | .bootloader loop =>
      ∀ next response, Boot.turn platform.boot hw loop (some bytes) ≠ .next next response
  | .application _ _ _ => fromBytes maxMsgSize bytes = some .reset

/-- One response for a transaction that carries something, and none for an empty
one. -/
def InStep (transition : Machine.Transition Device Input (List (List UInt8))) : Prop :=
  ∀ hw radio bytes, transition.event = .transaction hw radio bytes → Reading transition.source →
    (bytes = [] → transition.output = []) ∧
      (bytes ≠ [] → ¬ Leaves platform transition.source hw bytes →
        ∃ frame, transition.output = [frame])

/-- The bootloader gets no message that only a bootloader sends, and the
application no empty transaction. -/
def Attended (device : Device) (input : Input) : Prop :=
  ∀ hw radio bytes, input = .transaction hw radio bytes →
    match device with
    | .bootloader _ =>
        ∀ msg, fromBytes Boot.rawBufSize bytes = some (.bootloader msg) → msg.isRequest = true
    | .application _ _ app => app.power = .running → bytes ≠ []

theorem written_of_framed {response : HostProtocolMessage} (framed : Framed response) :
    ∃ frame, written (some response) = [frame] := by
  obtain ⟨high, low, sent, -⟩ := framed.sent
  refine ⟨high :: low :: Encode.hostProtocolMessage response, ?_⟩
  simp only [written, sent, Option.toList_some]

section Bootloader

variable (loop : Boot.Loop) (hw : Boot.Peripherals)

theorem turn_of_ne_nil {bytes : List UInt8} (carries : bytes ≠ []) :
    Boot.turn platform.boot hw loop (some bytes) =
      Boot.dispatch platform.boot hw loop (fromBytes Boot.rawBufSize bytes) := by
  cases bytes with
  | nil => exact absurd rfl carries
  | cons byte bytes => rfl

/-- A silent iteration of the loop was passed a message of its own kind. -/
theorem dispatch_silent {request : Request} {next : Boot.Loop}
    (silent : Boot.dispatch platform.boot hw loop request = .next next none) :
    ∃ msg, request = some (.bootloader msg) ∧ msg.isRequest = false := by
  cases request with
  | none => cases silent
  | some msg =>
      rcases dispatch_answers platform.boot hw loop msg with
        ⟨-, outcome⟩ | ⟨_, _, _, -, -, outcome⟩ | ⟨_, _, outcome, -⟩ | ⟨sub, same, target, -⟩
      · cases outcome.symm.trans silent
      · cases outcome.symm.trans silent
      · cases outcome.symm.trans silent
      · exact ⟨sub, congrArg some same, target⟩

/-- A message that only a bootloader sends is passed over. -/
theorem dispatch_passes {msg : Bootloader} (target : msg.isRequest = false) :
    Boot.dispatch platform.boot hw loop (some (.bootloader msg)) = .next loop none := by
  cases msg with
  | eraseFirmware => cases target
  | writeFirmwareBlock idx data => cases target
  | firmwareVersion => cases target
  | bootloaderVersion => cases target
  | challengeSet secret => cases target
  | bootFirmware trust => cases target
  | _ => rfl

/-- The loop is in step with a transaction exactly when it is attended. -/
theorem inStep_bootloader_iff (radio : Firmware.RadioReadings) (bytes : List UInt8) :
    InStep platform ((machine platform).fire (.bootloader loop) (.transaction hw radio bytes)) ↔
      Attended (.bootloader loop) (.transaction hw radio bytes) := by
  constructor
  · rintro inStep _ _ _ ⟨⟩ msg decoded
    by_contra target
    have carries : bytes ≠ [] := by
      rintro rfl
      cases decoded
    have passed : Boot.turn platform.boot hw loop (some bytes) = .next loop none := by
      rw [turn_of_ne_nil platform loop hw carries, decoded]
      exact dispatch_passes platform loop hw (Bool.eq_false_iff.mpr target)
    obtain ⟨frame, answered⟩ := (inStep hw radio bytes rfl trivial).2 carries
      (fun leaves => leaves _ _ passed)
    simp only [Machine.fire_output, machine, serve, passed, Device.ofOutcome, written] at answered
    cases answered
  · rintro attended _ _ _ ⟨⟩ -
    constructor
    · rintro rfl
      rfl
    · intro carries stays
      simp only [Machine.fire_output, machine, serve, Leaves, Machine.fire_source] at stays ⊢
      rw [turn_of_ne_nil platform loop hw carries] at stays ⊢
      cases outcome : Boot.dispatch platform.boot hw loop (fromBytes Boot.rawBufSize bytes) with
      | sysReset next =>
          rw [outcome] at stays
          exact absurd (fun _ _ => nofun) stays
      | jumpToApp next sent =>
          rw [outcome] at stays
          exact absurd (fun _ _ => nofun) stays
      | next next response =>
          cases response with
          | none =>
              obtain ⟨msg, decoded, target⟩ := dispatch_silent platform loop hw outcome
              cases target.symm.trans (attended hw radio bytes rfl msg decoded)
          | some response =>
              have short := dispatch_response platform.boot hw loop
                (congrArg sentBy outcome : _ = some response)
              exact written_of_framed short.framed

end Bootloader

section Application

variable (flash : Boot.Flash) (uicr : Uicr) (app : Firmware.State)

/-- The communication task answers whatever does not reset it. -/
theorem commsTask_answers (hmac : HmacSha256) (context : Firmware.CommsContext)
    (radio : Firmware.RadioReadings) {request : Request} (noReset : request ≠ some .reset) :
    ∃ response, (Firmware.commsTask hmac uicr context radio app request).2 = some response ∧
      Framed response := by
  cases request with
  | none =>
      have short : ShortResponse (.postcardError .deser) := ⟨rfl, trivial⟩
      exact ⟨_, rfl, short.framed⟩
  | some msg =>
      rcases hostProtocolHandler_cases hmac uicr context radio app msg with
        ⟨resets, -⟩ | ⟨response, answered, short⟩
      · exact absurd (congrArg some resets) noReset
      · exact ⟨response, answered, short.framed⟩

/-- The application answers whatever it reads, unless it resets. -/
theorem serve_application (running : app.power = .running) (hw : Boot.Peripherals)
    (radio : Firmware.RadioReadings) {bytes : List UInt8}
    (stays : fromBytes maxMsgSize bytes ≠ some .reset) :
    ∃ response, (serve platform (.application flash uicr app)
        (.transaction hw radio bytes)).2 = some response ∧ Framed response := by
  have power := Firmware.commsTask_power platform.firmware.hmac uicr platform.firmware.context
    radio app stays
  obtain ⟨response, answered, framed⟩ := commsTask_answers uicr app platform.firmware.hmac
    platform.firmware.context radio stays
  refine ⟨response, ?_, framed⟩
  simp only [serve, Device.step, Firmware.step_request platform.firmware uicr running,
    Device.ofApplication, power, running, answered]

/-- The application is in step with a transaction exactly when it is attended. -/
theorem inStep_application_iff (hw : Boot.Peripherals) (radio : Firmware.RadioReadings)
    (bytes : List UInt8) :
    InStep platform ((machine platform).fire (.application flash uicr app)
        (.transaction hw radio bytes)) ↔
      Attended (.application flash uicr app) (.transaction hw radio bytes) := by
  constructor
  · rintro inStep _ _ _ ⟨⟩ running rfl
    have stays : fromBytes maxMsgSize [] ≠ some .reset := nofun
    obtain ⟨response, answered, framed⟩ :=
      serve_application platform flash uicr app running hw radio stays
    obtain ⟨frame, sent⟩ := written_of_framed framed
    have silent := (inStep hw radio [] rfl running).1 rfl
    simp only [Machine.fire_output, machine, answered, sent] at silent
    cases silent
  · rintro attended _ _ _ ⟨⟩ running
    constructor
    · intro empty
      exact absurd empty (attended hw radio bytes rfl running)
    · intro _ stays
      obtain ⟨response, answered, framed⟩ :=
        serve_application platform flash uicr app running hw radio stays
      simp only [Machine.fire_output, machine, answered]
      exact written_of_framed framed

end Application

theorem inStep_iff_attended (device : Device) (input : Input) :
    InStep platform ((machine platform).fire device input) ↔ Attended device input := by
  cases input with
  | transaction hw radio bytes =>
      cases device with
      | bootloader loop => exact inStep_bootloader_iff platform loop hw radio bytes
      | application flash uicr app =>
          exact inStep_application_iff platform flash uicr app hw radio bytes
  | background event => exact iff_of_true nofun nofun
  | reset => exact iff_of_true nofun nofun

/-- **Lockstep.** Along every run of a device over transactions of any content,
responses are in step with requests exactly when the bootloader never gets a
message that only a bootloader sends and the application never an empty
transaction. -/
theorem lockstep_iff_attended (device : Device) (inputs : List Input) :
    (∀ transition ∈ (machine platform).trace device inputs, InStep platform transition) ↔
      ∀ transition ∈ (machine platform).trace device inputs,
        Attended transition.source transition.event := by
  constructor
  · intro inStep transition taken
    obtain ⟨before, input, after, -, rfl⟩ := (machine platform).mem_trace_iff.mp taken
    exact (inStep_iff_attended platform _ input).mp (inStep _ taken)
  · intro attended transition taken
    obtain ⟨before, input, after, -, rfl⟩ := (machine platform).mem_trace_iff.mp taken
    exact (inStep_iff_attended platform _ input).mpr (attended _ taken)

/-- A bootloader that was just reset. -/
def freshBootloader : Device := .start (fun _ => 0xFF) fun _ => 0

/-- The encoding of an erase acknowledgement arrives. -/
def strayAcknowledgement : Input := .transaction ⟨Boot.nvmc, .nor⟩ ⟨none, false⟩ [1, 1]

/-- An application that was just started. -/
def freshApplication : Device := .application (fun _ => 0xFF) (fun _ => 0) .start

/-- Nothing is transferred. -/
def emptyTransaction : Input := .transaction ⟨Boot.nvmc, .nor⟩ ⟨none, false⟩ []

/-- The bootloader does not answer the first, and the application answers the
second. -/
theorem lockstep_broken :
    (¬ ∀ transition ∈ (machine .bare).trace freshBootloader [strayAcknowledgement],
        InStep .bare transition) ∧
      ¬ ∀ transition ∈ (machine .bare).trace freshApplication [emptyTransaction],
        InStep .bare transition := by
  constructor
  · intro inStep
    have silent : ((machine .bare).fire freshBootloader strayAcknowledgement).output = [] := by
      decide +kernel
    obtain ⟨frame, answered⟩ := (inStep _ (List.mem_singleton.mpr rfl) _ _ _ rfl trivial).2
      (List.cons_ne_nil _ _) (fun leaves => leaves _ _ rfl)
    cases silent.symm.trans answered
  · intro inStep
    have answered : ((machine .bare).fire freshApplication emptyTransaction).output =
        [[0, 2, 7, 0]] := by decide +kernel
    have silent := (inStep _ (List.mem_singleton.mpr rfl) _ _ _ rfl rfl).1 rfl
    cases silent.symm.trans answered

end PrimeBle.Spi
