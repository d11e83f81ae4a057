import PrimeBle.Firmware.Mailbox
import PrimeBle.Spi.Lockstep

/-! # Received data as the host sees it

Through the frames it writes to the bus, a device is a bounded mailbox of packets,
over resets, updates and boots, whatever else the host asks for and the radio does
(`Spi.run_mailbox`). So a host that goes on asking for received data, while no peer
writes, is handed every packet that waits, in order, and then told that there is none,
and the interrupt pin is released (`Spi.drained`).
-/

namespace PrimeBle.Spi

open HostProtocol

/-- What a host makes of a frame: it reads the length, and then as many bytes. -/
def receive : List UInt8 → Option HostProtocolMessage
  | high :: low :: rest => fromBytes (announced high low) rest
  | _ => none

/-- What the host hears of received data in what a step writes. -/
def heard : List (List UInt8) → Mailbox.Answer Message
  | [frame] => Firmware.mailAnswer (receive frame)
  | _ => .silence

/-- The received data of a device. The bootloader has none. -/
def mailbox : Device → Mailbox Message
  | .bootloader _ => .empty
  | .application _ _ app => Firmware.mailbox app

/-- What an input is to the application. -/
def Input.event : Input → Option Firmware.Event
  | .transaction _ radio bytes => some (.request radio (fromBytes maxMsgSize bytes))
  | .background event => some (.background event)
  | .reset => none

/-- What a step does with received data. -/
def mailUse (transition : Machine.Transition Device Input (List (List UInt8))) :
    Mailbox.Use Message :=
  match transition.source with
  | .bootloader _ => .pass
  | .application _ _ app =>
      match transition.target with
      | .bootloader _ => .replace
      | .application _ _ _ =>
          match transition.event.event with
          | some event => Firmware.mailUse app event
          | none => .pass

section Frames

theorem sized_of_short {response : HostProtocolMessage} (short : response.Short) :
    response.Sized := by
  have version : ∀ text : String, text.utf8ByteSize ≤ 20 → text.utf8ByteSize < 2 ^ 32 :=
    fun text few => Nat.lt_of_le_of_lt few (by decide)
  cases response with
  | bluetooth msg =>
      cases msg with
      | ackFirmwareVersion text => exact version text short
      | _ => exact trivial
  | bootloader msg =>
      cases msg with
      | ackFirmwareVersion text => exact version text short
      | ackBootloaderVersion text => exact version text short
      | writeFirmwareBlock blockIdx blockData => exact Nat.lt_of_le_of_lt short (by decide)
      | _ => exact trivial
  | _ => exact trivial

/-- A response is written as one frame, from which the host receives it. -/
theorem receive_written {response : HostProtocolMessage} (answer : ShortResponse response) :
    ∃ frame, written (some response) = [frame] ∧ receive frame = some response := by
  obtain ⟨high, low, sent, length⟩ := answer.framed.sent
  have decoded := fromBytes_encode (sized_of_short answer.short) (Nat.le_refl _) []
  rw [List.append_nil] at decoded
  refine ⟨high :: low :: Encode.hostProtocolMessage response, ?_, ?_⟩
  · simp only [written, sent, Option.toList_some]
  · simp only [receive, length, decoded]

/-- The host receives what was sent. -/
theorem heard_written {response : Option HostProtocolMessage}
    (short : ∀ message, response = some message → ShortResponse message) :
    heard (written response) = Firmware.mailAnswer response := by
  cases response with
  | none => rfl
  | some message =>
      obtain ⟨frame, sent, received⟩ := receive_written (short message rfl)
      simp only [sent, heard, received]

end Frames

section Bootloader

variable (platform : Device.Platform) (loop : Boot.Loop) (hw : Boot.Peripherals)

theorem mailbox_ofOutcome (outcome : Boot.Outcome) :
    mailbox (Device.ofOutcome outcome).1 = .empty := by
  cases outcome with
  | _ => rfl

/-- The bootloader says nothing of received data. -/
theorem dispatch_mailAnswer (request : Request) :
    Firmware.mailAnswer (sentBy (Boot.dispatch platform.boot hw loop request)) = .silence := by
  cases request with
  | none => rfl
  | some msg =>
      cases msg with
      | bootloader msg =>
          cases msg with
          | bootFirmware trust =>
              change Firmware.mailAnswer
                (sentBy (Boot.bootFirmware platform.boot hw.customer loop trust)) = _
              simp only [Boot.bootFirmware]
              split
              · rfl
              · rfl
              · rfl
          | _ => rfl
      | challengeRequest nonce =>
          change Firmware.mailAnswer (some (Boot.challengeRequest platform.boot loop nonce)) = _
          simp only [Boot.challengeRequest]
          split
          · split
            · rfl
            · rfl
          · rfl
      | _ => rfl

theorem turn_mailAnswer (bytes : List UInt8) :
    Firmware.mailAnswer (sentBy (Boot.turn platform.boot hw loop (some bytes))) = .silence := by
  cases bytes with
  | nil => rfl
  | cons byte bytes => exact dispatch_mailAnswer platform loop hw _

theorem turn_response {bytes : List UInt8} {response : HostProtocolMessage}
    (sent : sentBy (Boot.turn platform.boot hw loop (some bytes)) = some response) :
    ShortResponse response := by
  cases bytes with
  | nil => cases sent
  | cons byte bytes => exact dispatch_response platform.boot hw loop sent

end Bootloader

section Application

variable (platform : Device.Platform) (flash : Boot.Flash) (uicr : Uicr) (app : Firmware.State)

theorem step_response {event : Firmware.Event} {response : HostProtocolMessage}
    (sent : (Firmware.step platform.firmware uicr app event).2.response = some response) :
    ShortResponse response := by
  by_cases running : app.power = .running
  · cases event with
    | request radio request =>
        rw [Firmware.step_request platform.firmware uicr running] at sent
        exact commsTask_response _ uicr _ radio app sent
    | background event =>
        rw [Firmware.step_background platform.firmware uicr running] at sent
        cases sent
  · rw [Firmware.step_stopped platform.firmware uicr running] at sent
    cases sent

/-- What the running application makes of an input. -/
theorem serve_event {input : Input} {event : Firmware.Event} (is : input.event = some event) :
    serve platform (.application flash uicr app) input =
      Device.ofApplication flash uicr (Firmware.step platform.firmware uicr app event) := by
  cases input with
  | transaction hw radio bytes =>
      cases is
      rfl
  | background background =>
      cases is
      rfl
  | reset => cases is

theorem refines_application (input : Input) :
    (Mailbox.machine Firmware.btMaxNumPkt).step (mailbox (.application flash uicr app))
        (mailUse ((machine platform).fire (.application flash uicr app) input)) =
      (mailbox ((machine platform).step (.application flash uicr app) input).1,
        heard ((machine platform).step (.application flash uicr app) input).2) := by
  cases is : input.event with
  | none =>
      cases input with
      | transaction hw radio bytes => cases is
      | background event => cases is
      | reset => rfl
  | some event =>
      have served := serve_event platform flash uicr app is
      rcases Device.ofApplication_cases flash uicr
        (Firmware.step platform.firmware uicr app event) with left | stays
      · simp only [mailUse, Machine.fire_source, Machine.fire_target, machine, served, left]
        rfl
      · have kept := Firmware.step_mailbox platform.firmware uicr app event
        have sent : heard (written (Firmware.step platform.firmware uicr app event).2.response) =
            Firmware.mailAnswer (Firmware.step platform.firmware uicr app event).2.response :=
          heard_written fun _ => step_response platform uicr app
        simp only [mailUse, Machine.fire_source, Machine.fire_target, Machine.fire_event, machine,
          served, stays, is, sent]
        exact kept

end Application

section Runs

variable (platform : Device.Platform)

/-- **Steps.** A step of the device is a step of the mailbox, and the host hears the
answer. -/
theorem refines_device (device : Device) (input : Input) :
    (Mailbox.machine Firmware.btMaxNumPkt).step (mailbox device)
        (mailUse ((machine platform).fire device input)) =
      (mailbox ((machine platform).step device input).1,
        heard ((machine platform).step device input).2) := by
  cases device with
  | application flash uicr app => exact refines_application platform flash uicr app input
  | bootloader loop =>
      cases input with
      | transaction hw radio bytes =>
          have sent : heard (written (sentBy (Boot.turn platform.boot hw loop (some bytes)))) =
              Firmware.mailAnswer (sentBy (Boot.turn platform.boot hw loop (some bytes))) :=
            heard_written fun _ => turn_response platform loop hw
          have answer := turn_mailAnswer platform loop hw bytes
          simp only [machine, serve, mailbox_ofOutcome, ofOutcome_response, sent, answer]
          rfl
      | background event => rfl
      | reset => rfl

/-- **A device is a mailbox.** Along every run over transactions of any content,
radio events and resets, the received data of the device is a bounded mailbox, and
in the frames that are written the host hears the mailbox's answers. -/
theorem run_mailbox (device : Device) (inputs : List Input) :
    (Mailbox.machine Firmware.btMaxNumPkt).run (mailbox device)
        (((machine platform).trace device inputs).map mailUse) =
      mailbox ((machine platform).run device inputs) ∧
    ((Mailbox.machine Firmware.btMaxNumPkt).trace (mailbox device)
        (((machine platform).trace device inputs).map mailUse)).map Machine.Transition.output =
      ((machine platform).trace device inputs).map fun transition => heard transition.output :=
  (machine platform).run_refines (refines_device platform) device inputs

end Runs

/-- The application runs. -/
def Alive : Device → Prop
  | .bootloader _ => False
  | .application _ _ app => app.power = .running

instance : (device : Device) → Decidable (Alive device)
  | .bootloader _ => inferInstanceAs (Decidable False)
  | .application _ _ app => inferInstanceAs (Decidable (app.power = .running))

/-- The host asks for received data. -/
def Input.fetches : Input → Bool
  | .transaction _ _ bytes =>
      fromBytes maxMsgSize bytes == some (.bluetooth .getReceivedData)
  | .background _ | .reset => false

section Drain

variable {platform : Device.Platform}

theorem messageUse_receives (msg : Bluetooth) :
    (Firmware.messageUse msg).receives = true ∧
      (Firmware.messageUse msg).takes =
        (some (HostProtocolMessage.bluetooth msg) == some (.bluetooth .getReceivedData)) := by
  cases msg with
  | _ => exact ⟨rfl, rfl⟩

theorem request_receives {app : Firmware.State} (running : app.power = .running)
    (radio : Firmware.RadioReadings) (request : Request) :
    (Firmware.mailUse app (.request radio request)).receives = true ∧
      (Firmware.mailUse app (.request radio request)).takes =
        (request == some (.bluetooth .getReceivedData)) := by
  cases request with
  | none => exact ⟨rfl, rfl⟩
  | some msg =>
      cases msg with
      | bluetooth msg =>
          have use : Firmware.mailUse app (.request radio (some (.bluetooth msg))) =
              Firmware.messageUse msg := if_pos running
          rw [use]
          exact messageUse_receives msg
      | _ => exact ⟨rfl, rfl⟩

/-- While the application runs and no peer writes, only the host uses the mailbox. -/
theorem mailUse_receives {device : Device} {input : Input}
    (here : Alive device) (there : Alive ((machine platform).step device input).1)
    (quiet : ∀ data, input ≠ .background (.rxWrite data)) :
    (mailUse ((machine platform).fire device input)).receives = true ∧
      (mailUse ((machine platform).fire device input)).takes = input.fetches := by
  cases device with
  | bootloader loop => exact here.elim
  | application flash uicr app =>
      simp only [mailUse, Machine.fire_source, Machine.fire_target, Machine.fire_event]
      cases target : ((machine platform).step (.application flash uicr app) input).1 with
      | bootloader loop =>
          rw [target] at there
          exact there.elim
      | application flash uicr next =>
          cases input with
          | transaction hw radio bytes => exact request_receives here radio _
          | reset => exact ⟨rfl, rfl⟩
          | background event =>
              cases event with
              | rxWrite data => exact absurd rfl (quiet data)
              | _ => exact ⟨rfl, rfl⟩

/-- **Draining.** While the application runs and no peer writes, whatever else
happens, the answers to the requests for received data are the packets that waited,
oldest first, and then that there are none; the packets that were not asked for still
wait; and once the host was told that there are none, the pin is released. -/
theorem drained (device : Device) (inputs : List Input)
    (alive : ∀ transition ∈ (machine platform).trace device inputs,
      Alive transition.source ∧ Alive transition.target)
    (quiet : ∀ data, .background (.rxWrite data) ∉ inputs) :
    (((machine platform).trace device inputs).map fun transition =>
        heard transition.output).filterMap Mailbox.Answer.taken =
      Mailbox.outcomes (mailbox device).items (inputs.countP Input.fetches) ∧
    (mailbox ((machine platform).run device inputs)).items =
      (mailbox device).items.drop (inputs.countP Input.fetches) ∧
    ((mailbox device).items.length < inputs.countP Input.fetches →
      (mailbox ((machine platform).run device inputs)).raised = false) := by
  have uses : ∀ transition ∈ (machine platform).trace device inputs,
      (mailUse transition).receives = true ∧
        (mailUse transition).takes = transition.event.fetches := by
    intro transition member
    obtain ⟨here, there⟩ := alive transition member
    have event := (machine platform).event_mem_of_mem_trace member
    obtain ⟨before, input, after, rfl, rfl⟩ := (machine platform).mem_trace_iff.mp member
    refine mailUse_receives here there fun data written => ?_
    subst written
    exact quiet data event
  have receives : ∀ use ∈ ((machine platform).trace device inputs).map mailUse,
      use.receives = true := by
    intro use member
    obtain ⟨transition, taken, rfl⟩ := List.mem_map.mp member
    exact (uses transition taken).1
  have count : (((machine platform).trace device inputs).map mailUse).countP Mailbox.Use.takes =
      inputs.countP Input.fetches := by
    calc (((machine platform).trace device inputs).map mailUse).countP Mailbox.Use.takes
      _ = ((machine platform).trace device inputs).countP
            fun transition => transition.event.fetches := by
          rw [List.countP_map]
          exact List.countP_congr fun transition member => by
            rw [Function.comp_apply, (uses transition member).2]
      _ = (((machine platform).trace device inputs).map
            Machine.Transition.event).countP Input.fetches := by
          rw [List.countP_map]
          rfl
      _ = inputs.countP Input.fetches := by rw [Machine.map_event_trace]
  obtain ⟨final, answers⟩ :=
    (machine platform).run_refines (refines_device platform) device inputs
  obtain ⟨taken, left, lowered⟩ :=
    Mailbox.takes_all Firmware.btMaxNumPkt (mailbox device) _ receives
  rw [answers, count] at taken
  rw [final, count] at left lowered
  exact ⟨taken, left, fun more => lowered (Or.inr more)⟩

end Drain

/-- An application in which two packets wait. -/
def twoWaiting : Device :=
  .application (fun _ => 0xFF) (fun _ => 0)
    { Firmware.State.start with
      btDataRx := ⟨[⟨[7, 7, 7], by decide⟩, ⟨[8, 8, 8, 8], by decide⟩], by decide⟩
      irqOutPinHigh := false }

/-- The host asks three times, with a poll of the BLE task and a link end between. -/
def threeFetches : List Input :=
  let fetch := .transaction ⟨Boot.nvmc, .nor⟩ ⟨none, false⟩ [0, 11]
  [fetch, .background .poll, fetch, .background .linkEnds, fetch]

theorem drained_twoWaiting :
    (((machine .bare).trace twoWaiting threeFetches).map fun transition =>
        heard transition.output).filterMap Mailbox.Answer.taken =
      Mailbox.outcomes (mailbox twoWaiting).items (threeFetches.countP Input.fetches) ∧
    (mailbox ((machine .bare).run twoWaiting threeFetches)).items =
      (mailbox twoWaiting).items.drop (threeFetches.countP Input.fetches) ∧
    ((mailbox twoWaiting).items.length < threeFetches.countP Input.fetches →
      (mailbox ((machine .bare).run twoWaiting threeFetches)).raised = false) :=
  drained twoWaiting threeFetches (by decide +kernel) (by simp [threeFetches])

end PrimeBle.Spi
