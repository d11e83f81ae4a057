import PrimeBle.Firmware.Reception
import PrimeBle.Library.Mailbox

/-! # The application as a mailbox

Whatever else the application does, its received data is a bounded mailbox between
the peer and the host: a packet of a served connection is put into it, a request
for received data takes from it, a status request asks for losses, and the
interrupt pin is its line. Each step of the application is the step of the mailbox
(`Firmware.step_mailbox`).
-/

namespace PrimeBle.Firmware

open HostProtocol

/-- The received data of a state. The pin is low when the line is raised. -/
def mailbox (state : State) : Mailbox Message where
  items := state.btDataRx.items
  lost := state.btDataRxOverflow
  raised := !state.irqOutPinHigh

/-- What a message does with received data. -/
def messageUse : Bluetooth → Mailbox.Use Message
  | .getReceivedData => .take
  | .getStatus => .ask
  | _ => .pass

/-- What an event does with received data. -/
def mailUse (state : State) (event : Event) : Mailbox.Use Message :=
  match arrival state event with
  | some data => .put data
  | none =>
      match event with
      | .request _ (some (.bluetooth msg)) =>
          if state.power = .running then messageUse msg else .pass
      | _ => .pass

/-- What a response says about received data. -/
def mailAnswer : Option HostProtocolMessage → Mailbox.Answer Message
  | some (.bluetooth (.receivedData data)) => .got data
  | some (.bluetooth .noReceivedData) => .nothing
  | some (.bluetooth (.status status)) => .anyLost status.queueOverflow
  | _ => .silence

section Steps

variable {state : State}

theorem bluetoothHandler_mailbox (context : CommsContext) (radio : RadioReadings)
    (state : State) (msg : Bluetooth) :
    (Mailbox.machine btMaxNumPkt).step (mailbox state) (messageUse msg) =
      (mailbox (bluetoothHandler context radio state msg).1,
        mailAnswer (some (bluetoothHandler context radio state msg).2)) := by
  cases msg with
  | getReceivedData =>
      change (mailbox state).take = _
      simp only [bluetoothHandler, Mailbox.take, mailbox]
      rcases state.btDataRx.tryReceive_cases with ⟨empty, none⟩ | ⟨data, rest, some, queue⟩
      · rw [none, empty]
        simp only [mailAnswer, Bool.not_true]
      · rw [some, queue]
        rfl
  | disableChannels chan =>
      simp only [bluetoothHandler]
      split
      · rfl
      · rfl
  | disable =>
      obtain ⟨terminating, asked⟩ := disconnectCurrent_eq state
      simp only [bluetoothHandler, asked]
      rfl
  | disconnect =>
      obtain ⟨terminating, asked⟩ := disconnectCurrent_eq state
      simp only [bluetoothHandler, asked]
      rfl
  | sendData data =>
      simp only [bluetoothHandler]
      split
      · rfl
      · rfl
  | _ => rfl

/-- A packet for the service is put into the mailbox. -/
theorem nusHandle_mailbox (state : State) (data : Message) :
    mailbox (nusHandle state data) = (mailbox state).put btMaxNumPkt data := by
  unfold nusHandle Mailbox.put
  rcases state.btDataRx.trySend_cases data with ⟨room, next, sent, queue⟩ | ⟨full, refused⟩
  · have fits : (mailbox state).items.length < btMaxNumPkt := room
    rw [sent, if_pos fits]
    simp only [mailbox, queue, Bool.not_false]
  · have refuses : ¬ (mailbox state).items.length < btMaxNumPkt := full
    rw [refused, if_neg refuses]
    rfl

/-- What leaves received data alone leaves the mailbox alone. -/
theorem SameMailbox.mailbox_eq {before after : State} (same : SameMailbox before after) :
    mailbox after = mailbox before := by
  simp only [mailbox, same.queue, same.overflow, same.pin]

/-- Nothing arrives once the application has panicked or reset. -/
theorem mailUse_stopped (stopped : state.power ≠ .running) (event : Event) :
    mailUse state event = .pass := by
  have nothing : arrival state event = none := by
    unfold arrival
    split
    · split
      · exact if_neg fun served => stopped served.1
      · rfl
    · rfl
  simp only [mailUse, nothing]
  split
  · exact if_neg stopped
  · rfl

/-- A packet is put into the mailbox if its connection is served, or comes to
nothing. -/
theorem rxWrite_mailbox (running : state.power = .running) (data : Message) :
    (Mailbox.machine btMaxNumPkt).step (mailbox state)
        (mailUse state (.background (.rxWrite data))) =
      (mailbox (rxWrite state data), .silence) := by
  unfold mailUse arrival rxWrite
  cases state.task with
  | waiting => rfl
  | advertising advertisement accepted => rfl
  | serving connection =>
      by_cases up : state.link = some connection
      · simp only [running, up, and_self, ↓reduceIte, nusHandle_mailbox]
        rfl
      · simp only [running, up, and_false, ↓reduceIte]
        rfl

/-- **Steps.** A step of the application is a step of the mailbox, with the same
answer. -/
theorem step_mailbox (platform : Platform) (uicr : Uicr) (state : State) (event : Event) :
    (Mailbox.machine btMaxNumPkt).step (mailbox state) (mailUse state event) =
      (mailbox (step platform uicr state event).1,
        mailAnswer (step platform uicr state event).2.response) := by
  by_cases running : state.power = .running
  · cases event with
    | request radio request =>
        rw [step_request platform uicr running]
        cases request with
        | none => rfl
        | some msg =>
            cases msg with
            | bluetooth msg =>
                have use : mailUse state (.request radio (some (.bluetooth msg))) =
                    messageUse msg := if_pos running
                rw [use, commsTask_bluetooth]
                exact bluetoothHandler_mailbox platform.context radio state msg
            | challengeRequest nonce =>
                rw [commsTask_challengeRequest]
                simp only [hmacChallengeResponse]
                split
                · rfl
                · split
                  · rfl
                  · rfl
            | _ => rfl
    | background event =>
        rw [step_background platform uicr running]
        cases event with
        | poll =>
            have same := sameMailbox_runBluetooth platform.softDevice state
            change (mailbox state, Mailbox.Answer.silence) =
              (mailbox (runBluetooth platform.softDevice state).1, Mailbox.Answer.silence)
            rw [same.mailbox_eq]
        | linkEnds => rfl
        | peerConnects =>
            obtain ⟨_, _, _, _, connected⟩ := peerConnects_eq state
            simp only [backgroundStep, connected]
            rfl
        | rxWrite data => exact rxWrite_mailbox running data
  · rw [step_stopped platform uicr running, mailUse_stopped running]
    rfl

end Steps

end PrimeBle.Firmware
