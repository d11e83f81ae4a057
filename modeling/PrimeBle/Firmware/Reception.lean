import PrimeBle.Firmware.Steps
import PrimeBle.Library.Ledger

/-! # Received data

The radio side puts packets into a bounded queue, marks a loss and pulls the
interrupt pin low; the host side takes packets out, reads and clears the mark and
releases the pin when it finds the queue empty. What one step does to the three of
them is one of a few exchanges (`Firmware.step_exchange`). So no packet is
reordered, duplicated or lost without being reported, and the pin is low as long
as data waits (`Firmware.reception`).
-/

namespace PrimeBle.Firmware

open HostProtocol

/-- The packet an event brings to the service: the peer writes while its connection
is served. -/
def arrival (state : State) : Event → Option Message
  | .background (.rxWrite data) =>
      match state.task with
      | .serving connection =>
          if state.power = .running ∧ state.link = some connection then some data else none
      | _ => none
  | _ => none

/-- The payload of a `ReceivedData` response. -/
def handedOver : Option HostProtocolMessage → Option Message
  | some (.bluetooth (.receivedData data)) => some data
  | _ => none

/-- The overflow flag of a status response. -/
def reportedOverflow : Option HostProtocolMessage → Option Bool
  | some (.bluetooth (.status status)) => some status.queueOverflow
  | _ => none

/-- The queue, the mark of a loss and the pin are left alone. -/
structure SameMailbox (before after : State) : Prop where
  queue : after.btDataRx.items = before.btDataRx.items
  overflow : after.btDataRxOverflow = before.btDataRxOverflow
  pin : after.irqOutPinHigh = before.irqOutPinHigh

/-- What a packet and a response do to the queue, the mark and the pin. -/
inductive Exchange (before : State) : Option Message → Option HostProtocolMessage → State → Prop
  | silent {response : Option HostProtocolMessage} {after : State}
      (same : SameMailbox before after) (noData : handedOver response = none)
      (noStatus : reportedOverflow response = none) : Exchange before none response after
  | queued {data : Message} {after : State}
      (room : before.btDataRx.items.length < btMaxNumPkt)
      (queue : after.btDataRx.items = before.btDataRx.items ++ [data])
      (overflow : after.btDataRxOverflow = before.btDataRxOverflow)
      (pin : after.irqOutPinHigh = false) : Exchange before (some data) none after
  | dropped {data : Message} {after : State}
      (full : ¬ before.btDataRx.items.length < btMaxNumPkt)
      (queue : after.btDataRx.items = before.btDataRx.items)
      (overflow : after.btDataRxOverflow = true)
      (pin : after.irqOutPinHigh = false) : Exchange before (some data) none after
  | handed {data : Message} {after : State}
      (queue : before.btDataRx.items = data :: after.btDataRx.items)
      (overflow : after.btDataRxOverflow = before.btDataRxOverflow)
      (pin : after.irqOutPinHigh = before.irqOutPinHigh) :
      Exchange before none (some (.bluetooth (.receivedData data))) after
  | drained {after : State} (empty : before.btDataRx.items = [])
      (queue : after.btDataRx.items = [])
      (overflow : after.btDataRxOverflow = before.btDataRxOverflow) :
      Exchange before none (some (.bluetooth .noReceivedData)) after
  | reported {status : BluetoothStatus} {after : State}
      (shown : status.queueOverflow = before.btDataRxOverflow)
      (queue : after.btDataRx.items = before.btDataRx.items)
      (overflow : after.btDataRxOverflow = false)
      (pin : after.irqOutPinHigh = before.irqOutPinHigh) :
      Exchange before none (some (.bluetooth (.status status))) after

theorem SameMailbox.refl (state : State) : SameMailbox state state := ⟨rfl, rfl, rfl⟩

theorem Handled.exchange {state : State} {msg : Bluetooth}
    {answer : State × HostProtocolMessage} (handled : Handled state msg answer) :
    Exchange state none (some answer.2) answer.1 := by
  cases handled with
  | reports radio => exact .reported rfl rfl rfl rfl
  | hands taken =>
      rcases state.btDataRx.tryReceive_cases with ⟨_, none⟩ | ⟨data, rest, some, queue⟩
      · cases none.symm.trans taken
      · cases some.symm.trans taken
        exact .handed queue rfl rfl
  | drains empty =>
      rcases state.btDataRx.tryReceive_cases with ⟨queue, _⟩ | ⟨data, rest, some, _⟩
      · exact .drained queue queue rfl
      · cases some.symm.trans empty
  | _ => exact .silent ⟨rfl, rfl, rfl⟩ rfl rfl

theorem commsTask_exchange (hmac : HmacSha256) (uicr : Uicr) (context : CommsContext)
    (radio : RadioReadings) (state : State) (request : Request) :
    Exchange state none (commsTask hmac uicr context radio state request).2
      (commsTask hmac uicr context radio state request).1 := by
  cases request with
  | none => exact .silent (.refl state) rfl rfl
  | some msg =>
      cases msg with
      | bluetooth msg => exact (bluetoothHandler_handled context radio state msg).exchange
      | challengeRequest nonce =>
          rw [commsTask_challengeRequest]
          simp only [hmacChallengeResponse, HmacSha256.newFromSlice_eq]
          split
          · exact .silent (.refl state) rfl rfl
          · exact .silent (.refl state) rfl rfl
      | _ => exact .silent ⟨rfl, rfl, rfl⟩ rfl rfl

/-- The BLE task does not look at received data. -/
theorem sameMailbox_runBluetooth (softDevice : SoftDevice) (state : State) :
    SameMailbox state (runBluetooth softDevice state).1 := by
  obtain ⟨_, _, _, _, _, same⟩ := runBluetooth_moves softDevice state
  rw [same]
  exact ⟨rfl, rfl, rfl⟩

/-- A packet for the service is queued or dropped. -/
theorem nusHandle_exchange (state : State) (data : Message) :
    Exchange state (some data) none (nusHandle state data) := by
  simp only [nusHandle]
  rcases state.btDataRx.trySend_cases data with ⟨room, next, sent, queue⟩ | ⟨full, refused⟩
  · rw [sent]
    exact .queued room queue rfl rfl
  · rw [refused]
    exact .dropped full rfl rfl rfl

/-- **What one step does to received data.** -/
theorem step_exchange (platform : Platform) (uicr : Uicr) (state : State) (event : Event) :
    Exchange state (arrival state event) (step platform uicr state event).2.response
      (step platform uicr state event).1 := by
  by_cases running : state.power = .running
  · cases event with
    | request radio request =>
        rw [step_request platform uicr running]
        exact commsTask_exchange platform.hmac uicr platform.context radio state request
    | background event =>
        rw [step_background platform uicr running]
        cases event with
        | poll => exact .silent (sameMailbox_runBluetooth platform.softDevice state) rfl rfl
        | linkEnds => exact .silent ⟨rfl, rfl, rfl⟩ rfl rfl
        | peerConnects =>
            obtain ⟨_, _, _, _, connected⟩ := peerConnects_eq state
            simp only [backgroundStep, connected]
            exact .silent ⟨rfl, rfl, rfl⟩ rfl rfl
        | rxWrite data =>
            cases suspended : state.task with
            | serving connection =>
                simp only [backgroundStep, rxWrite, arrival, suspended, running, true_and]
                split
                · exact nusHandle_exchange state data
                · exact .silent (.refl state) rfl rfl
            | waiting =>
                simp only [backgroundStep, rxWrite, arrival, suspended]
                exact .silent (.refl state) rfl rfl
            | advertising advertisement accepted =>
                simp only [backgroundStep, rxWrite, arrival, suspended]
                exact .silent (.refl state) rfl rfl
  · rw [step_stopped platform uicr running]
    have nothing : arrival state event = none := by
      simp only [arrival]
      split
      · split
        · simp only [running, false_and, ↓reduceIte]
        · rfl
      · rfl
    rw [nothing]
    exact .silent (.refl state) rfl rfl

/-- The packet that a step takes into the queue. -/
def accepted (transition : Machine.Transition State Event Output) : List Message :=
  match arrival transition.source transition.event with
  | some data => if transition.source.btDataRx.items.length < btMaxNumPkt then [data] else []
  | none => []

/-- The packet that a step hands to the host. -/
def handed (transition : Machine.Transition State Event Output) : List Message :=
  (handedOver transition.output.response).toList

/-- A packet arrives and finds the queue full. -/
def Loses (transition : Machine.Transition State Event Output) : Prop :=
  (arrival transition.source transition.event).isSome ∧
    ¬ transition.source.btDataRx.items.length < btMaxNumPkt

/-- A status is reported. -/
def ReportsStatus (transition : Machine.Transition State Event Output) : Prop :=
  (reportedOverflow transition.output.response).isSome

/-- The host asks for the status. -/
abbrev Event.getStatus (radio : RadioReadings) : Event :=
  .request radio (some (.bluetooth .getStatus))

/-- A loss is marked. -/
def Marked (state : State) : Prop := state.btDataRxOverflow = true

/-- The pin is low while data waits. -/
def PinSignals (state : State) : Prop := state.btDataRx.items ≠ [] → state.irqOutPinHigh = false

section Runs

variable (platform : Platform) (uicr : Uicr)

/-- A step conserves packets and their order. -/
theorem step_conserves (state : State) (event : Event) :
    state.btDataRx.items ++ accepted ((machine platform uicr).fire state event) =
      handed ((machine platform uicr).fire state event) ++
        (step platform uicr state event).1.btDataRx.items := by
  have exchange := step_exchange platform uicr state event
  simp only [accepted, handed, Machine.fire_source, Machine.fire_event, Machine.fire_output,
    machine_step]
  generalize arrival state event = packet at exchange
  generalize (step platform uicr state event).2.response = response at exchange
  generalize (step platform uicr state event).1 = next at exchange
  cases exchange with
  | silent same noData => simp only [noData, same.queue, Option.toList_none, List.append_nil,
      List.nil_append]
  | queued room queue =>
      simp only [room, queue, handedOver, ↓reduceIte, Option.toList_none, List.nil_append]
  | dropped full queue =>
      simp only [full, queue, handedOver, ↓reduceIte, Option.toList_none, List.nil_append,
        List.append_nil]
  | handed queue =>
      simp only [queue, handedOver, Option.toList_some, List.append_nil, List.singleton_append]
  | drained empty queue =>
      simp only [empty, queue, handedOver, Option.toList_none, List.append_nil]
  | reported _ queue =>
      simp only [queue, handedOver, Option.toList_none, List.append_nil, List.nil_append]

/-- A step marks a loss, and reporting the status takes the mark away. -/
theorem step_overflow (state : State) (event : Event) :
    Marked (step platform uicr state event).1 ↔
      Loses ((machine platform uicr).fire state event) ∨
        Marked state ∧
          ¬ ReportsStatus ((machine platform uicr).fire state event) := by
  have exchange := step_exchange platform uicr state event
  simp only [Marked, Loses, ReportsStatus, Machine.fire_source, Machine.fire_event,
    Machine.fire_output, machine_step]
  generalize arrival state event = packet at exchange
  generalize (step platform uicr state event).2.response = response at exchange
  generalize (step platform uicr state event).1 = next at exchange
  cases exchange with
  | silent same _ noStatus => simp [noStatus, same.overflow]
  | queued room _ overflow => simp [room, overflow, reportedOverflow]
  | dropped full _ overflow => simp [full, overflow]
  | handed _ overflow => simp [overflow, reportedOverflow]
  | drained _ _ overflow => simp [overflow, reportedOverflow]
  | reported _ _ overflow => simp [overflow, reportedOverflow]

theorem step_pinSignals {state : State} (signals : PinSignals state) (event : Event) :
    PinSignals (step platform uicr state event).1 := by
  have exchange := step_exchange platform uicr state event
  generalize arrival state event = packet at exchange
  generalize (step platform uicr state event).2.response = response at exchange
  generalize (step platform uicr state event).1 = next at exchange
  unfold PinSignals at signals ⊢
  intro waits
  cases exchange with
  | silent same => exact same.pin.trans (signals (same.queue ▸ waits))
  | queued _ _ _ pin => exact pin
  | dropped _ _ _ pin => exact pin
  | handed queue _ pin =>
      refine pin.trans (signals ?_)
      rw [queue]
      exact List.cons_ne_nil _ _
  | drained _ queue => exact absurd queue waits
  | reported _ queue _ pin => exact pin.trans (signals (queue ▸ waits))

/-- The pin is released only when the host finds the queue empty. -/
theorem step_releases {state : State} {event : Event} (low : state.irqOutPinHigh = false)
    (high : (step platform uicr state event).1.irqOutPinHigh = true) :
    (step platform uicr state event).2.response = some (.bluetooth .noReceivedData) ∧
      state.btDataRx.items = [] ∧ (step platform uicr state event).1.btDataRx.items = [] := by
  have exchange := step_exchange platform uicr state event
  generalize arrival state event = packet at exchange
  generalize (step platform uicr state event).2.response = response at exchange ⊢
  generalize (step platform uicr state event).1 = next at exchange high ⊢
  have still : next.irqOutPinHigh ≠ state.irqOutPinHigh := by
    rw [low, high]
    exact Bool.noConfusion
  cases exchange with
  | silent same => exact absurd same.pin still
  | queued _ _ _ pin => exact absurd (pin.trans low.symm) still
  | dropped _ _ _ pin => exact absurd (pin.trans low.symm) still
  | handed _ _ pin => exact absurd pin still
  | drained empty queue => exact ⟨rfl, empty, queue⟩
  | reported _ _ _ pin => exact absurd pin still

/-- The status is answered with the mark as it stands. -/
theorem step_getStatus {state : State} (running : state.power = .running)
    (radio : RadioReadings) :
    ∃ status, (step platform uicr state (.getStatus radio)).2.response =
        some (.bluetooth (.status status)) ∧
      status.queueOverflow = state.btDataRxOverflow := by
  rw [step_request platform uicr running]
  exact ⟨(getStatus radio state).2, rfl, rfl⟩

end Runs

/-- **Reception.** Along every run: the packets handed to the host are, in order and
once each, a prefix of those that arrived while the queue had room, and the rest is
the queue; a status reports an overflow exactly when a packet was dropped since the
status before it; and the pin is low while packets wait, and is released only in a
step that answers that there are none. -/
theorem reception (platform : Platform) (uicr : Uicr) (events : List Event) :
    ((machine platform uicr).trace .start events).flatMap accepted =
      ((machine platform uicr).trace .start events).flatMap handed ++
        ((machine platform uicr).run .start events).btDataRx.items ∧
    (∀ before radio after, events = before ++ .getStatus radio :: after →
      ((machine platform uicr).run .start before).power = .running →
      ∃ status, (step platform uicr ((machine platform uicr).run .start before)
          (.getStatus radio)).2.response = some (.bluetooth (.status status)) ∧
        (status.queueOverflow = true ↔
          ∃ first lossy later, before = first ++ lossy :: later ∧
            Loses ((machine platform uicr).fire ((machine platform uicr).run .start first) lossy) ∧
            ∀ transition ∈ (machine platform uicr).trace
              ((machine platform uicr).run .start (first ++ [lossy])) later,
              ¬ ReportsStatus transition)) ∧
    (((machine platform uicr).run .start events).btDataRx.items ≠ [] →
      ((machine platform uicr).run .start events).irqOutPinHigh = false) ∧
    ∀ transition ∈ (machine platform uicr).trace .start events,
      transition.source.irqOutPinHigh = false → transition.target.irqOutPinHigh = true →
        transition.output.response = some (.bluetooth .noReceivedData) ∧
          transition.source.btDataRx.items = [] ∧ transition.target.btDataRx.items = [] := by
  refine ⟨?_, ?_, ?_, ?_⟩
  · exact (machine platform uicr).queue_conserved (step_conserves platform uicr) .start events
  · rintro before radio after rfl running
    obtain ⟨status, response, shown⟩ := step_getStatus platform uicr running radio
    refine ⟨status, response, ?_⟩
    rw [shown]
    have down : ¬ Marked State.start := Bool.false_ne_true
    exact (machine platform uicr).flag_iff (step_overflow platform uicr) down before
  · have kept : ∀ state event, PinSignals state →
        PinSignals ((machine platform uicr).step state event).1 :=
      fun state event signals => step_pinSignals platform uicr signals event
    have start : PinSignals State.start := fun waits => absurd rfl waits
    exact Machine.run_invariant kept start events
  · intro transition member low high
    obtain ⟨before, event, after, -, rfl⟩ := (machine platform uicr).mem_trace_iff.mp member
    exact step_releases platform uicr low high

end PrimeBle.Firmware
