import PrimeBle.Firmware.System

/-! # What one step of the application can do

A request never moves the BLE task or its connection (`Firmware.commsTask_frame`);
advertising is only ever asked for by a poll, with the settings and the link of
the state polled (`Firmware.step_advertised`). While the link is the one the BLE
task knows (`Firmware.Tracks`), a poll serves that link, starts over or idles
(`Firmware.runBluetoothInner_cases`).
-/

namespace PrimeBle.Firmware

open HostProtocol

/-- What a request leaves alone. -/
structure RequestFrame (request : Request) (before after : State) : Prop where
  task : after.task = before.task
  connection : after.connection = before.connection
  link : after.link = before.link
  switch : request ≠ some (.bluetooth .enable) → request ≠ some (.bluetooth .disable) →
    after.btEnable = before.btEnable ∧ after.btStateCopy = before.btStateCopy
  name : (∀ name, request ≠ some (.bluetooth (.setDeviceName name))) →
    after.deviceName = before.deviceName
  channels : (∀ chan, request ≠ some (.bluetooth (.disableChannels chan))) →
    after.btAdvChan = before.btAdvChan

theorem RequestFrame.refl (request : Request) (state : State) :
    RequestFrame request state state :=
  ⟨rfl, rfl, rfl, fun _ _ => ⟨rfl, rfl⟩, fun _ => rfl, fun _ => rfl⟩

/-- Asking for a disconnection only marks the link. -/
theorem disconnectCurrent_eq (state : State) :
    ∃ terminating, disconnectCurrent state = { state with terminating } := by
  unfold disconnectCurrent State.disconnect
  split
  · split
    · exact ⟨_, rfl⟩
    · exact ⟨_, rfl⟩
  · exact ⟨_, rfl⟩

/-- What a message can do to the state, with the answer to it. -/
inductive Handled (state : State) : Bluetooth → State × HostProtocolMessage → Prop where
  | refuses (chan : AdvChan) :
      Handled state (.disableChannels chan) (state, .bluetooth .nackDisableChannels)
  | disablesChannels (chan : AdvChan) :
      Handled state (.disableChannels chan)
        ({ state with btAdvChan := chan.bits, btAdvChanged := true },
          .bluetooth .ackDisableChannels)
  | enables :
      Handled state .enable
        ({ state with btEnable := some true, btStateCopy := true }, .bluetooth .ackEnable)
  | disables (terminating : Bool) :
      Handled state .disable
        ({ state with terminating, btEnable := some false, btStateCopy := false },
          .bluetooth .ackDisable)
  | disconnects (terminating : Bool) :
      Handled state .disconnect ({ state with terminating }, .bluetooth .ackDisconnect)
  | reports (radio : RadioReadings) :
      Handled state .getStatus
        ((getStatus radio state).1, .bluetooth (.status (getStatus radio state).2))
  | hands {data : Message} {btDataRx : Channel Message btMaxNumPkt}
      (taken : state.btDataRx.tryReceive = some (data, btDataRx)) :
      Handled state .getReceivedData
        ({ state with btDataRx }, .bluetooth (.receivedData data))
  | drains (empty : state.btDataRx.tryReceive = none) :
      Handled state .getReceivedData
        ({ state with irqOutPinHigh := true }, .bluetooth .noReceivedData)
  | sends (data : Message) (response : SendDataResponse) :
      Handled state (.sendData data) (state, .bluetooth (.sendDataResponse response))
  | setsPower (power : TxPower) :
      Handled state (.setTxPower power)
        ({ state with txPwrValue := power.toInt8, btAdvChanged := true }, .bluetooth .ackTxPower)
  | setsName (name : DeviceName) :
      Handled state (.setDeviceName name)
        ({ state with deviceName := name, btAdvChanged := true }, .bluetooth .ackSetDeviceName)
  | version : Handled state .getFirmwareVersion (state, .bluetooth (.ackFirmwareVersion "4.0.0"))
  | address (address : Vector UInt8 6) :
      Handled state .getBtAddress (state, .bluetooth (.ackBtAddress address))
  | deviceId (deviceId : Vector UInt8 8) :
      Handled state .getDeviceId (state, .bluetooth (.ackDeviceId deviceId))
  | echoes (data : Message) :
      Handled state (.echo data) (state, .bluetooth (.echoResponse data))
  | inappropriate {msg : Bluetooth} (noPower : ∀ power, msg ≠ .setTxPower power) :
      Handled state msg (state, .inappropriateMessage (getState state))

/-- **What the handler does.** -/
theorem bluetoothHandler_handled (context : CommsContext) (radio : RadioReadings)
    (state : State) (msg : Bluetooth) :
    Handled state msg (bluetoothHandler context radio state msg) := by
  cases msg with
  | disableChannels chan =>
      simp only [bluetoothHandler]
      split
      · exact .refuses chan
      · exact .disablesChannels chan
  | enable => exact .enables
  | disable =>
      obtain ⟨terminating, asked⟩ := disconnectCurrent_eq state
      simp only [bluetoothHandler, asked]
      exact .disables terminating
  | disconnect =>
      obtain ⟨terminating, asked⟩ := disconnectCurrent_eq state
      simp only [bluetoothHandler, asked]
      exact .disconnects terminating
  | getStatus => exact .reports radio
  | getReceivedData =>
      simp only [bluetoothHandler]
      split
      · next taken => exact .hands taken
      · next empty => exact .drains empty
  | sendData data =>
      simp only [bluetoothHandler]
      split
      · exact .sends data _
      · exact .sends data _
  | setTxPower power => exact .setsPower power
  | setDeviceName name => exact .setsName name
  | getFirmwareVersion => exact .version
  | getBtAddress => exact .address _
  | getDeviceId => exact .deviceId _
  | echo data => exact .echoes data
  | _ => exact .inappropriate fun _ => Bluetooth.noConfusion

theorem Handled.frame {state : State} {msg : Bluetooth} {answer : State × HostProtocolMessage}
    (handled : Handled state msg answer) :
    RequestFrame (some (.bluetooth msg)) state answer.1 := by
  cases handled with
  | disablesChannels chan =>
      exact ⟨rfl, rfl, rfl, fun _ _ => ⟨rfl, rfl⟩, fun _ => rfl,
        fun other => absurd rfl (other chan)⟩
  | enables =>
      exact ⟨rfl, rfl, rfl, fun other _ => absurd rfl other, fun _ => rfl, fun _ => rfl⟩
  | disables terminating =>
      exact ⟨rfl, rfl, rfl, fun _ other => absurd rfl other, fun _ => rfl, fun _ => rfl⟩
  | setsName name =>
      exact ⟨rfl, rfl, rfl, fun _ _ => ⟨rfl, rfl⟩, fun other => absurd rfl (other name),
        fun _ => rfl⟩
  | _ => exact ⟨rfl, rfl, rfl, fun _ _ => ⟨rfl, rfl⟩, fun _ => rfl, fun _ => rfl⟩

theorem commsTask_frame (hmac : HmacSha256) (uicr : Uicr) (context : CommsContext)
    (radio : RadioReadings) (state : State) (request : Request) :
    RequestFrame request state (commsTask hmac uicr context radio state request).1 := by
  cases request with
  | none => exact .refl _ state
  | some msg =>
      cases msg with
      | bluetooth msg => exact (bluetoothHandler_handled context radio state msg).frame
      | _ => exact ⟨rfl, rfl, rfl, fun _ _ => ⟨rfl, rfl⟩, fun _ => rfl, fun _ => rfl⟩

theorem Handled.power {state : State} {msg : Bluetooth} {answer : State × HostProtocolMessage}
    (handled : Handled state msg answer) : answer.1.power = state.power := by
  cases handled with
  | _ => rfl

/-- Only a reset request stops the application. -/
theorem commsTask_power (hmac : HmacSha256) (uicr : Uicr) (context : CommsContext)
    (radio : RadioReadings) (state : State) {request : Request}
    (noReset : request ≠ some .reset) :
    (commsTask hmac uicr context radio state request).1.power = state.power := by
  cases request with
  | none => rfl
  | some msg =>
      cases msg with
      | bluetooth msg => exact (bluetoothHandler_handled context radio state msg).power
      | reset => exact absurd rfl noReset
      | _ => rfl

section Step

variable (platform : Platform) (uicr : Uicr) {state : State}

theorem step_request (running : state.power = .running) (radio : RadioReadings)
    (request : Request) :
    step platform uicr state (.request radio request) =
      ((commsTask platform.hmac uicr platform.context radio state request).1,
        { response := (commsTask platform.hmac uicr platform.context radio state request).2
          advertised := none }) := by
  unfold step
  rw [if_pos running]

theorem step_background (running : state.power = .running) (event : Background) :
    step platform uicr state (.background event) =
      ((backgroundStep platform.softDevice state event).1,
        { response := none
          advertised := (backgroundStep platform.softDevice state event).2 }) := by
  unfold step
  rw [if_pos running]

theorem step_poll (running : state.power = .running) :
    step platform uicr state (.background .poll) =
      ((runBluetooth platform.softDevice state).1,
        { response := none, advertised := (runBluetooth platform.softDevice state).2 }) :=
  step_background platform uicr running .poll

/-- Nothing happens once the application has panicked or reset. -/
theorem step_stopped (stopped : state.power ≠ .running) (event : Event) :
    step platform uicr state event = (state, { response := none, advertised := none }) := by
  unfold step
  rw [if_neg stopped]

end Step

section Poll

variable (softDevice : SoftDevice) {state : State}

/-- The call that starts advertising in a state. -/
def advertiseCall (state : State) : AdvertiseCall where
  advertisement := advertisement state
  link := state.link

theorem startAdvertising_call (state : State) :
    (startAdvertising softDevice state).2 = some (advertiseCall state) := by
  unfold startAdvertising
  simp only
  split
  · rfl
  · rfl

/-- Advertising either starts or is refused, and then the application panics. -/
theorem startAdvertising_cases (state : State) :
    (startAdvertising softDevice state).1 =
        { state with btAdvChanged := false, task := .advertising (advertisement state) none } ∨
      (startAdvertising softDevice state).1 =
        { state with btAdvChanged := false, power := .panicked } := by
  unfold startAdvertising
  simp only
  split
  · exact Or.inl rfl
  · exact Or.inr rfl

/-- A stop drops the loop; otherwise only the signal is taken. -/
theorem checkStopped_eq (state : State) :
    checkStopped state =
      { state with
        btEnable := none
        task := if state.btEnable = some false then .waiting else state.task } := by
  unfold checkStopped
  split
  · next signal =>
      cases state
      cases signal
      rfl
  · next signal =>
      rw [signal]
      rfl
  · next signal =>
      rw [signal]
      rfl

/-- The link is the one that the BLE task got from its advertisement. -/
def Tracks (state : State) : Prop :=
  match state.task with
  | .waiting => True
  | .advertising _ none => state.link = none
  | .advertising _ (some connection) => state.link = none ∨ state.link = some connection
  | .serving connection =>
      (state.link = none ∨ state.link = some connection) ∧ state.connection = some connection

/-- Serving lasts as long as the link. -/
theorem serve_cases {connection : LinkId} {state : State}
    (alive : state.link = none ∨ state.link = some connection) :
    (state.link = some connection ∧
        serve softDevice connection state =
          ({ state with task := .serving connection }, none)) ∨
      (state.link = none ∧
        serve softDevice connection state =
          startAdvertising softDevice { state with connection := none }) := by
  unfold serve
  rcases alive with ended | up
  · have gone : state.link ≠ some connection := by
      rw [ended]
      exact (Option.some_ne_none connection).symm
    rw [if_neg gone]
    exact Or.inr ⟨ended, rfl⟩
  · rw [if_pos up]
    exact Or.inl ⟨up, rfl⟩

/-- Where the BLE task is suspended. -/
theorem Task.suspended (task : Task) :
    task = .waiting ∨ (∃ adv, task = .advertising adv none) ∨
      (∃ adv connection, task = .advertising adv (some connection)) ∨
      ∃ connection, task = .serving connection := by
  cases task with
  | waiting => exact Or.inl rfl
  | serving connection => exact Or.inr (Or.inr (Or.inr ⟨connection, rfl⟩))
  | advertising adv accepted =>
      cases accepted with
      | none => exact Or.inr (Or.inl ⟨adv, rfl⟩)
      | some connection => exact Or.inr (Or.inr (Or.inl ⟨adv, connection, rfl⟩))

/-- **What the loop can do.** It serves the link that is up, starts over after
one has ended, or is still advertising. -/
theorem runBluetoothInner_cases (busy : state.task ≠ .waiting) (tracks : Tracks state) :
    (∃ connection, state.link = some connection ∧
        runBluetoothInner softDevice state =
          ({ state with connection := some connection, task := .serving connection }, none)) ∨
      (state.link = none ∧
        runBluetoothInner softDevice state =
          startAdvertising softDevice { state with connection := none }) ∨
      (state.link = none ∧ ∃ adv, state.task = .advertising adv none ∧
        (runBluetoothInner softDevice state = startAdvertising softDevice state ∨
          runBluetoothInner softDevice state = (state, none))) := by
  unfold Tracks at tracks
  rcases state.task.suspended with
    waiting | ⟨adv, suspended⟩ | ⟨adv, connection, suspended⟩ | ⟨connection, suspended⟩
  · exact absurd waiting busy
  · rw [suspended] at tracks
    refine Or.inr (Or.inr ⟨tracks, adv, suspended, ?_⟩)
    unfold runBluetoothInner
    rw [suspended]
    simp only
    split
    · exact Or.inl rfl
    · exact Or.inr rfl
  · rw [suspended] at tracks
    have inner : runBluetoothInner softDevice state =
        serve softDevice connection { state with connection := some connection } := by
      unfold runBluetoothInner
      rw [suspended]
    rw [inner]
    have alive : ({ state with connection := some connection } : State).link = none ∨
        ({ state with connection := some connection } : State).link = some connection := tracks
    rcases serve_cases softDevice alive with ⟨up, served⟩ | ⟨ended, served⟩
    · exact Or.inl ⟨connection, up, served⟩
    · exact Or.inr (Or.inl ⟨ended, served⟩)
  · rw [suspended] at tracks
    obtain ⟨alive, known⟩ := tracks
    have inner : runBluetoothInner softDevice state = serve softDevice connection state := by
      unfold runBluetoothInner
      rw [suspended]
    rw [inner]
    rcases serve_cases softDevice alive with ⟨up, served⟩ | ⟨ended, served⟩
    · refine Or.inl ⟨connection, up, ?_⟩
      rw [served, ← known]
    · exact Or.inr (Or.inl ⟨ended, served⟩)

/-- What only requests change. -/
structure SameSettings (before after : State) : Prop where
  name : after.deviceName = before.deviceName
  channels : after.btAdvChan = before.btAdvChan
  copy : after.btStateCopy = before.btStateCopy

theorem SameSettings.refl (state : State) : SameSettings state state := ⟨rfl, rfl, rfl⟩

/-- The loop asks for advertising with the state polled, if at all. -/
theorem runBluetoothInner_call (state : State) :
    (runBluetoothInner softDevice state).2 = none ∨
      (runBluetoothInner softDevice state).2 = some (advertiseCall state) := by
  have started : ∀ connection,
      (startAdvertising softDevice { state with connection }).2 = some (advertiseCall state) :=
    fun connection => startAdvertising_call softDevice { state with connection }
  have served : ∀ connection known,
      (serve softDevice connection { state with connection := known }).2 = none ∨
        (serve softDevice connection { state with connection := known }).2 =
          some (advertiseCall state) := by
    intro connection known
    unfold serve
    split
    · exact Or.inl rfl
    · exact Or.inr (started none)
  unfold runBluetoothInner
  split
  · exact Or.inl rfl
  · exact served _ _
  · split
    · exact Or.inr (started state.connection)
    · exact Or.inl rfl
  · exact served _ state.connection

theorem pollRunning_call (polled : State × Option AdvertiseCall) :
    (pollRunning polled).2 = polled.2 := by
  unfold pollRunning
  split <;> rfl

theorem runBluetooth_busy (busy : state.task ≠ .waiting) :
    runBluetooth softDevice state = pollRunning (runBluetoothInner softDevice state) := by
  unfold runBluetooth
  split
  · next waiting => exact absurd waiting busy
  · rfl

/-- Without a start signal the task keeps waiting. -/
theorem runBluetooth_idle (waiting : state.task = .waiting) (noStart : state.btEnable ≠ some true) :
    runBluetooth softDevice state = ({ state with btEnable := none }, none) := by
  unfold runBluetooth
  rw [waiting]
  simp only
  split
  · next signal => rw [← signal, ← waiting]
  · rfl
  · next signal => exact absurd signal noStart

theorem runBluetooth_starts (waiting : state.task = .waiting) (start : state.btEnable = some true) :
    runBluetooth softDevice state =
      pollRunning (startAdvertising softDevice { state with btEnable := none }) := by
  unfold runBluetooth
  rw [waiting, start]

/-- **What a poll may ask for.** -/
theorem runBluetooth_call (state : State) :
    (runBluetooth softDevice state).2 = none ∨
      (runBluetooth softDevice state).2 = some (advertiseCall state) := by
  by_cases waiting : state.task = .waiting
  · by_cases start : state.btEnable = some true
    · rw [runBluetooth_starts softDevice waiting start, pollRunning_call, startAdvertising_call]
      exact Or.inr rfl
    · rw [runBluetooth_idle softDevice waiting start]
      exact Or.inl rfl
  · rw [runBluetooth_busy softDevice waiting, pollRunning_call]
    exact runBluetoothInner_call softDevice state

/-- What a restart leaves, a stop included. -/
theorem pollRunning_startAdvertising {state : State} (running : state.power = .running) :
    ((pollRunning (startAdvertising softDevice state)).1.power ≠ .running ∧
        (pollRunning (startAdvertising softDevice state)).1.task = state.task) ∨
      (pollRunning (startAdvertising softDevice state)).1 =
        { state with
          btAdvChanged := false
          btEnable := none
          task := if state.btEnable = some false then .waiting
            else .advertising (advertisement state) none } := by
  unfold pollRunning
  rcases startAdvertising_cases softDevice state with started | refused
  · have alive : (startAdvertising softDevice state).1.power = .running := by
      rw [started]
      exact running
    rw [if_pos alive]
    refine Or.inr ?_
    change checkStopped (startAdvertising softDevice state).1 = _
    rw [checkStopped_eq, started]
  · have dead : (startAdvertising softDevice state).1.power ≠ .running := by
      rw [refused]
      exact Power.noConfusion
    rw [if_neg dead]
    refine Or.inl ⟨dead, ?_⟩
    rw [refused]

theorem pollRunning_alive {state : State} (running : state.power = .running)
    (call : Option AdvertiseCall) : (pollRunning (state, call)).1 = checkStopped state := by
  unfold pollRunning
  rw [if_pos running]

/-- What a poll leaves of a running state, if the application survives it. -/
inductive Polled (state : State) : State → Prop where
  | idle (waiting : state.task = .waiting) (noStart : state.btEnable ≠ some true) :
      Polled state { state with btEnable := none }
  | starts (waiting : state.task = .waiting) (start : state.btEnable = some true) :
      Polled state
        { state with
          btAdvChanged := false
          btEnable := none
          task := .advertising (advertisement state) none }
  | serves (busy : state.task ≠ .waiting) {connection : LinkId}
      (up : state.link = some connection) :
      Polled state
        { state with
          connection := some connection
          btEnable := none
          task := if state.btEnable = some false then .waiting else .serving connection }
  | advertises (busy : state.task ≠ .waiting) (ended : state.link = none)
      {connection : Option LinkId} (adv : Advertisement) (changed : Bool)
      (forgotten : connection = none ∨
        connection = state.connection ∧ ∃ adv, state.task = .advertising adv none) :
      Polled state
        { state with
          connection
          btAdvChanged := changed
          btEnable := none
          task := if state.btEnable = some false then .waiting else .advertising adv none }

/-- **What a poll can do.** -/
theorem runBluetooth_cases (running : state.power = .running) (tracks : Tracks state) :
    ((runBluetooth softDevice state).1.power ≠ .running ∧
        (runBluetooth softDevice state).1.task = state.task) ∨
      Polled state (runBluetooth softDevice state).1 := by
  by_cases waiting : state.task = .waiting
  · by_cases start : state.btEnable = some true
    · rw [runBluetooth_starts softDevice waiting start]
      have alive : ({ state with btEnable := none } : State).power = .running := running
      refine (pollRunning_startAdvertising softDevice alive).imp id fun started => ?_
      rw [started]
      exact .starts waiting start
    · rw [runBluetooth_idle softDevice waiting start]
      exact Or.inr (.idle waiting start)
  · rw [runBluetooth_busy softDevice waiting]
    rcases runBluetoothInner_cases softDevice waiting tracks with
      ⟨connection, up, inner⟩ | ⟨ended, inner⟩ | ⟨ended, adv, suspended, inner | inner⟩
    · have alive : ({ state with
          connection := some connection, task := .serving connection } : State).power =
            .running := running
      rw [inner, pollRunning_alive alive, checkStopped_eq]
      exact Or.inr (.serves waiting up)
    · rw [inner]
      have alive : ({ state with connection := none } : State).power = .running := running
      refine (pollRunning_startAdvertising softDevice alive).imp id fun started => ?_
      rw [started]
      exact .advertises waiting ended _ _ (Or.inl rfl)
    · rw [inner]
      refine (pollRunning_startAdvertising softDevice running).imp id fun started => ?_
      rw [started]
      exact .advertises waiting ended _ _ (Or.inr ⟨rfl, adv, suspended⟩)
    · rw [inner, pollRunning_alive running, checkStopped_eq]
      refine Or.inr ?_
      have still := Polled.advertises waiting ended adv state.btAdvChanged
        (Or.inr ⟨rfl, adv, suspended⟩)
      rw [← suspended] at still
      exact still

end Poll

/-- The BLE task writes nothing but its own suspension point and connection, and
the signals it takes. -/
def OnlyMoves (before after : State) : Prop :=
  ∃ task btEnable btAdvChanged connection power,
    after = { before with task, btEnable, btAdvChanged, connection, power }

theorem OnlyMoves.refl (state : State) : OnlyMoves state state := ⟨_, _, _, _, _, rfl⟩

theorem OnlyMoves.trans {first second third : State} (left : OnlyMoves first second)
    (right : OnlyMoves second third) : OnlyMoves first third := by
  obtain ⟨_, _, _, _, _, rfl⟩ := left
  obtain ⟨_, _, _, _, _, rfl⟩ := right
  exact ⟨_, _, _, _, _, rfl⟩

theorem OnlyMoves.sameSettings {before after : State} (moves : OnlyMoves before after) :
    SameSettings before after := by
  obtain ⟨_, _, _, _, _, rfl⟩ := moves
  exact ⟨rfl, rfl, rfl⟩

section OnlyMoves

variable (softDevice : SoftDevice) (state : State)

theorem startAdvertising_moves : OnlyMoves state (startAdvertising softDevice state).1 := by
  rcases startAdvertising_cases softDevice state with started | refused
  · rw [started]
    exact ⟨_, _, _, _, _, rfl⟩
  · rw [refused]
    exact ⟨_, _, _, _, _, rfl⟩

theorem serve_moves (connection : LinkId) :
    OnlyMoves state (serve softDevice connection state).1 := by
  simp only [serve]
  split
  · exact ⟨_, _, _, _, _, rfl⟩
  · have forgets : OnlyMoves state { state with connection := none } := ⟨_, _, _, _, _, rfl⟩
    exact forgets.trans (startAdvertising_moves softDevice _)

theorem runBluetoothInner_moves : OnlyMoves state (runBluetoothInner softDevice state).1 := by
  simp only [runBluetoothInner]
  split
  · exact .refl state
  · next connection _ =>
      have connects : OnlyMoves state { state with connection := some connection } :=
        ⟨_, _, _, _, _, rfl⟩
      exact connects.trans (serve_moves softDevice _ connection)
  · split
    · exact startAdvertising_moves softDevice state
    · exact .refl state
  · exact serve_moves softDevice state _

theorem pollRunning_moves (polled : State × Option AdvertiseCall) :
    OnlyMoves polled.1 (pollRunning polled).1 := by
  simp only [pollRunning]
  split
  · rw [checkStopped_eq]
    exact ⟨_, _, _, _, _, rfl⟩
  · exact .refl _

/-- **What a poll may write.** -/
theorem runBluetooth_moves : OnlyMoves state (runBluetooth softDevice state).1 := by
  have takes : OnlyMoves state { state with btEnable := none } := ⟨_, _, _, _, _, rfl⟩
  by_cases waiting : state.task = .waiting
  · by_cases start : state.btEnable = some true
    · rw [runBluetooth_starts softDevice waiting start]
      exact (takes.trans (startAdvertising_moves softDevice _)).trans (pollRunning_moves _)
    · rw [runBluetooth_idle softDevice waiting start]
      exact takes
  · rw [runBluetooth_busy softDevice waiting]
    exact (runBluetoothInner_moves softDevice state).trans (pollRunning_moves _)

end OnlyMoves

/-- A packet touches received data only. -/
theorem rxWrite_eq (state : State) (data : Message) :
    ∃ btDataRx btDataRxOverflow irqOutPinHigh,
      rxWrite state data = { state with btDataRx, btDataRxOverflow, irqOutPinHigh } := by
  simp only [rxWrite, nusHandle]
  split
  · split
    · split
      · exact ⟨_, _, _, rfl⟩
      · exact ⟨_, _, _, rfl⟩
    · exact ⟨_, _, _, rfl⟩
  · exact ⟨_, _, _, rfl⟩

/-- A peer changes the link and what the BLE task waits for. -/
theorem peerConnects_eq (state : State) :
    ∃ task link terminating linksSoFar,
      peerConnects state = { state with task, link, terminating, linksSoFar } := by
  simp only [peerConnects]
  split
  · exact ⟨_, _, _, _, rfl⟩
  · exact ⟨_, _, _, _, rfl⟩

theorem backgroundStep_frame (softDevice : SoftDevice) (state : State) (event : Background) :
    SameSettings state (backgroundStep softDevice state event).1 := by
  cases event with
  | poll => exact (runBluetooth_moves softDevice state).sameSettings
  | linkEnds => exact ⟨rfl, rfl, rfl⟩
  | peerConnects =>
      obtain ⟨_, _, _, _, connected⟩ := peerConnects_eq state
      simp only [backgroundStep, connected]
      exact ⟨rfl, rfl, rfl⟩
  | rxWrite data =>
      obtain ⟨_, _, _, received⟩ := rxWrite_eq state data
      simp only [backgroundStep, received]
      exact ⟨rfl, rfl, rfl⟩

/-- **Settings.** The host's requests are what changes the settings. -/
theorem step_settings (platform : Platform) (uicr : Uicr) (state : State) (event : Event) :
    SameSettings state (step platform uicr state event).1 ∨
      ∃ radio request, event = .request radio request ∧ state.power = .running ∧
        RequestFrame request state (step platform uicr state event).1 := by
  by_cases running : state.power = .running
  · cases event with
    | request radio request =>
        refine Or.inr ⟨radio, request, rfl, running, ?_⟩
        rw [step_request platform uicr running]
        exact commsTask_frame platform.hmac uicr platform.context radio state request
    | background event =>
        rw [step_background platform uicr running]
        exact Or.inl (backgroundStep_frame platform.softDevice state event)
  · rw [step_stopped platform uicr running]
    exact Or.inl (.refl state)

/-- **Advertising.** Only a poll of a running application asks for advertising,
with the settings and the link of the state polled. -/
theorem step_advertised (platform : Platform) (uicr : Uicr) {state : State} {event : Event}
    {call : AdvertiseCall}
    (advertised : (step platform uicr state event).2.advertised = some call) :
    call = advertiseCall state ∧ state.power = .running ∧ event = .background .poll := by
  by_cases running : state.power = .running
  · cases event with
    | request radio request =>
        rw [step_request platform uicr running] at advertised
        cases advertised
    | background event =>
        rw [step_background platform uicr running] at advertised
        cases event with
        | poll =>
            rcases runBluetooth_call platform.softDevice state with silent | asked
            · cases silent.symm.trans advertised
            · exact ⟨Option.some.inj (advertised.symm.trans asked), running, rfl⟩
        | peerConnects => cases advertised
        | linkEnds => cases advertised
        | rxWrite data => cases advertised
  · rw [step_stopped platform uicr running] at advertised
    cases advertised

/-- A poll that acts on a start asks for advertising. -/
theorem poll_advertises (platform : Platform) (uicr : Uicr) {state : State}
    (running : state.power = .running) (waiting : state.task = .waiting)
    (start : state.btEnable = some true) :
    (step platform uicr state (.background .poll)).2.advertised = some (advertiseCall state) := by
  rw [step_poll platform uicr running, runBluetooth_starts platform.softDevice waiting start]
  exact (pollRunning_call _).trans (startAdvertising_call platform.softDevice _)

end PrimeBle.Firmware
