import PrimeBle.Firmware.Steps
import PrimeBle.Library.Ledger

/-! # Settings reach the advertisement

A request stores a setting and signals the change; the loop of the BLE task resets
the signal and then reads the settings. While an advertisement is on air it either
has the current settings or the change is still signalled (`Firmware.Fresh`), and
the power stored is the one last requested, so no update is lost
(`Firmware.noLostUpdate`).
-/

namespace PrimeBle.Firmware

open HostProtocol

/-- The radio level of a transmit power. -/
def level : TxPower → RadioPower
  | .negative40dBm => .minus40dBm
  | .negative20dBm => .minus20dBm
  | .negative16dBm => .minus16dBm
  | .negative12dBm => .minus12dBm
  | .negative8dBm => .minus8dBm
  | .negative4dBm => .minus4dBm
  | .zerodBm => .zerodBm
  | .positive3dBm => .plus3dBm
  | .positive4dBm => .plus4dBm

/-- Every power reaches the radio as its own level. -/
theorem radioPower_toInt8 (power : TxPower) : radioPower power.toInt8 = level power := by
  cases power with
  | _ => decide

/-- The power a message asks for. -/
def askedPower : Bluetooth → Option TxPower
  | .setTxPower power => some power
  | _ => none

/-- The power that a step takes from the host. -/
def requestedPower (transition : Machine.Transition State Event Output) : Option TxPower :=
  if transition.source.power = .running then
    match transition.event with
    | .request _ (some (.bluetooth msg)) => askedPower msg
    | _ => none
  else none

/-- The power last requested along a run, or the one the application starts with. -/
def lastPower (transitions : List (Machine.Transition State Event Output)) : TxPower :=
  ((transitions.filterMap requestedPower).getLast?).getD .zerodBm

/-- An advertisement on air has the current settings, or a change is signalled. -/
def Fresh (state : State) : Prop :=
  ∀ adv, state.task = .advertising adv none →
    adv = advertisement state ∨ state.btAdvChanged = true

/-- What is on air is fresh while the application runs. -/
def KeepsFresh (state : State) : Prop := state.power = .running → Fresh state

section Requests

variable {state : State}

/-- A request leaves the settings and the signal alone, or signals a change. -/
theorem Handled.settings {msg : Bluetooth} {answer : State × HostProtocolMessage}
    (handled : Handled state msg answer) :
    answer.1.btAdvChanged = true ∨
      advertisement answer.1 = advertisement state ∧
        answer.1.btAdvChanged = state.btAdvChanged := by
  cases handled with
  | disablesChannels chan => exact Or.inl rfl
  | setsPower power => exact Or.inl rfl
  | setsName name => exact Or.inl rfl
  | _ => exact Or.inr ⟨rfl, rfl⟩

theorem Handled.txPwrValue {msg : Bluetooth} {answer : State × HostProtocolMessage}
    (handled : Handled state msg answer) :
    answer.1.txPwrValue = ((askedPower msg).map TxPower.toInt8).getD state.txPwrValue := by
  cases handled with
  | inappropriate noPower =>
      have unasked : askedPower msg = none := by
        cases msg with
        | setTxPower power => exact absurd rfl (noPower power)
        | _ => rfl
      rw [unasked]
      rfl
  | _ => rfl

end Requests

section Polls

variable (softDevice : SoftDevice) {state : State}

/-- Advertising starts with the current settings. -/
theorem keepsFresh_startAdvertising (state : State) :
    KeepsFresh (startAdvertising softDevice state).1 := by
  rcases startAdvertising_cases softDevice state with started | refused
  · rw [started]
    intro _ adv suspended
    cases suspended
    exact Or.inl rfl
  · rw [refused]
    exact fun running => Power.noConfusion running

theorem keepsFresh_serve (connection : LinkId) (state : State) :
    KeepsFresh (serve softDevice connection state).1 := by
  simp only [serve]
  split
  · intro _ adv suspended
    cases suspended
  · exact keepsFresh_startAdvertising softDevice _

theorem keepsFresh_inner (fresh : KeepsFresh state) :
    KeepsFresh (runBluetoothInner softDevice state).1 := by
  simp only [runBluetoothInner]
  split
  · exact fresh
  · exact keepsFresh_serve softDevice _ _
  · split
    · exact keepsFresh_startAdvertising softDevice state
    · exact fresh
  · exact keepsFresh_serve softDevice _ state

/-- A stop takes what is on air off it. -/
theorem keepsFresh_pollRunning {polled : State × Option AdvertiseCall}
    (fresh : KeepsFresh polled.1) : KeepsFresh (pollRunning polled).1 := by
  simp only [pollRunning]
  split
  · next running =>
      rw [checkStopped_eq]
      intro _ adv suspended
      simp only at suspended
      split at suspended
      · cases suspended
      · exact fresh running adv suspended
  · exact fresh

theorem keepsFresh_runBluetooth (fresh : KeepsFresh state) :
    KeepsFresh (runBluetooth softDevice state).1 := by
  by_cases waiting : state.task = .waiting
  · by_cases start : state.btEnable = some true
    · rw [runBluetooth_starts softDevice waiting start]
      exact keepsFresh_pollRunning (keepsFresh_startAdvertising softDevice _)
    · rw [runBluetooth_idle softDevice waiting start]
      exact fresh
  · rw [runBluetooth_busy softDevice waiting]
    exact keepsFresh_pollRunning (keepsFresh_inner softDevice fresh)

end Polls

section Steps

variable (platform : Platform) (uicr : Uicr) {state : State}

theorem keepsFresh_request (fresh : Fresh state) (radio : RadioReadings) (request : Request) :
    Fresh (commsTask platform.hmac uicr platform.context radio state request).1 := by
  have frame := commsTask_frame platform.hmac uicr platform.context radio state request
  have kept : (commsTask platform.hmac uicr platform.context radio state request).1.btAdvChanged =
      true ∨
    advertisement (commsTask platform.hmac uicr platform.context radio state request).1 =
        advertisement state ∧
      (commsTask platform.hmac uicr platform.context radio state request).1.btAdvChanged =
        state.btAdvChanged := by
    cases request with
    | none => exact Or.inr ⟨rfl, rfl⟩
    | some msg =>
        cases msg with
        | bluetooth msg =>
            exact (bluetoothHandler_handled platform.context radio state msg).settings
        | _ => exact Or.inr ⟨rfl, rfl⟩
  intro adv suspended
  rw [frame.task] at suspended
  rcases kept with signalled | ⟨same, signal⟩
  · exact Or.inr signalled
  · rw [same, signal]
    exact fresh adv suspended

theorem keepsFresh_step (fresh : KeepsFresh state) (event : Event) :
    KeepsFresh (step platform uicr state event).1 := by
  by_cases running : state.power = .running
  · cases event with
    | request radio request =>
        rw [step_request platform uicr running]
        exact fun _ => keepsFresh_request platform uicr (fresh running) radio request
    | background event =>
        rw [step_background platform uicr running]
        cases event with
        | poll => exact keepsFresh_runBluetooth platform.softDevice fresh
        | linkEnds => exact fresh
        | peerConnects =>
            simp only [backgroundStep, peerConnects]
            split
            · intro _ adv suspended
              cases suspended
            · exact fresh
        | rxWrite data =>
            obtain ⟨_, _, _, received⟩ := rxWrite_eq state data
            simp only [backgroundStep, received]
            exact fresh
  · rw [step_stopped platform uicr running]
    exact fresh

/-- The stored power is the one requested. -/
theorem step_txPwrValue (state : State) (event : Event) :
    (step platform uicr state event).1.txPwrValue =
      ((requestedPower ((machine platform uicr).fire state event)).map TxPower.toInt8).getD
        state.txPwrValue := by
  by_cases running : state.power = .running
  · simp only [requestedPower, Machine.fire_source, Machine.fire_event, running, ↓reduceIte]
    cases event with
    | request radio request =>
        rw [step_request platform uicr running]
        cases request with
        | none => rfl
        | some msg =>
            cases msg with
            | bluetooth msg =>
                exact (bluetoothHandler_handled platform.context radio state msg).txPwrValue
            | _ => rfl
    | background event =>
        rw [step_background platform uicr running]
        cases event with
        | poll =>
            obtain ⟨_, _, _, _, _, same⟩ := runBluetooth_moves platform.softDevice state
            change (runBluetooth platform.softDevice state).1.txPwrValue = _
            rw [same]
            rfl
        | linkEnds => rfl
        | peerConnects =>
            obtain ⟨_, _, _, _, connected⟩ := peerConnects_eq state
            simp only [backgroundStep, connected, Option.map_none, Option.getD_none]
        | rxWrite data =>
            obtain ⟨_, _, _, received⟩ := rxWrite_eq state data
            simp only [backgroundStep, received, Option.map_none, Option.getD_none]
  · simp only [requestedPower, Machine.fire_source, running, ↓reduceIte, Option.map_none,
      Option.getD_none]
    rw [step_stopped platform uicr running]

/-- Along a run the stored power is the one last requested. -/
theorem run_txPwrValue (events : List Event) :
    ((machine platform uicr).run .start events).txPwrValue =
      (lastPower ((machine platform uicr).trace .start events)).toInt8 := by
  have stored := @Machine.register_eq _ _ _ (machine platform uicr) _ State.txPwrValue
    (fun transition => (requestedPower transition).map TxPower.toInt8)
    (step_txPwrValue platform uicr) .start events
  have first : State.start.txPwrValue = TxPower.zerodBm.toInt8 := rfl
  simp only [lastPower]
  rw [stored, first, ← List.map_filterMap, List.getLast?_map, Option.getD_map]

/-- A signalled change restarts what is on air with the current settings. -/
theorem poll_restarts (running : state.power = .running) {adv : Advertisement}
    (onAir : state.task = .advertising adv none) (changed : state.btAdvChanged = true) :
    (step platform uicr state (.background .poll)).2.advertised = some (advertiseCall state) := by
  have busy : state.task ≠ .waiting := by
    rw [onAir]
    exact Task.noConfusion
  have restarts : runBluetoothInner platform.softDevice state =
      startAdvertising platform.softDevice state := by
    simp only [runBluetoothInner, onAir, changed, ↓reduceIte]
  rw [step_poll platform uicr running, runBluetooth_busy platform.softDevice busy]
  change (pollRunning (runBluetoothInner platform.softDevice state)).2 = _
  rw [pollRunning_call, restarts]
  exact startAdvertising_call platform.softDevice state

end Steps

/-- **No lost update.** Whenever the loop of the BLE task waits with an advertisement
on air, the advertisement has the current name and channels and the level of the
power last requested, or a change is signalled and the next poll starts over with
the current settings. -/
theorem noLostUpdate (platform : Platform) (uicr : Uicr) (events : List Event) (state : State)
    (reached : state = (machine platform uicr).run .start events)
    (running : state.power = .running) (adv : Advertisement)
    (onAir : state.task = .advertising adv none) :
    (adv.scanData = fullName state.deviceName ∧
        adv.channelMask = #v[0, 0, 0, 0, state.btAdvChan] ∧
        adv.txPower = level (lastPower ((machine platform uicr).trace .start events))) ∨
      state.btAdvChanged = true ∧
        (step platform uicr state (.background .poll)).2.advertised =
          some (advertiseCall state) := by
  have kept : ∀ state event, KeepsFresh state →
      KeepsFresh ((machine platform uicr).step state event).1 :=
    fun state event fresh => keepsFresh_step platform uicr fresh event
  have start : KeepsFresh State.start := fun _ adv suspended => Task.noConfusion suspended
  have fresh : KeepsFresh state := by
    rw [reached]
    exact Machine.run_invariant kept start events
  rcases fresh running adv onAir with current | changed
  · refine Or.inl ?_
    rw [current]
    refine ⟨rfl, rfl, ?_⟩
    change radioPower state.txPwrValue = _
    rw [reached, run_txPwrValue, radioPower_toInt8]
  · exact Or.inr ⟨changed, poll_restarts platform uicr running onAir changed⟩

/-- A power is set and Bluetooth is switched on. -/
def poweredUp : List Event :=
  [.request ⟨none, false⟩ (some (.bluetooth (.setTxPower .positive4dBm))),
    .enable ⟨none, false⟩, .background .poll]

/-- The state that leaves. -/
def afterPoweredUp : State := (machine .bare fun _ => 0).run .start poweredUp

/-- The advertisement goes on air with that power. -/
theorem noLostUpdate_poweredUp :
    ((advertisement afterPoweredUp).scanData = fullName afterPoweredUp.deviceName ∧
        (advertisement afterPoweredUp).channelMask = #v[0, 0, 0, 0, afterPoweredUp.btAdvChan] ∧
        (advertisement afterPoweredUp).txPower =
          level (lastPower ((machine .bare fun _ => 0).trace .start poweredUp))) ∨
      afterPoweredUp.btAdvChanged = true ∧
        (step .bare (fun _ => 0) afterPoweredUp (.background .poll)).2.advertised =
          some (advertiseCall afterPoweredUp) :=
  noLostUpdate .bare (fun _ => 0) poweredUp afterPoweredUp rfl (by decide +kernel)
    (advertisement afterPoweredUp) (by decide +kernel)

end PrimeBle.Firmware
