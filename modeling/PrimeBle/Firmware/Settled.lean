import PrimeBle.Firmware.Settings
import PrimeBle.Firmware.Switch

/-! # One poll settles what was requested

Requests only leave notes for the BLE task: the switch in one slot, a change of the
settings in another, the settings themselves beside them. A poll that the application
survives acts on all of them at once. Afterwards the task waits if Bluetooth was
last switched off; otherwise it serves the link that is up, or what is on air has
the name, the channels and the power last requested (`Firmware.settled_after_poll`).
-/

namespace PrimeBle.Firmware

open HostProtocol

section Requested

abbrev Transition := Machine.Transition State Event Output

/-- The name that a step takes from the host. -/
def requestedName (transition : Transition) : Option DeviceName :=
  match transition.event, transition.output.response with
  | .request _ (some (.bluetooth (.setDeviceName name))), some (.bluetooth .ackSetDeviceName) =>
      some name
  | _, _ => none

/-- The channels to leave out that a step takes from the host. -/
def requestedChannels (transition : Transition) : Option UInt8 :=
  match transition.event, transition.output.response with
  | .request _ (some (.bluetooth (.disableChannels chan))), some (.bluetooth .ackDisableChannels) =>
      some chan.bits
  | _, _ => none

def lastName (transitions : List Transition) : DeviceName :=
  ((transitions.filterMap requestedName).getLast?).getD State.start.deviceName

def lastChannels (transitions : List Transition) : UInt8 :=
  ((transitions.filterMap requestedChannels).getLast?).getD 0

/-- What the host wants on air after a run. -/
def wanted (transitions : List Transition) : Advertisement where
  scanData := fullName (lastName transitions)
  channelMask := #v[0, 0, 0, 0, lastChannels transitions]
  txPower := level (lastPower transitions)

end Requested

/-- The BLE task does what was requested: the switch, and what to advertise. -/
inductive Settled (wanted : Advertisement) : Bool → State → Prop
  | off {state : State} (waiting : state.task = .waiting) : Settled wanted false state
  | onAir {state : State} (advertising : state.task = .advertising wanted none) :
      Settled wanted true state
  | connected {state : State} {connection : LinkId} (serving : state.task = .serving connection)
      (up : state.link = some connection) (known : state.connection = some connection) :
      Settled wanted true state

section Registers

variable (platform : Platform) (uicr : Uicr)

theorem step_deviceName (state : State) (event : Event) :
    (step platform uicr state event).1.deviceName =
      (requestedName ((machine platform uicr).fire state event)).getD state.deviceName := by
  simp only [requestedName, Machine.fire_event, Machine.fire_output, machine_step]
  by_cases running : state.power = .running
  · cases event with
    | request radio request =>
        rw [step_request platform uicr running]
        by_cases sets : ∃ name, request = some (.bluetooth (.setDeviceName name))
        · obtain ⟨name, rfl⟩ := sets
          rfl
        · have frame := commsTask_frame platform.hmac uicr platform.context radio state request
          rw [frame.name fun name asked => sets ⟨name, asked⟩]
          split
          · next asked _ => exact absurd ⟨_, (Event.request.inj asked).2⟩ sets
          · rfl
    | background event =>
        rw [step_background platform uicr running]
        exact (backgroundStep_frame platform.softDevice state event).name
  · rw [step_stopped platform uicr running]
    split
    · next answered => cases answered
    · rfl

theorem step_btAdvChan (state : State) (event : Event) :
    (step platform uicr state event).1.btAdvChan =
      (requestedChannels ((machine platform uicr).fire state event)).getD state.btAdvChan := by
  simp only [requestedChannels, Machine.fire_event, Machine.fire_output, machine_step]
  by_cases running : state.power = .running
  · cases event with
    | request radio request =>
        rw [step_request platform uicr running]
        by_cases disables : ∃ chan, request = some (.bluetooth (.disableChannels chan))
        · obtain ⟨chan, rfl⟩ := disables
          rw [commsTask_bluetooth]
          simp only [bluetoothHandler]
          by_cases every : chan = AdvChan.all
          · rw [if_pos every]
            rfl
          · rw [if_neg every]
            rfl
        · have frame := commsTask_frame platform.hmac uicr platform.context radio state request
          rw [frame.channels fun chan asked => disables ⟨chan, asked⟩]
          split
          · next asked _ => exact absurd ⟨_, (Event.request.inj asked).2⟩ disables
          · rfl
    | background event =>
        rw [step_background platform uicr running]
        exact (backgroundStep_frame platform.softDevice state event).channels
  · rw [step_stopped platform uicr running]
    split
    · next answered => cases answered
    · rfl

/-- Along a run the state has what the host wants on air. -/
theorem run_advertisement (events : List Event) :
    advertisement ((machine platform uicr).run .start events) =
      wanted ((machine platform uicr).trace .start events) := by
  have name : ((machine platform uicr).run .start events).deviceName =
      lastName ((machine platform uicr).trace .start events) :=
    (machine platform uicr).register_eq (step_deviceName platform uicr) .start events
  have channels : ((machine platform uicr).run .start events).btAdvChan =
      lastChannels ((machine platform uicr).trace .start events) :=
    (machine platform uicr).register_eq (step_btAdvChan platform uicr) .start events
  simp only [advertisement, wanted, name, channels, run_txPwrValue, radioPower_toInt8]

end Registers

/-- The task serves the connection that the communication task knows. -/
def Introduced (state : State) : Prop :=
  ∀ connection, state.task = .serving connection → state.connection = some connection

/-- Where a poll may leave the task: no connection waits to be taken, and no change
of the settings, and a connection is served because its link is up. -/
inductive Rests (state : State) : Prop
  | waiting (waits : state.task = .waiting)
  | advertising {adv : Advertisement} (suspended : state.task = .advertising adv none)
      (unchanged : state.btAdvChanged = false)
  | serving {connection : LinkId} (serves : state.task = .serving connection)
      (up : state.link = some connection) (known : state.connection = some connection)

section Polls

variable (softDevice : SoftDevice) {state : State}

theorem rests_startAdvertising (state : State)
    (survives : (startAdvertising softDevice state).1.power = .running) :
    Rests (startAdvertising softDevice state).1 := by
  rcases startAdvertising_cases softDevice state with started | refused
  · rw [started]
    exact .advertising rfl rfl
  · rw [refused] at survives
    cases survives

theorem rests_serve {connection : LinkId} (known : state.connection = some connection)
    (survives : (serve softDevice connection state).1.power = .running) :
    Rests (serve softDevice connection state).1 := by
  unfold serve at survives ⊢
  by_cases up : state.link = some connection
  · rw [if_pos up]
    exact .serving rfl up known
  · rw [if_neg up] at survives ⊢
    exact rests_startAdvertising softDevice _ survives

theorem rests_inner (introduced : Introduced state)
    (survives : (runBluetoothInner softDevice state).1.power = .running) :
    Rests (runBluetoothInner softDevice state).1 := by
  unfold runBluetoothInner at survives ⊢
  rcases state.task.suspended with
    waiting | ⟨adv, suspended⟩ | ⟨adv, connection, suspended⟩ | ⟨connection, suspended⟩
  · rw [waiting]
    exact .waiting waiting
  · rw [suspended] at survives ⊢
    by_cases changed : state.btAdvChanged = true
    · simp only [changed, ↓reduceIte] at survives ⊢
      exact rests_startAdvertising softDevice state survives
    · simp only [changed, Bool.false_eq_true, ↓reduceIte]
      exact .advertising suspended (Bool.eq_false_iff.mpr changed)
  · rw [suspended] at survives ⊢
    have known : ({ state with connection := some connection } : State).connection =
        some connection := rfl
    exact rests_serve softDevice known survives
  · rw [suspended] at survives ⊢
    exact rests_serve softDevice (introduced connection suspended) survives

/-- A poll takes the switch from its slot, and a stop drops the loop. -/
theorem rests_pollRunning {polled : State × Option AdvertiseCall}
    (rests : polled.1.power = .running → Rests polled.1)
    (survives : (pollRunning polled).1.power = .running) :
    (pollRunning polled).1.btEnable = none ∧ Rests (pollRunning polled).1 := by
  unfold pollRunning at survives ⊢
  by_cases alive : polled.1.power = .running
  · rw [if_pos alive]
    change (checkStopped polled.1).btEnable = none ∧ Rests (checkStopped polled.1)
    rw [checkStopped_eq]
    refine ⟨rfl, ?_⟩
    by_cases stop : polled.1.btEnable = some false
    · exact .waiting (if_pos stop)
    · rw [if_neg stop]
      cases rests alive with
      | waiting waits => exact .waiting waits
      | advertising suspended unchanged => exact .advertising suspended unchanged
      | serving serves up known => exact .serving serves up known
  · rw [if_neg alive] at survives
    exact absurd survives alive

theorem rests_runBluetooth (introduced : Introduced state)
    (survives : (runBluetooth softDevice state).1.power = .running) :
    (runBluetooth softDevice state).1.btEnable = none ∧
      Rests (runBluetooth softDevice state).1 := by
  by_cases waiting : state.task = .waiting
  · by_cases start : state.btEnable = some true
    · rw [runBluetooth_starts softDevice waiting start] at survives ⊢
      exact rests_pollRunning (rests_startAdvertising softDevice _) survives
    · rw [runBluetooth_idle softDevice waiting start]
      exact ⟨rfl, .waiting waiting⟩
  · rw [runBluetooth_busy softDevice waiting] at survives ⊢
    exact rests_pollRunning (rests_inner softDevice introduced) survives

end Polls

section Steps

variable (platform : Platform) (uicr : Uicr) {state : State}

theorem Rests.introduced (rests : Rests state) : Introduced state := by
  intro connection suspended
  cases rests with
  | waiting waits => cases waits.symm.trans suspended
  | advertising advertises => cases advertises.symm.trans suspended
  | serving serves up known =>
      cases serves.symm.trans suspended
      exact known

theorem introduced_step (introduced : state.power = .running → Introduced state) (event : Event)
    (survives : (step platform uicr state event).1.power = .running) :
    Introduced (step platform uicr state event).1 := by
  by_cases running : state.power = .running
  · have known := introduced running
    cases event with
    | request radio request =>
        rw [step_request platform uicr running]
        have frame := commsTask_frame platform.hmac uicr platform.context radio state request
        unfold Introduced
        rw [frame.task, frame.connection]
        exact known
    | background event =>
        rw [step_background platform uicr running] at survives ⊢
        cases event with
        | poll =>
            exact (rests_runBluetooth platform.softDevice known survives).2.introduced
        | linkEnds => exact known
        | peerConnects =>
            simp only [backgroundStep, peerConnects]
            split
            · exact fun _ serving => Task.noConfusion serving
            · exact known
        | rxWrite data =>
            have same := (rxWrite_frame state data).1
            change Introduced (rxWrite state data)
            unfold Introduced
            rw [same.task, same.connection]
            exact known
  · rw [step_stopped platform uicr running] at survives
    exact absurd survives running

/-- Along a run the connection that is served is known. -/
theorem run_introduced (events : List Event)
    (running : ((machine platform uicr).run .start events).power = .running) :
    Introduced ((machine platform uicr).run .start events) := by
  have kept : ∀ state event, (state.power = .running → Introduced state) →
      ((machine platform uicr).step state event).1.power = .running →
        Introduced ((machine platform uicr).step state event).1 :=
    fun _ event introduced => introduced_step platform uicr introduced event
  have start : State.start.power = .running → Introduced .start :=
    fun _ _ serving => Task.noConfusion serving
  exact Machine.run_invariant kept start events running

end Steps

/-- Along a run the switch converges and what is on air is fresh. -/
theorem run_converged (platform : Platform) (uicr : Uicr) (events : List Event)
    (running : ((machine platform uicr).run .start events).power = .running) :
    Converged ((machine platform uicr).run .start events) ∧
      Fresh ((machine platform uicr).run .start events) := by
  have switches : ∀ state event, KeepsConverged state →
      KeepsConverged ((machine platform uicr).step state event).1 :=
    fun _ event keeps => keepsConverged_step platform uicr event keeps
  have refreshes : ∀ state event, KeepsFresh state →
      KeepsFresh ((machine platform uicr).step state event).1 :=
    fun _ event fresh => keepsFresh_step platform uicr fresh event
  have off : KeepsConverged .start := fun _ =>
    ⟨signalled_of_none rfl, fun _ => iff_of_false Bool.false_ne_true fun busy => busy rfl⟩
  have silent : KeepsFresh .start := fun _ _ suspended => Task.noConfusion suspended
  exact ⟨Machine.run_invariant switches off events running,
    Machine.run_invariant refreshes silent events running⟩

/-- A state that is at rest does what is wanted of it. -/
theorem Rests.settled {state : State} (rests : Rests state) (taken : state.btEnable = none)
    (converged : Converged state) (fresh : Fresh state) :
    Settled (advertisement state) state.btStateCopy state := by
  have switched := converged.taken taken
  cases rests with
  | waiting waits =>
      have off : state.btStateCopy = false :=
        Bool.eq_false_iff.mpr fun on => switched.mp on waits
      rw [off]
      exact .off waits
  | advertising suspended unchanged =>
      have on : state.btStateCopy = true := by
        rw [switched, suspended]
        exact Task.noConfusion
      rw [on]
      rcases fresh _ suspended with rfl | changed
      · exact .onAir suspended
      · cases unchanged.symm.trans changed
  | serving serves up known =>
      have on : state.btStateCopy = true := by
        rw [switched, serves]
        exact Task.noConfusion
      rw [on]
      exact .connected serves up known

/-- **Settling.** After every run that ends with a poll, the application has done what
the host requested last, if it survives the poll: no switch is left to act on; the
task waits if Bluetooth is off; and if it is on, the task serves the link that is
up, or advertises the last name, channels and power. -/
theorem settled_after_poll (platform : Platform) (uicr : Uicr) (events : List Event)
    (survives : ((machine platform uicr).run .start
      (events ++ [.background .poll])).power = .running) :
    ((machine platform uicr).run .start (events ++ [.background .poll])).btEnable = none ∧
      Settled (wanted ((machine platform uicr).trace .start (events ++ [.background .poll])))
        (lastSwitch ((machine platform uicr).trace .start (events ++ [.background .poll])))
        ((machine platform uicr).run .start (events ++ [.background .poll])) := by
  have polled : (machine platform uicr).run .start (events ++ [.background .poll]) =
      (step platform uicr ((machine platform uicr).run .start events) (.background .poll)).1 :=
    (machine platform uicr).run_append .start events [.background .poll]
  have running : ((machine platform uicr).run .start events).power = .running := by
    by_contra stopped
    rw [polled, step_stopped platform uicr stopped] at survives
    exact stopped survives
  have rested : ((machine platform uicr).run .start (events ++ [.background .poll])).btEnable =
      none ∧ Rests ((machine platform uicr).run .start (events ++ [.background .poll])) := by
    rw [polled, step_poll platform uicr running] at survives ⊢
    exact rests_runBluetooth platform.softDevice (run_introduced platform uicr events running)
      survives
  obtain ⟨taken, rests⟩ := rested
  obtain ⟨converged, fresh⟩ := run_converged platform uicr _ survives
  have copy : ((machine platform uicr).run .start (events ++ [.background .poll])).btStateCopy =
      lastSwitch ((machine platform uicr).trace .start (events ++ [.background .poll])) :=
    (machine platform uicr).register_eq (step_copy platform uicr) .start _
  refine ⟨taken, ?_⟩
  rw [← copy, ← run_advertisement]
  exact rests.settled taken converged fresh

/-- The name and the power change while an advertisement is on air. -/
def renamedOnAir : List Event :=
  [.enable ⟨none, false⟩, .background .poll,
    .request ⟨none, false⟩ (some (.bluetooth (.setDeviceName ⟨"Prime", by decide⟩))),
    .request ⟨none, false⟩ (some (.bluetooth (.setTxPower .positive4dBm)))]

theorem settled_after_poll_renamed :
    ((machine .bare fun _ => 0).run .start
        (renamedOnAir ++ [.background .poll])).btEnable = none ∧
      Settled
        (wanted ((machine .bare fun _ => 0).trace .start (renamedOnAir ++ [.background .poll])))
        (lastSwitch ((machine .bare fun _ => 0).trace .start
          (renamedOnAir ++ [.background .poll])))
        ((machine .bare fun _ => 0).run .start (renamedOnAir ++ [.background .poll])) :=
  settled_after_poll .bare (fun _ => 0) renamedOnAir (by decide +kernel)

end PrimeBle.Firmware
