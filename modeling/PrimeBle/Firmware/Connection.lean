import PrimeBle.Firmware.Advertising

/-! # Stopping and the connection

The loop of the BLE task forgets its connection once the link has ended, but a
stop drops the loop whether or not it has. All stops forget the connection, and
the status says so until the next start, exactly when every stop finds the link
ended (`Firmware.forgetsConnection_iff_stopsUnlinked`).
-/

namespace PrimeBle.Firmware

open HostProtocol

/-- The switch the communication task remembers is the one it signalled. -/
def Signalled (state : State) : Prop :=
  ∀ enable, state.btEnable = some enable → state.btStateCopy = enable

/-- What the BLE task and the communication task know of the link. -/
structure LinkKnown (state : State) : Prop where
  tracks : Tracks state
  forgotten : (∀ connection, state.task ≠ .serving connection) → state.connection = none
  ended : state.task = .waiting → state.link = none
  signalled : Signalled state

/-- The link is known while the application runs. -/
def KnowsLink (state : State) : Prop := state.power = .running → LinkKnown state

/-- A poll that acts on a stop finds no link. -/
def StopsUnlinked (state : State) (event : Event) : Prop :=
  event = .background .poll → state.power = .running → state.task ≠ .waiting →
    state.btEnable = some false → state.link = none

/-- A signal that was taken promises nothing. -/
theorem signalled_of_none {state : State} (taken : state.btEnable = none) : Signalled state := by
  intro enable sent
  cases taken.symm.trans sent

/-- A fresh application knows that there is no link. -/
theorem knowsLink_start : KnowsLink State.start :=
  fun _ =>
    { tracks := True.intro
      forgotten := fun _ => rfl
      ended := fun _ => rfl
      signalled := signalled_of_none rfl }

section Background

variable {state next : State}

/-- A task that waits remembers no connection. -/
theorem LinkKnown.forgotten_of_waiting (known : LinkKnown state)
    (waiting : state.task = .waiting) : state.connection = none := by
  apply known.forgotten
  intro connection serving
  cases waiting.symm.trans serving

/-- Neither does one that advertises. -/
theorem LinkKnown.forgotten_of_advertising (known : LinkKnown state)
    {advertisement : Advertisement} {accepted : Option LinkId}
    (advertising : state.task = .advertising advertisement accepted) :
    state.connection = none := by
  apply known.forgotten
  intro connection serving
  cases advertising.symm.trans serving

/-- Only the link and the switch matter. -/
theorem LinkKnown.congr (known : LinkKnown state) (same : SameLink state next)
    (signalled : Signalled next) : LinkKnown next where
  tracks := known.tracks.congr same
  forgotten := by
    rw [same.task, same.connection]
    exact known.forgotten
  ended := by
    rw [same.task, same.link]
    exact known.ended
  signalled := signalled

/-- A poll that does not stop a loop with a link up keeps track of it. -/
theorem LinkKnown.polled (known : LinkKnown state) (polled : Polled state next)
    (unlinked : state.task ≠ .waiting → state.btEnable = some false → state.link = none) :
    LinkKnown next := by
  have tracks := tracks_polled polled fun waiting _ => known.ended waiting
  cases polled with
  | idle waiting noStart =>
      exact ⟨tracks, known.forgotten, known.ended, signalled_of_none rfl⟩
  | starts waiting start =>
      exact ⟨tracks, fun _ => known.forgotten_of_waiting waiting,
        fun advertising => Task.noConfusion advertising, signalled_of_none rfl⟩
  | serves busy up =>
      have goesOn : state.btEnable ≠ some false := by
        intro stop
        cases up.symm.trans (unlinked busy stop)
      rw [if_neg goesOn] at tracks ⊢
      exact ⟨tracks, fun idle => absurd rfl (idle _), fun serving => Task.noConfusion serving,
        signalled_of_none rfl⟩
  | advertises busy ended adv changed forgotten =>
      refine ⟨tracks, fun _ => ?_, fun _ => ended, signalled_of_none rfl⟩
      rcases forgotten with cleared | ⟨same, advertised, suspended⟩
      · exact cleared
      · exact same.trans (known.forgotten_of_advertising suspended)

/-- A poll acts on a stop at once. -/
theorem Polled.task_of_stop (polled : Polled state next) (signal : state.btEnable = some false) :
    next.task = .waiting := by
  cases polled with
  | idle waiting noStart => exact waiting
  | starts waiting start => cases signal.symm.trans start
  | serves busy up => exact if_pos signal
  | advertises busy ended adv changed forgotten => exact if_pos signal

/-- Every poll takes the signal. -/
theorem Polled.signal_taken (polled : Polled state next) : next.btEnable = none := by
  cases polled with
  | _ => rfl

/-- The communication task's own copy is not touched by a poll. -/
theorem Polled.copy_kept (polled : Polled state next) :
    next.btStateCopy = state.btStateCopy := by
  cases polled with
  | _ => rfl

/-- The end of a link is tracked. -/
theorem LinkKnown.linkEnds (known : LinkKnown state) : LinkKnown (linkEnds state) :=
  ⟨tracks_linkEnds known.tracks, known.forgotten, fun _ => rfl, known.signalled⟩

/-- So is a new one, which only an advertisement lets come. -/
theorem LinkKnown.peerConnects (known : LinkKnown state) : LinkKnown (peerConnects state) := by
  have tracks := tracks_peerConnects known.tracks
  unfold Firmware.peerConnects at tracks ⊢
  split at tracks
  · next advertisement suspended unlinked =>
      exact ⟨tracks, fun _ => known.forgotten_of_advertising suspended,
        fun advertising => Task.noConfusion advertising, known.signalled⟩
  · exact known

/-- The communication task sets its copy whenever it signals. -/
theorem Signalled.request (signalled : Signalled state) (hmac : HmacSha256) (uicr : Uicr)
    (context : CommsContext) (radio : RadioReadings) (request : Request) :
    Signalled (commsTask hmac uicr context radio state request).1 := by
  by_cases enables : request = some (.bluetooth .enable)
  · subst enables
    exact fun enable sent => Option.some.inj sent
  · by_cases disables : request = some (.bluetooth .disable)
    · subst disables
      exact fun enable sent => Option.some.inj sent
    · obtain ⟨signal, copy⟩ :=
        (commsTask_frame hmac uicr context radio state request).switch enables disables
      unfold Signalled
      rw [signal, copy]
      exact signalled

end Background

/-- A poll that acts on a stop. -/
structure Stops (transition : Machine.Transition State Event Output) : Prop where
  poll : transition.event = .background .poll
  running : transition.source.power = .running
  signal : transition.source.btEnable = some false
  survives : transition.target.power = .running

/-- A poll that acts on a stop leaves no connection. -/
def ForgetsOnStop (transition : Machine.Transition State Event Output) : Prop :=
  Stops transition → transition.target.connection = none

section Steps

variable (platform : Platform) (uicr : Uicr) {state : State} {event : Event}

/-- **Steps.** Unless a stop finds a link up, the link stays known. -/
theorem knowsLink_step (knows : KnowsLink state) (unlinked : StopsUnlinked state event) :
    KnowsLink (step platform uicr state event).1 := by
  by_cases running : state.power = .running
  · have known := knows running
    cases event with
    | request radio request =>
        rw [step_request platform uicr running]
        have frame := commsTask_frame platform.hmac uicr platform.context radio state request
        have signalled := known.signalled.request platform.hmac uicr platform.context radio request
        exact fun _ => known.congr frame.sameLink signalled
    | background event =>
        rw [step_background platform uicr running]
        intro survives
        cases event with
        | poll =>
            rcases runBluetooth_cases platform.softDevice running known.tracks with
              ⟨died, -⟩ | polled
            · exact absurd survives died
            · exact known.polled polled (unlinked rfl running)
        | peerConnects => exact known.peerConnects
        | linkEnds => exact known.linkEnds
        | rxWrite data =>
            obtain ⟨same, signal⟩ := rxWrite_frame state data
            have copy := (backgroundStep_frame platform.softDevice state (.rxWrite data)).copy
            refine known.congr same fun enable sent => ?_
            exact copy.trans (known.signalled enable (signal.symm.trans sent))
  · rw [step_stopped platform uicr running]
    exact knows

/-- A poll that acts on a stop is one that the application survives. -/
theorem polled_of_stops (known : LinkKnown state)
    (stops : Stops ((machine platform uicr).fire state event)) :
    Polled state (step platform uicr state event).1 := by
  obtain ⟨poll, running, signal, survives⟩ := stops
  rw [Machine.fire_event] at poll
  rw [Machine.fire_source] at running
  rw [Machine.fire_target, machine_step] at survives
  subst poll
  rw [step_poll platform uicr running] at survives ⊢
  rcases runBluetooth_cases platform.softDevice running known.tracks with ⟨died, -⟩ | polled
  · exact absurd survives died
  · exact polled

/-- A stop that finds no link forgets the connection. -/
theorem forgetsOnStop_of_stopsUnlinked (knows : KnowsLink state)
    (unlinked : StopsUnlinked state event) :
    ForgetsOnStop ((machine platform uicr).fire state event) := by
  intro stops
  have polled := polled_of_stops platform uicr (knows stops.running) stops
  have waiting := polled.task_of_stop stops.signal
  exact (knowsLink_step platform uicr knows unlinked stops.survives).forgotten_of_waiting waiting

/-- A stop that finds one keeps it. -/
theorem stopsUnlinked_of_forgetsOnStop (knows : KnowsLink state)
    (forgets : ForgetsOnStop ((machine platform uicr).fire state event)) :
    StopsUnlinked state event := by
  rintro rfl running busy signal
  rcases runBluetoothInner_cases platform.softDevice busy (knows running).tracks with
    ⟨connection, up, inner⟩ | ⟨ended, -⟩ | ⟨ended, -⟩
  · have alive : ({ state with
        connection := some connection, task := .serving connection } : State).power =
          .running := running
    have next : ((machine platform uicr).fire state (.background .poll)).target =
        checkStopped { state with
          connection := some connection, task := .serving connection } := by
      rw [Machine.fire_target, machine_step, step_poll platform uicr running,
        runBluetooth_busy platform.softDevice busy, inner, pollRunning_alive alive]
    rw [checkStopped_eq] at next
    have forgotten := forgets
      { poll := rfl
        running := running
        signal := signal
        survives := by
          rw [next]
          exact running }
    rw [next] at forgotten
    cases forgotten
  · exact ended
  · exact ended

/-- A stop was acted on and no start is signalled. -/
structure Stopped (state : State) : Prop where
  waiting : state.task = .waiting
  noStart : state.btEnable ≠ some true
  copy : state.btStateCopy = false
  forgotten : state.connection = none

/-- A stop that finds no link ends with Bluetooth off. -/
theorem stopped_of_stops (knows : KnowsLink state) (unlinked : StopsUnlinked state event)
    (stops : Stops ((machine platform uicr).fire state event)) :
    Stopped (step platform uicr state event).1 := by
  have known := knows stops.running
  have polled := polled_of_stops platform uicr known stops
  refine ⟨polled.task_of_stop stops.signal, ?_, ?_,
    forgetsOnStop_of_stopsUnlinked platform uicr knows unlinked stops⟩
  · rw [polled.signal_taken]
    exact fun start => nomatch start
  · rw [polled.copy_kept]
    exact known.signalled false stops.signal

/-- No request but an enable changes that. -/
theorem Stopped.request (stopped : Stopped state) (hmac : HmacSha256) (context : CommsContext)
    (radio : RadioReadings) {request : Request} (noEnable : request ≠ some (.bluetooth .enable)) :
    Stopped (commsTask hmac uicr context radio state request).1 := by
  have frame := commsTask_frame hmac uicr context radio state request
  have waiting := frame.task.trans stopped.waiting
  have forgotten := frame.connection.trans stopped.forgotten
  by_cases disables : request = some (.bluetooth .disable)
  · subst disables
    exact ⟨waiting, fun start => Bool.noConfusion (Option.some.inj start), rfl, forgotten⟩
  · obtain ⟨signal, copy⟩ := frame.switch noEnable disables
    refine ⟨waiting, ?_, copy.trans stopped.copy, forgotten⟩
    rw [signal]
    exact stopped.noStart

/-- Nor does anything else that happens. -/
theorem Stopped.background (stopped : Stopped state) (softDevice : SoftDevice)
    (event : Background) : Stopped (backgroundStep softDevice state event).1 := by
  cases event with
  | poll =>
      unfold backgroundStep
      rw [runBluetooth_idle softDevice stopped.waiting stopped.noStart]
      exact ⟨stopped.waiting, (fun start => nomatch start), stopped.copy, stopped.forgotten⟩
  | linkEnds => exact ⟨stopped.waiting, stopped.noStart, stopped.copy, stopped.forgotten⟩
  | peerConnects =>
      unfold backgroundStep peerConnects
      rw [stopped.waiting]
      exact stopped
  | rxWrite data =>
      unfold backgroundStep rxWrite
      rw [stopped.waiting]
      exact stopped

/-- Only an enable request ends being stopped. -/
theorem stopped_step (stopped : Stopped state) (noEnable : ∀ radio, event ≠ .enable radio) :
    Stopped (step platform uicr state event).1 := by
  by_cases running : state.power = .running
  · cases event with
    | request radio request =>
        rw [step_request platform uicr running]
        apply stopped.request
        rintro rfl
        exact noEnable radio rfl
    | background event =>
        rw [step_background platform uicr running]
        exact stopped.background platform.softDevice event
  · rw [step_stopped platform uicr running]
    exact stopped

/-- Bluetooth was switched on last. -/
def SwitchedOn (state : State) : Prop := state.power = .running → state.btStateCopy = true

/-- An enable request switches on. -/
theorem switchedOn_enable (state : State) (radio : RadioReadings) :
    SwitchedOn (step platform uicr state (.enable radio)).1 := by
  by_cases running : state.power = .running
  · rw [step_request platform uicr running]
    exact fun _ => rfl
  · rw [step_stopped platform uicr running]
    exact fun survives => absurd survives running

/-- Only a disable request switches off again. -/
theorem switchedOn_step (switched : SwitchedOn state)
    (noDisable : ∀ radio, event ≠ .disable radio) :
    SwitchedOn (step platform uicr state event).1 := by
  by_cases running : state.power = .running
  · have copy := switched running
    rcases step_settings platform uicr state event with
      same | ⟨radio, request, rfl, -, frame⟩
    · exact fun _ => same.copy.trans copy
    · by_cases enables : request = some (.bluetooth .enable)
      · subst enables
        exact switchedOn_enable platform uicr state radio
      · have different : request ≠ some (.bluetooth .disable) := by
          rintro rfl
          exact noDisable radio rfl
        exact fun _ => (frame.switch enables different).2.trans copy
  · rw [step_stopped platform uicr running]
    exact switched

end Steps

section Status

variable (platform : Platform) (uicr : Uicr) (state : State)

/-- A status request handled now is answered with a connection status. -/
def Reports (radio : RadioReadings) (connection : ConnectionStatus) : Prop :=
  ∃ queueOverflow,
    (step platform uicr state (.request radio (some (.bluetooth .getStatus)))).2.response =
      some (.bluetooth (.status { connection, queueOverflow }))

/-- The connection is forgotten and Bluetooth is reported disabled. -/
structure Off : Prop where
  forgotten : state.connection = none
  disabled : state.power = .running → ∀ radio, Reports platform uicr state radio .disabled

/-- The task advertises and no peer is connected. -/
structure AdvertisesAlone : Prop where
  running : state.power = .running
  advertising : ∃ advertisement accepted, state.task = .advertising advertisement accepted
  alone : state.link = none

variable {state}

/-- The status of a running application without a connection. -/
theorem reports_iff (running : state.power = .running) (forgotten : state.connection = none)
    (radio : RadioReadings) (connection : ConnectionStatus) :
    Reports platform uicr state radio connection ↔
      connection = if state.btStateCopy then .waitingForConnection else .disabled := by
  have status : bluetoothHandler platform.context radio state .getStatus =
      ((getStatus radio state).1, .bluetooth (.status (getStatus radio state).2)) := rfl
  unfold Reports
  rw [step_request platform uicr running, commsTask_bluetooth, status]
  simp only [getStatus, forgotten]
  constructor
  · rintro ⟨queueOverflow, answer⟩
    cases answer
    rfl
  · rintro rfl
    exact ⟨state.btDataRxOverflow, rfl⟩

/-- What is stopped is reported as disabled. -/
theorem Stopped.off (stopped : Stopped state) : Off platform uicr state where
  forgotten := stopped.forgotten
  disabled running radio := by
    rw [reports_iff platform uicr running stopped.forgotten, stopped.copy]
    rfl

/-- A task that advertises is connected to no one. -/
theorem AdvertisesAlone.forgotten (alone : AdvertisesAlone state) (knows : KnowsLink state) :
    state.connection = none := by
  obtain ⟨advertisement, accepted, advertising⟩ := alone.advertising
  exact (knows alone.running).forgotten_of_advertising advertising

end Status

section Runs

variable (platform : Platform) (uicr : Uicr)

/-- The state after some events. -/
def reached (events : List Event) : State := (machine platform uicr).run .start events

/-- **Stopping forgets the connection.** After a stop was acted on, Bluetooth is
off until it is enabled; while the task advertises with no peer connected, it
reports that it waits for one unless Bluetooth was disabled since, and never
that one is connected. -/
structure ForgetsConnection (events : List Event) : Prop where
  stopped : ∀ before mid after, events = before ++ .background .poll :: (mid ++ after) →
    Stops ((machine platform uicr).fire (reached platform uicr before) (.background .poll)) →
    (∀ event ∈ mid, ∀ radio, event ≠ .enable radio) →
    Off platform uicr (reached platform uicr (before ++ .background .poll :: mid))
  waits : ∀ before enabled mid after, events = before ++ .enable enabled :: (mid ++ after) →
    (∀ event ∈ mid, ∀ radio, event ≠ .disable radio) →
    AdvertisesAlone (reached platform uicr (before ++ .enable enabled :: mid)) →
    ∀ radio, Reports platform uicr (reached platform uicr (before ++ .enable enabled :: mid)) radio
      .waitingForConnection
  neverConnected : ∀ before after, events = before ++ after →
    AdvertisesAlone (reached platform uicr before) →
    ∀ radio rssi, ¬ Reports platform uicr (reached platform uicr before) radio (.connected rssi)

variable {platform uicr} {events : List Event}

/-- The link is known at every point of a run in which no stop finds one up. -/
theorem knowsLink_reached {before after : List Event}
    (unlinked : ∀ transition ∈ (machine platform uicr).trace .start (before ++ after),
      StopsUnlinked transition.source transition.event) :
    KnowsLink (reached platform uicr before) := by
  have kept : ∀ state event, KnowsLink state → StopsUnlinked state event →
      KnowsLink ((machine platform uicr).step state event).1 :=
    fun state event => knowsLink_step platform uicr
  exact Machine.run_preserved kept knowsLink_start fun transition taken =>
    unlinked _ ((machine platform uicr).mem_trace_append_left after taken)

/-- Events that keep a property of the state keep it up to any later state. -/
theorem reached_preserved {inv : State → Prop} {allowed : Event → Prop}
    (kept : ∀ state event, inv state → allowed event → inv (step platform uicr state event).1)
    {before mid : List Event} {event : Event}
    (start : inv (step platform uicr (reached platform uicr before) event).1)
    (guarded : ∀ event ∈ mid, allowed event) :
    inv (reached platform uicr (before ++ event :: mid)) := by
  unfold reached
  rw [Machine.run_append, Machine.run_cons]
  exact (machine platform uicr).run_preserved_of_events kept start guarded

/-- Such a run forgets its connections. -/
theorem forgetsConnection_of_stopsUnlinked
    (unlinked : ∀ transition ∈ (machine platform uicr).trace .start events,
      StopsUnlinked transition.source transition.event) :
    ForgetsConnection platform uicr events where
  stopped before mid after split stops noEnable := by
    subst split
    have knows := knowsLink_reached unlinked
    have here := unlinked _ ((machine platform uicr).fire_mem_trace .start before
      (.background .poll) (mid ++ after))
    have start := stopped_of_stops platform uicr knows here stops
    apply Stopped.off
    exact reached_preserved
      (fun state event stopped noEnable => stopped_step platform uicr stopped noEnable)
      start noEnable
  waits before enabled mid after split noDisable alone radio := by
    subst split
    rw [← List.cons_append, ← List.append_assoc] at unlinked
    have knows := knowsLink_reached unlinked
    have start := switchedOn_enable platform uicr (reached platform uicr before) enabled
    have switched := reached_preserved
      (fun state event switched noDisable => switchedOn_step platform uicr switched noDisable)
      start noDisable
    rw [reports_iff platform uicr alone.running (alone.forgotten knows), switched alone.running]
    rfl
  neverConnected before after split alone radio rssi := by
    subst split
    have knows := knowsLink_reached unlinked
    rw [reports_iff platform uicr alone.running (alone.forgotten knows)]
    split
    · exact ConnectionStatus.noConfusion
    · exact ConnectionStatus.noConfusion

/-- In a run that forgets its connections, each stop does. -/
theorem forgetsOnStop_of_forgetsConnection (forgets : ForgetsConnection platform uicr events) :
    ∀ transition ∈ (machine platform uicr).trace .start events, ForgetsOnStop transition := by
  intro transition taken stops
  obtain ⟨before, event, after, rfl, rfl⟩ := (machine platform uicr).mem_trace_iff.mp taken
  obtain rfl : event = .background .poll := stops.poll
  have off := forgets.stopped before [] after rfl stops (fun _ none => nomatch none)
  have forgotten := off.forgotten
  unfold reached at forgotten
  rw [Machine.run_append] at forgotten
  exact forgotten

end Runs

/-- **Connections and stops.** A run forgets connections when Bluetooth is
stopped exactly when none of its polls acts on a stop while the link of its loop
is up. -/
theorem forgetsConnection_iff_stopsUnlinked (platform : Platform) (uicr : Uicr)
    (events : List Event) :
    ForgetsConnection platform uicr events ↔
      ∀ transition ∈ (machine platform uicr).trace .start events,
        StopsUnlinked transition.source transition.event := by
  have kept : ∀ state event, KnowsLink state → StopsUnlinked state event →
      ForgetsOnStop ((machine platform uicr).fire state event) ∧
        KnowsLink ((machine platform uicr).step state event).1 :=
    fun state event knows unlinked =>
      ⟨forgetsOnStop_of_stopsUnlinked platform uicr knows unlinked,
        knowsLink_step platform uicr knows unlinked⟩
  have needed : ∀ state event, KnowsLink state →
      ForgetsOnStop ((machine platform uicr).fire state event) → StopsUnlinked state event :=
    fun state event knows => stopsUnlinked_of_forgetsOnStop platform uicr knows
  constructor
  · intro forgets
    have everywhere := forgetsOnStop_of_forgetsConnection forgets
    exact ((machine platform uicr).forall_trace_iff kept needed knowsLink_start events).mp
      everywhere
  · exact forgetsConnection_of_stopsUnlinked

/-- A peer connects and Bluetooth is disabled. -/
def disableConnected : List Event :=
  [.enable ⟨none, false⟩, .background .poll, .background .peerConnects, .background .poll,
    .disable ⟨none, false⟩]

/-- The poll that acts on the stop leaves the connection. -/
theorem disableConnected_not_forgets :
    ¬ ForgetsConnection .bare (fun _ => 0) (disableConnected ++ [.background .poll]) := by
  intro forgets
  have stops : Stops ((machine .bare fun _ => 0).fire
      (reached .bare (fun _ => 0) disableConnected) (.background .poll)) := ⟨rfl, rfl, rfl, rfl⟩
  have off := forgets.stopped disableConnected [] [] rfl stops (fun _ none => nomatch none)
  have kept : (reached .bare (fun _ => 0)
      (disableConnected ++ [.background .poll])).connection = some 0 := by decide +kernel
  cases kept.symm.trans off.forgotten

end PrimeBle.Firmware
