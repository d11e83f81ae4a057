import Mathlib.Data.Nat.Basic
import PrimeBle.Firmware.Reception

/-! # Links in order

Links come and go, and the handle of one may outlive it, in the connection that the
tasks share and in what the advertising future has received. Even so data never
passes over an earlier link once some has passed over a later one, in either
direction (`Firmware.sessions_inOrder`), for every interleaving, whether or not a stop
or a start finds a link up. The queue outlives its links: the host may fetch what an
earlier peer wrote while a later one is connected, but it gets it first.
-/

namespace PrimeBle.Firmware

open HostProtocol

/-- The packet that a step takes into the queue, with the link it came over. -/
def received (transition : Machine.Transition State Event Output) : Option (LinkId × Message) :=
  transition.source.link.bind fun link =>
    (accepted transition).head?.map fun data => (link, data)

/-- The data an event asks to send. -/
def offered : Event → Option Message
  | .request _ (some (.bluetooth (.sendData data))) => some data
  | _ => none

/-- The data that a step hands to the SoftDevice, with the connection it is for. -/
def sent (transition : Machine.Transition State Event Output) : Option (LinkId × Message) :=
  if transition.output.response = some (.bluetooth (.sendDataResponse .sent)) then
    transition.source.connection.bind fun connection =>
      (offered transition.event).map fun data => (connection, data)
  else none

/-- What passes between the host and a peer in a step. -/
def traffic (transition : Machine.Transition State Event Output) : Option (LinkId × Message) :=
  (received transition).or (sent transition)

/-- The links the application can still use are not before a given one. -/
structure LinksFrom (state : State) (first : LinkId) : Prop where
  coming : first ≤ state.linksSoFar
  known : ∀ connection, state.connection = some connection →
    first ≤ connection ∧ connection < state.linksSoFar
  accepted : ∀ advertisement connection,
    state.task = .advertising advertisement (some connection) →
      first ≤ connection ∧ connection < state.linksSoFar ∧
        ∀ earlier, state.connection = some earlier → earlier ≤ connection
  serving : ∀ connection, state.task = .serving connection → state.connection = some connection

/-- The same, of an application that runs. -/
def OpenFrom (state : State) (first : LinkId) : Prop :=
  state.power = .running → LinksFrom state first

theorem openFrom_start : OpenFrom State.start 0 := fun _ =>
  { coming := Nat.le_refl _
    known := nofun
    accepted := nofun
    serving := nofun }

section Links

variable {state next : State} {first : LinkId}

theorem LinksFrom.congr (links : LinksFrom state first) (task : next.task = state.task)
    (connection : next.connection = state.connection)
    (count : next.linksSoFar = state.linksSoFar) : LinksFrom next first := by
  obtain ⟨coming, known, accepted, serving⟩ := links
  constructor
  · rw [count]
    exact coming
  · rw [connection, count]
    exact known
  · rw [task, connection, count]
    exact accepted
  · rw [task, connection]
    exact serving

/-- A task that neither serves nor has accepted a connection knows only the one that
is shared. -/
theorem LinksFrom.of_idle (coming : first ≤ state.linksSoFar)
    (known : ∀ connection, state.connection = some connection →
      first ≤ connection ∧ connection < state.linksSoFar)
    (notAccepted : ∀ advertisement connection,
      state.task ≠ .advertising advertisement (some connection))
    (notServing : ∀ connection, state.task ≠ .serving connection) : LinksFrom state first where
  coming := coming
  known := known
  accepted advertisement connection task := absurd task (notAccepted advertisement connection)
  serving connection task := absurd task (notServing connection)

theorem LinksFrom.peerConnects (links : LinksFrom state first) :
    LinksFrom (peerConnects state) first := by
  unfold Firmware.peerConnects
  split
  · constructor
    · exact Nat.le_succ_of_le links.coming
    · intro connection holds
      obtain ⟨later, below⟩ := links.known connection holds
      exact ⟨later, Nat.lt_succ_of_lt below⟩
    · intro advertisement connection holds
      cases holds
      refine ⟨links.coming, Nat.lt_succ_self _, fun earlier holds => ?_⟩
      exact Nat.le_of_lt (links.known earlier holds).2
    · nofun
  · exact links

/-- A step in an epoch ends the ones before it. -/
theorem LinksFrom.narrow (links : LinksFrom state first) {connection : LinkId}
    (holds : state.connection = some connection) : LinksFrom state connection where
  coming := Nat.le_of_lt (links.known connection holds).2
  known other same := by
    obtain rfl : other = connection := Option.some.inj (same.symm.trans holds)
    exact ⟨Nat.le_refl _, (links.known other same).2⟩
  accepted advertisement other task := by
    obtain ⟨-, below, after⟩ := links.accepted advertisement other task
    exact ⟨after connection holds, below, after⟩
  serving := links.serving

end Links

section Poll

variable (softDevice : SoftDevice) {state : State} {first : LinkId}

/-- Starting to advertise looks only at the shared connection. -/
theorem openFrom_startAdvertising (coming : first ≤ state.linksSoFar)
    (known : ∀ connection, state.connection = some connection →
      first ≤ connection ∧ connection < state.linksSoFar) :
    OpenFrom (startAdvertising softDevice state).1 first := by
  rcases startAdvertising_cases softDevice state with started | refused
  · rw [started]
    exact fun _ => .of_idle coming known (fun _ _ => nofun) (fun _ => nofun)
  · rw [refused]
    exact nofun

theorem openFrom_serve {connection : LinkId} (links : LinksFrom state first)
    (shared : state.connection = some connection) :
    OpenFrom (serve softDevice connection state).1 first := by
  unfold serve
  split
  · refine fun _ => ⟨links.coming, links.known, nofun, fun served same => ?_⟩
    cases same
    exact shared
  · exact openFrom_startAdvertising softDevice links.coming nofun

/-- An accepted connection is shared before it is served. -/
theorem LinksFrom.share (links : LinksFrom state first) {advertisement : Advertisement}
    {connection : LinkId} (task : state.task = .advertising advertisement (some connection)) :
    LinksFrom { state with connection := some connection } first := by
  obtain ⟨later, below, -⟩ := links.accepted advertisement connection task
  constructor
  · exact links.coming
  · intro other same
    cases same
    exact ⟨later, below⟩
  · intro other accepted same
    cases task.symm.trans same
    refine ⟨later, below, fun earlier shared => ?_⟩
    cases shared
    exact Nat.le_refl _
  · intro served same
    cases task.symm.trans same

theorem openFrom_runBluetoothInner (links : LinksFrom state first) :
    OpenFrom (runBluetoothInner softDevice state).1 first := by
  unfold runBluetoothInner
  split
  · exact fun _ => links
  · next advertisement connection task =>
      exact openFrom_serve softDevice (links.share task) rfl
  · split
    · exact openFrom_startAdvertising softDevice links.coming links.known
    · exact fun _ => links
  · next connection task =>
      exact openFrom_serve softDevice links (links.serving connection task)

theorem LinksFrom.checkStopped (links : LinksFrom state first) :
    LinksFrom (checkStopped state) first := by
  unfold Firmware.checkStopped
  split
  · exact links
  · exact links.congr rfl rfl rfl
  · exact .of_idle links.coming links.known (fun _ _ => nofun) (fun _ => nofun)

theorem openFrom_pollRunning {polled : State × Option AdvertiseCall}
    (links : OpenFrom polled.1 first) : OpenFrom (pollRunning polled).1 first := by
  unfold pollRunning
  split
  · next running => exact fun _ => (links running).checkStopped
  · exact links

/-- **Polls.** A poll brings no earlier link back. -/
theorem openFrom_runBluetooth (links : LinksFrom state first) :
    OpenFrom (runBluetooth softDevice state).1 first := by
  unfold runBluetooth
  split
  · split
    · exact fun _ => links
    · exact fun _ => links.congr rfl rfl rfl
    · exact openFrom_pollRunning
        (openFrom_startAdvertising softDevice links.coming links.known)
  · exact openFrom_pollRunning (openFrom_runBluetoothInner softDevice links)

end Poll

section Steps

variable (platform : Platform) (uicr : Uicr) (state : State) (event : Event)

theorem Handled.linksSoFar {state : State} {msg : Bluetooth}
    {answer : State × HostProtocolMessage} (handled : Handled state msg answer) :
    answer.1.linksSoFar = state.linksSoFar := by
  cases handled with
  | _ => rfl

theorem commsTask_linksSoFar (radio : RadioReadings) (request : Request) :
    (commsTask platform.hmac uicr platform.context radio state request).1.linksSoFar =
      state.linksSoFar := by
  cases request with
  | none => rfl
  | some msg =>
      cases msg with
      | bluetooth msg =>
          exact (bluetoothHandler_handled platform.context radio state msg).linksSoFar
      | _ => rfl

/-- **Steps.** No step brings an earlier link back. -/
theorem openFrom_step (first : LinkId) (links : OpenFrom state first) :
    OpenFrom (step platform uicr state event).1 first := by
  by_cases running : state.power = .running
  · have links := links running
    cases event with
    | request radio request =>
        rw [step_request platform uicr running]
        have frame := commsTask_frame platform.hmac uicr platform.context radio state request
        have count := commsTask_linksSoFar platform uicr state radio request
        exact fun _ => links.congr frame.task frame.connection count
    | background event =>
        rw [step_background platform uicr running]
        cases event with
        | poll => exact openFrom_runBluetooth platform.softDevice links
        | peerConnects => exact fun _ => links.peerConnects
        | linkEnds => exact fun _ => links.congr rfl rfl rfl
        | rxWrite data =>
            obtain ⟨_, _, _, written⟩ := rxWrite_eq state data
            simp only [backgroundStep, written]
            exact fun _ => links.congr rfl rfl rfl
  · rw [step_stopped platform uicr running]
    exact links

/-- A packet arrives over the link of the connection that is served. -/
theorem arrival_link {data : Message} (arrives : arrival state event = some data) :
    state.power = .running ∧ ∃ connection, state.task = .serving connection ∧
      state.link = some connection := by
  unfold arrival at arrives
  split at arrives
  · split at arrives
    · next connection task =>
        split at arrives
        · next served => exact ⟨served.1, connection, task, served.2⟩
        · cases arrives
    · cases arrives
  · cases arrives

/-- What a step takes into the queue came over a link. -/
theorem received_accepted :
    ((received ((machine platform uicr).fire state event)).map Prod.snd).toList =
      accepted ((machine platform uicr).fire state event) := by
  simp only [received, accepted, Machine.fire_source, Machine.fire_event]
  cases arrives : arrival state event with
  | none => cases state.link with
    | _ => rfl
  | some data =>
      obtain ⟨-, connection, -, link⟩ := arrival_link state event arrives
      by_cases room : state.btDataRx.items.length < btMaxNumPkt
      · simp only [link, room, ↓reduceIte]
        rfl
      · simp only [link, room, ↓reduceIte]
        rfl

/-- A packet is taken from the link of the connection that is served. -/
theorem received_link {link : LinkId} {data : Message}
    (takes : received ((machine platform uicr).fire state event) = some (link, data)) :
    state.power = .running ∧ state.task = .serving link := by
  simp only [received, accepted, Machine.fire_source, Machine.fire_event] at takes
  cases arrives : arrival state event with
  | none =>
      rw [arrives] at takes
      cases up : state.link with
      | none =>
          rw [up] at takes
          cases takes
      | some other =>
          rw [up] at takes
          cases takes
  | some packet =>
      obtain ⟨running, connection, task, up⟩ := arrival_link state event arrives
      rw [arrives, up, Option.bind_some, Option.map_eq_some_iff] at takes
      obtain ⟨_, -, same⟩ := takes
      cases same
      exact ⟨running, task⟩

/-- Data is sent over the shared connection. -/
theorem sent_link {link : LinkId} {data : Message}
    (sends : sent ((machine platform uicr).fire state event) = some (link, data)) :
    state.power = .running ∧ state.connection = some link := by
  unfold sent at sends
  split at sends
  · next answered =>
      constructor
      · by_contra stopped
        rw [Machine.fire_output, machine_step, step_stopped platform uicr stopped] at answered
        cases answered
      · obtain ⟨connection, shared, offers⟩ := Option.bind_eq_some_iff.mp sends
        obtain ⟨_, -, same⟩ := Option.map_eq_some_iff.mp offers
        cases same
        exact shared
  · cases sends

/-- What passes in a step passes over the shared connection. -/
theorem traffic_link {first link : LinkId} {data : Message} (links : OpenFrom state first)
    (passes : traffic ((machine platform uicr).fire state event) = some (link, data)) :
    state.power = .running ∧ state.connection = some link := by
  rcases Option.or_eq_some_iff.mp passes with takes | ⟨-, sends⟩
  · obtain ⟨running, task⟩ := received_link platform uicr state event takes
    exact ⟨running, (links running).serving link task⟩
  · exact sent_link platform uicr state event sends

theorem Handled.sendsData {state : State} {msg : Bluetooth}
    {answer : State × HostProtocolMessage} (handled : Handled state msg answer)
    (answered : answer.2 = .bluetooth (.sendDataResponse .sent)) :
    ∃ data, msg = .sendData data := by
  cases handled with
  | sends data response => exact ⟨data, rfl⟩
  | _ => cases answered

theorem sendData_unconnected {state : State} (radio : RadioReadings) (data : Message)
    (unconnected : state.connection = none) :
    (bluetoothHandler platform.context radio state (.sendData data)).2 =
      .bluetooth (.sendDataResponse .bufferFull) := by
  unfold bluetoothHandler
  rw [unconnected]

/-- Data that is answered as sent was sent over a connection. -/
theorem sent_of_answered
    (answered : (step platform uicr state event).2.response =
      some (.bluetooth (.sendDataResponse .sent))) :
    ∃ connection data, offered event = some data ∧
      sent ((machine platform uicr).fire state event) = some (connection, data) := by
  by_cases running : state.power = .running
  · cases event with
    | background event =>
        rw [step_background platform uicr running] at answered
        cases answered
    | request radio request =>
        have response := answered
        rw [step_request platform uicr running] at response
        cases request with
        | none => cases response
        | some msg =>
            cases msg with
            | bluetooth msg =>
                have handled := bluetoothHandler_handled platform.context radio state msg
                obtain ⟨data, rfl⟩ := handled.sendsData (Option.some.inj response)
                cases shared : state.connection with
                | none =>
                    have full := sendData_unconnected platform radio data shared
                    cases full.symm.trans (Option.some.inj response)
                | some connection =>
                    refine ⟨connection, data, rfl, ?_⟩
                    unfold sent
                    rw [Machine.fire_output, machine_step, if_pos answered, Machine.fire_source,
                      shared]
                    rfl
            | challengeRequest nonce =>
                rw [commsTask_challengeRequest] at response
                simp only [hmacChallengeResponse, HmacSha256.newFromSlice_eq] at response
                split at response
                · cases response
                · cases response
            | _ => cases response
  · rw [step_stopped platform uicr running] at answered
    cases answered

end Steps

/-- **Links in order.** Along every run: what passes between the host and the peers, in
either direction, passes over links in the order in which they were established; the
packets handed to the host, and those that still wait, are the ones that were taken
in, in that order; and whatever the host is told was sent was sent over a link. -/
theorem sessions_inOrder (platform : Platform) (uicr : Uicr) (events : List Event) :
    ((((machine platform uicr).trace .start events).filterMap traffic).map Prod.fst).Pairwise
        (· ≤ ·) ∧
    (((machine platform uicr).trace .start events).filterMap received).map Prod.snd =
      ((machine platform uicr).trace .start events).flatMap handed ++
        ((machine platform uicr).run .start events).btDataRx.items ∧
    ∀ transition ∈ (machine platform uicr).trace .start events,
      transition.output.response = some (.bluetooth (.sendDataResponse .sent)) →
        ∃ connection data, offered transition.event = some data ∧
          sent transition = some (connection, data) := by
  refine ⟨?_, ?_, ?_⟩
  · have enters : ∀ state event first now, OpenFrom state first →
        (traffic ((machine platform uicr).fire state event)).map Prod.fst = some now →
        first ≤ now ∧ OpenFrom state now := by
      intro state event first now links passes
      obtain ⟨⟨link, data⟩, passed, rfl⟩ := Option.map_eq_some_iff.mp passes
      obtain ⟨running, shared⟩ := traffic_link platform uicr state event links passed
      exact ⟨((links running).known link shared).1, fun _ => (links running).narrow shared⟩
    rw [List.map_filterMap]
    exact ((machine platform uicr).epochs_sorted (openFrom_step platform uicr) enters
      openFrom_start events).2
  · have conserved := (machine platform uicr).queue_conserved (step_conserves platform uicr)
      .start events
    have taken : ∀ transition ∈ (machine platform uicr).trace .start events,
        ((received transition).map Prod.snd).toList = accepted transition := by
      intro transition member
      obtain ⟨before, event, after, -, rfl⟩ := (machine platform uicr).mem_trace_iff.mp member
      exact received_accepted platform uicr _ event
    rw [← conserved, List.map_filterMap, List.filterMap_eq_flatMap_toList]
    exact List.flatMap_congr taken
  · intro transition member answered
    obtain ⟨before, event, after, -, rfl⟩ := (machine platform uicr).mem_trace_iff.mp member
    exact sent_of_answered platform uicr _ event answered

/-- A peer writes, is answered and leaves; another one comes and writes. -/
def twoSessions : List Event :=
  [.enable ⟨none, false⟩, .background .poll, .background .peerConnects, .background .poll,
    .background (.rxWrite ⟨[1], by decide⟩),
    .request ⟨none, true⟩ (some (.bluetooth .getReceivedData)),
    .request ⟨none, true⟩ (some (.bluetooth (.sendData ⟨[2], by decide⟩))),
    .background .linkEnds, .background .poll, .background .peerConnects, .background .poll,
    .background (.rxWrite ⟨[3], by decide⟩)]

example : (((machine .bare fun _ => 0).trace .start twoSessions).filterMap traffic).map
    (fun passed => (passed.1, passed.2.data)) = [(0, [1]), (0, [2]), (1, [3])] := by
  decide +kernel

end PrimeBle.Firmware
