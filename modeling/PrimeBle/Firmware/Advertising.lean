import PrimeBle.Firmware.Steps

/-! # Advertising and the link

The loop of the BLE task only advertises after the link it served has ended, but
a stop drops the loop whether or not its link has ended, and the next start
begins by advertising. Advertising is never started over a link exactly when no
start finds one (`Firmware.notOverLink_iff_startsUnlinked`).
-/

namespace PrimeBle.Firmware

open HostProtocol

/-- What the BLE task knows of the link holds while the application runs. -/
def Tracking (state : State) : Prop := state.power = .running → Tracks state

/-- Advertising is not asked for while a link is up. -/
def NotOverLink (transition : Machine.Transition State Event Output) : Prop :=
  ∀ call, transition.output.advertised = some call → call.link = none

/-- A poll that acts on a start finds no link. -/
def StartsUnlinked (state : State) (event : Event) : Prop :=
  event = .background .poll → state.power = .running → state.task = .waiting →
    state.btEnable = some true → state.link = none

/-- Neither the BLE task nor the link moves. -/
structure SameLink (before after : State) : Prop where
  task : after.task = before.task
  link : after.link = before.link
  connection : after.connection = before.connection

theorem RequestFrame.sameLink {request : Request} {before after : State}
    (frame : RequestFrame request before after) : SameLink before after :=
  ⟨frame.task, frame.link, frame.connection⟩

theorem Tracks.congr {before after : State} (tracks : Tracks before)
    (same : SameLink before after) : Tracks after := by
  unfold Tracks at tracks ⊢
  rw [same.task, same.link, same.connection]
  exact tracks

theorem tracks_linkEnds {state : State} (tracks : Tracks state) : Tracks (linkEnds state) := by
  unfold Tracks at tracks ⊢
  rcases state.task.suspended with
    waiting | ⟨adv, suspended⟩ | ⟨adv, connection, suspended⟩ | ⟨connection, suspended⟩
  · simp only [linkEnds, waiting]
  · simp only [linkEnds, suspended]
  · simp only [linkEnds, suspended, true_or]
  · rw [suspended] at tracks
    simp only [linkEnds, suspended, true_or, true_and]
    exact tracks.2

theorem tracks_peerConnects {state : State} (tracks : Tracks state) :
    Tracks (peerConnects state) := by
  unfold peerConnects
  split
  · exact Or.inr rfl
  · exact tracks

/-- A packet moves neither the task nor the link, and signals nothing. -/
theorem rxWrite_frame (state : State) (data : Message) :
    SameLink state (rxWrite state data) ∧ (rxWrite state data).btEnable = state.btEnable := by
  obtain ⟨_, _, _, received⟩ := rxWrite_eq state data
  rw [received]
  exact ⟨⟨rfl, rfl, rfl⟩, rfl⟩

/-- A poll keeps track of the link unless it starts over one. -/
theorem tracks_polled {state next : State} (polled : Polled state next)
    (unlinked : state.task = .waiting → state.btEnable = some true → state.link = none) :
    Tracks next := by
  cases polled with
  | idle waiting noStart =>
      unfold Tracks
      simp only [waiting]
  | starts waiting start => exact unlinked waiting start
  | serves busy up =>
      unfold Tracks
      simp only
      split
      · trivial
      · next stopped => split at stopped <;> cases stopped
      · next stopped => split at stopped <;> cases stopped
      · next stopped =>
          split at stopped
          · cases stopped
          · cases stopped
            exact ⟨Or.inr up, rfl⟩
  | advertises busy ended adv changed forgotten =>
      unfold Tracks
      simp only
      split
      · trivial
      · exact ended
      · exact Or.inl ended
      · next stopped => split at stopped <;> cases stopped

section Steps

variable (platform : Platform) (uicr : Uicr) {state : State}

theorem tracking_step {event : Event} (tracking : Tracking state)
    (unlinked : StartsUnlinked state event) :
    Tracking (step platform uicr state event).1 := by
  by_cases running : state.power = .running
  · have tracks := tracking running
    cases event with
    | request radio request =>
        rw [step_request platform uicr running]
        have frame := commsTask_frame platform.hmac uicr platform.context radio state request
        exact fun _ => tracks.congr frame.sameLink
    | background event =>
        rw [step_background platform uicr running]
        intro survives
        cases event with
        | poll =>
            rcases runBluetooth_cases platform.softDevice running tracks with
              ⟨died, -⟩ | polled
            · exact absurd survives died
            · exact tracks_polled polled (unlinked rfl running)
        | peerConnects => exact tracks_peerConnects tracks
        | linkEnds => exact tracks_linkEnds tracks
        | rxWrite data => exact tracks.congr (rxWrite_frame state data).1
  · rw [step_stopped platform uicr running]
    exact tracking

/-- The loop only advertises after the link it knows has ended. -/
theorem link_of_inner_advertises (tracks : Tracks state) {softDevice : SoftDevice}
    {call : AdvertiseCall} (busy : state.task ≠ .waiting)
    (advertised : (runBluetooth softDevice state).2 = some call) : state.link = none := by
  rw [runBluetooth_busy softDevice busy, pollRunning_call] at advertised
  rcases runBluetoothInner_cases softDevice busy tracks with
    ⟨connection, up, inner⟩ | ⟨ended, -⟩ | ⟨ended, -⟩
  · rw [inner] at advertised
    cases advertised
  · exact ended
  · exact ended

theorem notOverLink_of_startsUnlinked {event : Event} (tracking : Tracking state)
    (unlinked : StartsUnlinked state event) :
    NotOverLink ((machine platform uicr).fire state event) := by
  intro call advertised
  rw [Machine.fire_output, machine_step] at advertised
  obtain ⟨rfl, running, rfl⟩ := step_advertised platform uicr advertised
  change state.link = none
  rw [step_poll platform uicr running] at advertised
  by_cases waiting : state.task = .waiting
  · by_cases start : state.btEnable = some true
    · exact unlinked rfl running waiting start
    · rw [runBluetooth_idle platform.softDevice waiting start] at advertised
      cases advertised
  · exact link_of_inner_advertises (tracking running) waiting advertised

theorem startsUnlinked_of_notOverLink {event : Event}
    (free : NotOverLink ((machine platform uicr).fire state event)) :
    StartsUnlinked state event := by
  rintro rfl running waiting start
  exact free _ (poll_advertises platform uicr running waiting start)

end Steps

/-- **Advertising and the link.** Along every run, advertising is never asked for
while a link is up exactly when no poll acts on a start while one is. -/
theorem notOverLink_iff_startsUnlinked (platform : Platform) (uicr : Uicr)
    (events : List Event) :
    (∀ transition ∈ (machine platform uicr).trace .start events, NotOverLink transition) ↔
      ∀ transition ∈ (machine platform uicr).trace .start events,
        StartsUnlinked transition.source transition.event := by
  have kept : ∀ state event, Tracking state → StartsUnlinked state event →
      NotOverLink ((machine platform uicr).fire state event) ∧
        Tracking ((machine platform uicr).step state event).1 :=
    fun state event tracking unlinked =>
      ⟨notOverLink_of_startsUnlinked platform uicr tracking unlinked,
        tracking_step platform uicr tracking unlinked⟩
  have needed : ∀ state event, Tracking state →
      NotOverLink ((machine platform uicr).fire state event) → StartsUnlinked state event :=
    fun state event _ => startsUnlinked_of_notOverLink platform uicr
  have start : Tracking State.start := fun _ => True.intro
  exact (machine platform uicr).forall_trace_iff kept needed start events

/-- A peer connects, Bluetooth is stopped, and it is enabled again. -/
def restart : List Event :=
  [.enable ⟨none, false⟩, .background .poll, .background .peerConnects, .background .poll,
    .disable ⟨none, false⟩, .background .poll, .enable ⟨none, false⟩]

/-- The next poll asks for advertising over the link, and the refusal panics. -/
theorem restart_advertises :
    (¬ ∀ transition ∈ (machine .bare fun _ => 0).trace .start (restart ++ [.background .poll]),
        NotOverLink transition) ∧
      ((machine .bare fun _ => 0).run .start (restart ++ [.background .poll])).power =
        .panicked := by
  refine ⟨?_, by decide +kernel⟩
  intro free
  have last := free _ ((machine .bare fun _ => 0).fire_mem_trace .start restart
    (.background .poll) [])
  have ended := last _ (poll_advertises .bare (fun _ => 0) rfl rfl rfl)
  have up : ((machine .bare fun _ => 0).run .start restart).link = some 0 := by decide +kernel
  cases up.symm.trans ended

end PrimeBle.Firmware
