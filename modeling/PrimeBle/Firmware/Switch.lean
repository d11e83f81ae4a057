import PrimeBle.Firmware.Connection
import PrimeBle.Library.Ledger

/-! # The switch that is reported and the one that is set

Enabling and disabling overwrite one signal slot, which the BLE task reads in two
loops: while it waits it ignores a stop, while it runs it ignores a start. A
separate copy answers state requests. Whatever was overwritten or ignored, the
copy is the pending signal, or whether the task is in its running phase once the
signal is taken (`Firmware.Converged`), and it is the last switch acknowledged
(`Firmware.stateConverges`). This is about a running application: one that panicked
has no BLE task any more.
-/

namespace PrimeBle.Firmware

open HostProtocol

/-- The copy is the pending signal, or whether the BLE task is in its running
phase. -/
structure Converged (state : State) : Prop where
  pending : Signalled state
  taken : state.btEnable = none → (state.btStateCopy = true ↔ state.task ≠ .waiting)

/-- The copy converges while the application runs. -/
def KeepsConverged (state : State) : Prop := state.power = .running → Converged state

/-- The switch that a response acknowledges. -/
def acknowledgedSwitch : Option HostProtocolMessage → Option Bool
  | some (.bluetooth .ackEnable) => some true
  | some (.bluetooth .ackDisable) => some false
  | _ => none

/-- The switch last acknowledged along a run. Bluetooth starts switched off. -/
def lastSwitch (transitions : List (Machine.Transition State Event Output)) : Bool :=
  ((transitions.filterMap fun transition =>
    acknowledgedSwitch transition.output.response).getLast?).getD false

section Polls

variable (softDevice : SoftDevice) {state : State}

/-- What the running loop leaves alone: it stays running and takes no signal. -/
structure StaysRunning (before after : State) : Prop where
  busy : after.task ≠ .waiting
  signal : after.btEnable = before.btEnable
  copy : after.btStateCopy = before.btStateCopy

theorem startAdvertising_staysRunning (busy : state.task ≠ .waiting) :
    StaysRunning state (startAdvertising softDevice state).1 := by
  rcases startAdvertising_cases softDevice state with started | refused
  · rw [started]
    exact ⟨Task.noConfusion, rfl, rfl⟩
  · rw [refused]
    exact ⟨busy, rfl, rfl⟩

theorem serve_staysRunning (connection : LinkId) (busy : state.task ≠ .waiting) :
    StaysRunning state (serve softDevice connection state).1 := by
  simp only [serve]
  split
  · exact ⟨Task.noConfusion, rfl, rfl⟩
  · have forgets : ({ state with connection := none } : State).task ≠ .waiting := busy
    have stays := startAdvertising_staysRunning softDevice forgets
    exact ⟨stays.busy, stays.signal, stays.copy⟩

theorem runBluetoothInner_staysRunning (busy : state.task ≠ .waiting) :
    StaysRunning state (runBluetoothInner softDevice state).1 := by
  simp only [runBluetoothInner]
  split
  · next waiting => exact absurd waiting busy
  · next connection _ =>
      have connects : ({ state with connection := some connection } : State).task ≠ .waiting :=
        busy
      have stays := serve_staysRunning softDevice connection connects
      exact ⟨stays.busy, stays.signal, stays.copy⟩
  · split
    · exact startAdvertising_staysRunning softDevice busy
    · exact ⟨busy, rfl, rfl⟩
  · exact serve_staysRunning softDevice _ busy

/-- A poll of the running phase ends it exactly when a stop is pending. -/
theorem converged_checkStopped (signalled : Signalled state)
    (taken : state.btEnable = none → state.btStateCopy = true) (busy : state.task ≠ .waiting) :
    Converged (checkStopped state) := by
  rw [checkStopped_eq]
  refine ⟨signalled_of_none rfl, fun _ => ?_⟩
  cases signal : state.btEnable with
  | none => simp [taken signal, busy]
  | some enable =>
      have copy := signalled enable signal
      cases enable with
      | false => simp [copy]
      | true => simp [copy, busy]

theorem keepsConverged_pollRunning {polled : State × Option AdvertiseCall}
    (converged : Converged state) (busy : state.task ≠ .waiting)
    (stays : StaysRunning state polled.1) : KeepsConverged (pollRunning polled).1 := by
  intro survives
  by_cases alive : polled.1.power = .running
  · rw [pollRunning_alive alive]
    apply converged_checkStopped
    · intro enable sent
      rw [stays.signal] at sent
      exact stays.copy.trans (converged.pending enable sent)
    · intro none
      rw [stays.signal] at none
      exact stays.copy.trans ((converged.taken none).mpr busy)
    · exact stays.busy
  · rw [pollRunning, if_neg alive] at survives
    exact absurd survives alive

theorem keepsConverged_runBluetooth (running : state.power = .running)
    (converged : Converged state) : KeepsConverged (runBluetooth softDevice state).1 := by
  by_cases waiting : state.task = .waiting
  · by_cases start : state.btEnable = some true
    · rw [runBluetooth_starts softDevice waiting start]
      intro survives
      have alive : ({ state with btEnable := none } : State).power = .running := running
      rcases pollRunning_startAdvertising softDevice alive with ⟨died, -⟩ | started
      · exact absurd survives died
      · rw [started]
        have copy := converged.pending true start
        exact ⟨signalled_of_none rfl, fun _ => iff_of_true copy Task.noConfusion⟩
    · rw [runBluetooth_idle softDevice waiting start]
      refine fun _ => ⟨signalled_of_none rfl, fun _ => ?_⟩
      -- a stop is taken and ignored, since the copy already says so
      have off : state.btStateCopy ≠ true := by
        cases signal : state.btEnable with
        | none => exact fun on => (converged.taken signal).mp on waiting
        | some enable =>
            have copy := converged.pending enable signal
            intro on
            rw [signal, ← copy, on] at start
            exact start rfl
      exact iff_of_false off (fun busy => busy waiting)
  · rw [runBluetooth_busy softDevice waiting]
    exact keepsConverged_pollRunning converged waiting
      (runBluetoothInner_staysRunning softDevice waiting)

end Polls

section Steps

variable {state : State}

theorem Converged.request (converged : Converged state) (hmac : HmacSha256) (uicr : Uicr)
    (context : CommsContext) (radio : RadioReadings) (request : Request) :
    Converged (commsTask hmac uicr context radio state request).1 := by
  refine ⟨converged.pending.request hmac uicr context radio request, ?_⟩
  have frame := commsTask_frame hmac uicr context radio state request
  by_cases enables : request = some (.bluetooth .enable)
  · subst enables
    intro taken
    cases taken
  · by_cases disables : request = some (.bluetooth .disable)
    · subst disables
      intro taken
      cases taken
    · obtain ⟨signal, copy⟩ := frame.switch enables disables
      rw [signal, copy, frame.task]
      exact converged.taken

/-- A radio event neither signals nor starts or ends the running phase. -/
theorem Converged.radio {next : State} (converged : Converged state)
    (signal : next.btEnable = state.btEnable) (copy : next.btStateCopy = state.btStateCopy)
    (phase : next.task ≠ .waiting ↔ state.task ≠ .waiting) : Converged next := by
  constructor
  · intro enable sent
    exact copy.trans (converged.pending enable (signal.symm.trans sent))
  · rw [signal, copy, phase]
    exact converged.taken

theorem Converged.peerConnects (converged : Converged state) :
    Converged (peerConnects state) := by
  simp only [Firmware.peerConnects]
  split
  · next suspended _ =>
      refine converged.radio rfl rfl (iff_of_true Task.noConfusion ?_)
      rw [suspended]
      exact Task.noConfusion
  · exact converged

theorem Converged.rxWrite (converged : Converged state) (data : Message) :
    Converged (rxWrite state data) := by
  obtain ⟨same, signal⟩ := rxWrite_frame state data
  have copy := (backgroundStep_frame (fun _ => true) state (.rxWrite data)).copy
  apply converged.radio signal copy
  rw [same.task]

theorem keepsConverged_step (platform : Platform) (uicr : Uicr) (event : Event)
    (keeps : KeepsConverged state) : KeepsConverged (step platform uicr state event).1 := by
  by_cases running : state.power = .running
  · have converged := keeps running
    cases event with
    | request radio request =>
        rw [step_request platform uicr running]
        exact fun _ => converged.request platform.hmac uicr platform.context radio request
    | background event =>
        rw [step_background platform uicr running]
        cases event with
        | poll => exact keepsConverged_runBluetooth platform.softDevice running converged
        | peerConnects => exact fun _ => converged.peerConnects
        | linkEnds => exact fun _ => converged.radio rfl rfl Iff.rfl
        | rxWrite data => exact fun _ => converged.rxWrite data
  · rw [step_stopped platform uicr running]
    exact keeps

/-- Only a switch is acknowledged as one. -/
theorem Handled.acknowledged {state : State} {msg : Bluetooth}
    {answer : State × HostProtocolMessage} (handled : Handled state msg answer)
    (noEnable : msg ≠ .enable) (noDisable : msg ≠ .disable) :
    acknowledgedSwitch (some answer.2) = none := by
  cases handled with
  | enables => exact absurd rfl noEnable
  | disables terminating => exact absurd rfl noDisable
  | _ => rfl

theorem commsTask_acknowledged (hmac : HmacSha256) (uicr : Uicr) (context : CommsContext)
    (radio : RadioReadings) (state : State) {request : Request}
    (noEnable : request ≠ some (.bluetooth .enable))
    (noDisable : request ≠ some (.bluetooth .disable)) :
    acknowledgedSwitch (commsTask hmac uicr context radio state request).2 = none := by
  cases request with
  | none => rfl
  | some msg =>
      cases msg with
      | bluetooth msg =>
          apply (bluetoothHandler_handled context radio state msg).acknowledged
          · rintro rfl
            exact noEnable rfl
          · rintro rfl
            exact noDisable rfl
      | challengeRequest nonce =>
          rw [commsTask_challengeRequest]
          simp only [hmacChallengeResponse]
          split
          · rfl
          · split
            · rfl
            · rfl
      | _ => rfl

/-- The copy is written with what is acknowledged. -/
theorem step_copy (platform : Platform) (uicr : Uicr) (state : State) (event : Event) :
    (step platform uicr state event).1.btStateCopy =
      (acknowledgedSwitch (step platform uicr state event).2.response).getD
        state.btStateCopy := by
  by_cases running : state.power = .running
  · cases event with
    | request radio request =>
        rw [step_request platform uicr running]
        by_cases enables : request = some (.bluetooth .enable)
        · subst enables
          rfl
        · by_cases disables : request = some (.bluetooth .disable)
          · subst disables
            rfl
          · have frame := commsTask_frame platform.hmac uicr platform.context radio state request
            simp only [commsTask_acknowledged _ uicr _ radio state enables disables,
              Option.getD_none]
            exact (frame.switch enables disables).2
    | background event =>
        rw [step_background platform uicr running]
        exact (backgroundStep_frame platform.softDevice state event).copy
  · rw [step_stopped platform uicr running]
    rfl

/-- A running application answers a state request with its copy. -/
theorem step_getState (platform : Platform) (uicr : Uicr) (running : state.power = .running)
    (radio : RadioReadings) :
    (step platform uicr state (.request radio (some .getState))).2.response =
      some (.ackState (if state.btStateCopy then .enabled else .disabled)) := by
  rw [step_request platform uicr running, commsTask_getState]
  simp only [getState]
  cases state.btStateCopy with
  | true => rfl
  | false => rfl

end Steps

/-- The state reported converges to the state of the radio after a run. -/
structure StateConverges (platform : Platform) (uicr : Uicr) (events : List Event)
    (state : State) : Prop where
  pending : ∀ pending, state.btEnable = some pending → state.btStateCopy = pending
  taken : state.btEnable = none → (state.btStateCopy = true ↔ state.task ≠ .waiting)
  /-- A state request is answered with the last switch acknowledged. -/
  reflects : ∀ radio, (step platform uicr state (.request radio (some .getState))).2.response =
    some (.ackState (if lastSwitch ((machine platform uicr).trace .start events) then .enabled
      else .disabled))
  /-- Once the signal is taken, it says whether the radio task is running. -/
  truthful : state.btEnable = none → ∀ radio,
    ((step platform uicr state (.request radio (some .getState))).2.response =
      some (.ackState .enabled) ↔ state.task ≠ .waiting)

/-- **Switching.** After every run of requests, polls and radio events, however
they overwrite the signal, the state reported by a running application converges
to the state of its radio. -/
theorem stateConverges (platform : Platform) (uicr : Uicr) (events : List Event)
    (running : ((machine platform uicr).run .start events).power = .running) :
    StateConverges platform uicr events ((machine platform uicr).run .start events) := by
  have start : KeepsConverged .start := fun _ =>
    ⟨signalled_of_none rfl, fun _ => iff_of_false Bool.false_ne_true (fun busy => busy rfl)⟩
  have kept : ∀ state event, KeepsConverged state →
      KeepsConverged ((machine platform uicr).step state event).1 :=
    fun _ event keeps => keepsConverged_step platform uicr event keeps
  have converged := Machine.run_invariant kept start events running
  have copy : ((machine platform uicr).run .start events).btStateCopy =
      lastSwitch ((machine platform uicr).trace .start events) :=
    (machine platform uicr).register_eq (step_copy platform uicr) .start events
  constructor
  · exact converged.pending
  · exact converged.taken
  · intro radio
    rw [step_getState platform uicr running radio, copy]
  · intro taken radio
    rw [step_getState platform uicr running radio, ← converged.taken taken]
    cases ((machine platform uicr).run .start events).btStateCopy with
    | true => exact iff_of_true rfl rfl
    | false => exact iff_of_false (by simp) (by simp)

/-- A stop and a start overwrite a start before the task takes it. -/
theorem stateConverges_overwritten :
    StateConverges .bare (fun _ => 0)
      [.enable ⟨none, false⟩, .disable ⟨none, false⟩, .enable ⟨none, false⟩, .background .poll]
      ((machine .bare fun _ => 0).run .start
        [.enable ⟨none, false⟩, .disable ⟨none, false⟩, .enable ⟨none, false⟩,
          .background .poll]) :=
  stateConverges .bare (fun _ => 0) _ (by decide +kernel)

end PrimeBle.Firmware
