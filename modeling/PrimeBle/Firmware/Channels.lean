import PrimeBle.Firmware.Steps

/-! # Advertising channels

Disabling all three channels is refused by comparing the requested flags with
the set of all named ones. Flags keep bits without a name, so a request with all
three channels and such a bit is stored. At least one channel stays on exactly
when no such request arrives (`Firmware.channelOn_iff_onlyNamed`).
-/

namespace PrimeBle.Firmware

open HostProtocol

/-- What arrives at the application: a transaction over SPI, or anything else. -/
inductive Input where
  | spi (radio : RadioReadings) (transaction : List UInt8)
  | background (event : Background)

/-- The event an input is handled as. -/
def Input.event : Input → Event
  | spi radio transaction => .request radio (fromBytes maxMsgSize transaction)
  | background event => .background event

/-- At least one of the three channels is not disabled. -/
def ChannelOn (disabled : UInt8) : Prop := ¬ AdvChan.contains ⟨disabled⟩ .all

instance (disabled : UInt8) : Decidable (ChannelOn disabled) :=
  inferInstanceAs (Decidable (¬ _ = true))

/-- A channel stays on in the state and in what is advertised, and a request that
would change that is refused. -/
def KeepsChannelOn (transition : Machine.Transition State Event Output) : Prop :=
  ChannelOn transition.target.btAdvChan ∧
    (∀ call, transition.output.advertised = some call →
      ChannelOn call.advertisement.channelMask[4]) ∧
    ∀ radio chan, transition.source.power = .running →
      transition.event = .request radio (some (.bluetooth (.disableChannels chan))) →
      chan.contains .all →
        transition.output.response = some (.bluetooth .nackDisableChannels) ∧
          transition.target.btAdvChan = transition.source.btAdvChan ∧
          transition.target.btAdvChanged = transition.source.btAdvChanged

/-- A request that disables all channels has no other bit. -/
def OnlyNamed (state : State) (event : Event) : Prop :=
  ∀ radio chan, state.power = .running →
    event = .request radio (some (.bluetooth (.disableChannels chan))) →
    chan.contains .all → chan = .all

section Steps

variable (platform : Platform) (uicr : Uicr) {state : State}

theorem step_disableChannels (running : state.power = .running) (radio : RadioReadings)
    (chan : AdvChan) :
    step platform uicr state (.request radio (some (.bluetooth (.disableChannels chan)))) =
      if chan = .all then
        (state, { response := some (.bluetooth .nackDisableChannels), advertised := none })
      else
        ({ state with btAdvChan := chan.bits, btAdvChanged := true },
          { response := some (.bluetooth .ackDisableChannels), advertised := none }) := by
  have handled : bluetoothHandler platform.context radio state (.disableChannels chan) =
      if chan = .all then (state, .bluetooth .nackDisableChannels)
      else
        ({ state with btAdvChan := chan.bits, btAdvChanged := true },
          .bluetooth .ackDisableChannels) := rfl
  rw [step_request platform uicr running, commsTask_bluetooth, handled]
  split
  · rfl
  · rfl

theorem channelOn_step {event : Event} (on : ChannelOn state.btAdvChan)
    (named : OnlyNamed state event) :
    ChannelOn (step platform uicr state event).1.btAdvChan := by
  rcases step_settings platform uicr state event with
    same | ⟨radio, request, rfl, running, frame⟩
  · rw [same.channels]
    exact on
  · by_cases disables : ∃ chan, request = some (.bluetooth (.disableChannels chan))
    · obtain ⟨chan, rfl⟩ := disables
      rw [step_disableChannels platform uicr running]
      split
      · exact on
      · next different => exact fun covers => different (named radio chan running rfl covers)
    · rw [frame.channels fun chan asked => disables ⟨chan, asked⟩]
      exact on

theorem keepsChannelOn_of_onlyNamed {event : Event} (on : ChannelOn state.btAdvChan)
    (named : OnlyNamed state event) :
    KeepsChannelOn ((machine platform uicr).fire state event) := by
  refine ⟨channelOn_step platform uicr on named, ?_, ?_⟩
  · intro call advertised
    rw [(step_advertised platform uicr advertised).1]
    exact on
  · rintro radio chan running rfl covers
    rw [Machine.fire_source] at running ⊢
    rw [Machine.fire_output, Machine.fire_target, machine_step,
      step_disableChannels platform uicr running radio chan,
      if_pos (named radio chan running rfl covers)]
    exact ⟨rfl, rfl, rfl⟩

theorem onlyNamed_of_keepsChannelOn {event : Event}
    (keeps : KeepsChannelOn ((machine platform uicr).fire state event)) :
    OnlyNamed state event := by
  rintro radio chan running rfl covers
  by_contra different
  have refused := (keeps.2.2 radio chan running rfl covers).1
  rw [Machine.fire_output, machine_step, step_disableChannels platform uicr running radio chan,
    if_neg different] at refused
  cases refused

end Steps

/-- **Channels.** Along every run over SPI transactions and other inputs, a
channel always stays on and requests that would switch all of them off are
refused, exactly when no request that disables all three has another bit. -/
theorem channelOn_iff_onlyNamed (platform : Platform) (uicr : Uicr) (inputs : List Input) :
    (∀ transition ∈ (machine platform uicr).trace .start (inputs.map Input.event),
        KeepsChannelOn transition) ↔
      ∀ transition ∈ (machine platform uicr).trace .start (inputs.map Input.event),
        OnlyNamed transition.source transition.event := by
  have kept : ∀ state event, ChannelOn state.btAdvChan → OnlyNamed state event →
      KeepsChannelOn ((machine platform uicr).fire state event) ∧
        ChannelOn ((machine platform uicr).step state event).1.btAdvChan :=
    fun state event on named =>
      ⟨keepsChannelOn_of_onlyNamed platform uicr on named, channelOn_step platform uicr on named⟩
  have needed : ∀ state event, ChannelOn state.btAdvChan →
      KeepsChannelOn ((machine platform uicr).fire state event) → OnlyNamed state event :=
    fun state event _ => onlyNamed_of_keepsChannelOn platform uicr
  have start : ChannelOn State.start.btAdvChan := by decide
  exact (machine platform uicr).forall_trace_iff kept needed start (inputs.map Input.event)

/-- A request with every bit set switches all channels off. -/
theorem allBits_not_channelOn :
    ¬ ∀ transition ∈ (machine .bare fun _ => 0).trace .start
        ([Input.spi ⟨none, false⟩ [0, 0, 255]].map Input.event),
      KeepsChannelOn transition := by
  intro keeps
  have off := (keeps _ (List.mem_singleton.mpr rfl)).1
  exact absurd off (by decide +kernel)

end PrimeBle.Firmware
