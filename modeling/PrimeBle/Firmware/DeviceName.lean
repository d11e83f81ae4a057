import Mathlib.Data.Set.Basic
import PrimeBle.Firmware.Steps

/-! # Names that can be advertised

The scan response holds one element with the complete name, two bytes longer than
the name, and a legacy scan response holds 31 bytes. A stored name may be 31 bytes
long itself, so all scan responses fit exactly when the host sets no name longer
than 29 bytes (`Firmware.scanResponse_fits_iff`).
-/

namespace PrimeBle.Firmware

open HostProtocol

/-- What a legacy scan response can hold. -/
def scanResponseLimit : ℕ := 31

/-- Every scan response handed to the SoftDevice can be sent. -/
def FitsScanResponse (transition : Machine.Transition State Event Output) : Prop :=
  ∀ call, transition.output.advertised = some call →
    call.advertisement.scanData.length ≤ scanResponseLimit

/-- The host sets no name but the given ones. -/
def NamesIn (names : Set DeviceName) (event : Event) : Prop :=
  ∀ radio name, event = .request radio (some (.bluetooth (.setDeviceName name))) → name ∈ names

theorem length_fullName (name : DeviceName) :
    (fullName name).length = name.text.utf8ByteSize + 2 := rfl

/-- The stored name is one the host has set, or the first one. -/
def NameKnown (names : Set DeviceName) (state : State) : Prop :=
  state.deviceName ∈ names ∨ state.deviceName = State.start.deviceName

theorem nameKnown_step (platform : Platform) (uicr : Uicr) {names : Set DeviceName}
    {state : State} {event : Event} (known : NameKnown names state)
    (sets : NamesIn names event) : NameKnown names (step platform uicr state event).1 := by
  unfold NameKnown
  rcases step_settings platform uicr state event with
    same | ⟨radio, request, rfl, running, frame⟩
  · rw [same.name]
    exact known
  · by_cases renames : ∃ name, request = some (.bluetooth (.setDeviceName name))
    · obtain ⟨name, rfl⟩ := renames
      rw [step_request platform uicr running]
      exact Or.inl (sets radio name rfl)
    · rw [frame.name fun name asked => renames ⟨name, asked⟩]
      exact known

/-- Setting a name and enabling Bluetooth. -/
def advertiseName (name : DeviceName) : List Event :=
  [.request ⟨none, false⟩ (some (.bluetooth (.setDeviceName name))),
    .enable ⟨none, false⟩, .background .poll]

/-- The name ends up in a scan response. -/
theorem advertiseName_advertises (platform : Platform) (uicr : Uicr) (name : DeviceName) :
    ∃ transition ∈ (machine platform uicr).trace .start (advertiseName name),
      ∃ call, transition.output.advertised = some call ∧
        call.advertisement.scanData = fullName name := by
  let named : State := { State.start with deviceName := name, btAdvChanged := true }
  let enabled : State := { named with btEnable := some true, btStateCopy := true }
  have last : (machine platform uicr).fire enabled (.background .poll) ∈
      (machine platform uicr).trace .start (advertiseName name) :=
    List.mem_cons_of_mem _ (List.mem_cons_of_mem _ (List.mem_cons_self ..))
  exact ⟨_, last, _, poll_advertises platform uicr rfl rfl rfl, rfl⟩

section Names

variable (platform : Platform) (uicr : Uicr) {names : Set DeviceName}

/-- Short names fit along every run. -/
theorem fits_of_short (short : ∀ name ∈ names, name.text.utf8ByteSize ≤ 29)
    {events : List Event} (sets : ∀ event ∈ events, NamesIn names event) :
    ∀ transition ∈ (machine platform uicr).trace .start events, FitsScanResponse transition := by
  intro transition taken call advertised
  have kept : ∀ state event, NameKnown names state → NamesIn names event →
      NameKnown names ((machine platform uicr).step state event).1 :=
    fun state event known sets => nameKnown_step platform uicr known sets
  have admissible : ∀ transition ∈ (machine platform uicr).trace .start events,
      NamesIn names transition.event :=
    fun other member => sets _ ((machine platform uicr).event_mem_of_mem_trace member)
  have known := (machine platform uicr).source_preserved kept (Or.inr rfl) admissible
    transition taken
  obtain ⟨before, event, after, rfl, rfl⟩ := (machine platform uicr).mem_trace_iff.mp taken
  rw [Machine.fire_source] at known
  obtain ⟨rfl, -, -⟩ := step_advertised platform uicr advertised
  change (fullName _).length ≤ 31
  rcases known with given | first
  · rw [length_fullName]
    exact Nat.add_le_add_right (short _ given) 2
  · rw [first]
    decide

/-- A name that fits, once it is advertised, is short. -/
theorem short_of_fits {name : DeviceName}
    (fits : ∀ transition ∈ (machine platform uicr).trace .start (advertiseName name),
      FitsScanResponse transition) : name.text.utf8ByteSize ≤ 29 := by
  obtain ⟨transition, taken, call, advertised, data⟩ :=
    advertiseName_advertises platform uicr name
  have short := fits transition taken call advertised
  rw [data, length_fullName] at short
  unfold scanResponseLimit at short
  omega

theorem namesIn_advertiseName {name : DeviceName} (member : name ∈ names) :
    ∀ event ∈ advertiseName name, NamesIn names event := by
  intro event sent radio other renames
  simp only [advertiseName, List.mem_cons, List.not_mem_nil, or_false] at sent
  rcases sent with rfl | rfl | rfl
  · cases renames
    exact member
  · cases renames
  · cases renames

end Names

/-- **Device names.** Every run in which the host sets only given names builds
only scan responses that fit exactly when none of the names is longer than 29
bytes. -/
theorem scanResponse_fits_iff (platform : Platform) (uicr : Uicr) (names : Set DeviceName) :
    (∀ events, (∀ event ∈ events, NamesIn names event) →
        ∀ transition ∈ (machine platform uicr).trace .start events,
          FitsScanResponse transition) ↔
      ∀ name ∈ names, name.text.utf8ByteSize ≤ 29 := by
  constructor
  · intro fits name member
    exact short_of_fits platform uicr
      (fits (advertiseName name) (namesIn_advertiseName member))
  · intro short events sets
    exact fits_of_short platform uicr short sets

/-- A name of 30 bytes. -/
def longName : DeviceName := ⟨"abcdefghijklmnopqrstuvwxyzabcd", by decide⟩

/-- The name is accepted, and its scan response is too long. -/
theorem longName_not_fits :
    fromBytes maxMsgSize ([0, 24, 30] ++ longName.text.toUTF8.data.toList) =
        some (.bluetooth (.setDeviceName longName)) ∧
      ¬ ∀ transition ∈ (machine .bare fun _ => 0).trace .start (advertiseName longName),
        FitsScanResponse transition := by
  refine ⟨by decide +kernel, ?_⟩
  intro fits
  have short := short_of_fits .bare (fun _ => 0) fits
  exact absurd short (by decide)

end PrimeBle.Firmware
