import PrimeBle.Analyzer.Transactions
import PrimeBle.Spi.Lockstep

/-! # The transcript of a session

A host talks to the device over the bus: for each message it transfers the
encoding, and where there is a response it reads it in a transaction of its own.
While a request is read the device clocks out the byte that marks the running
program. Captured from the bus, over boots, resets and whatever happens in
between, such a session is shown by the analyzer as its transcript: each request
with the program it reached, and each response behind its request
(`Analyzer.session_shown`).
-/

namespace PrimeBle.Analyzer

open HostProtocol

variable {Time : Type}

/-- A transaction on the bus. -/
structure Lines (Time : Type) where
  selected : Time × Time
  deselected : Time × Time
  words : List (Word Time)

namespace Lines

variable (lines : Lines Time)

def mosi : List UInt8 := lines.words.flatMap Word.mosi

def miso : List UInt8 := lines.words.flatMap Word.miso

/-- What the SPI analyzer below makes of it. -/
def captured : List (SpiFrame Time) := transaction lines.selected lines.deselected lines.words

/-- A frame that spans it. -/
def spanned (bubble : Bubble) : AnalyzerFrame Time where
  bubble := bubble
  startTime := some lines.selected.1
  endTime := some lines.deselected.2

end Lines

/-- The host sends a message, and reads the response if there is one. -/
structure Exchange (Time : Type) where
  hw : Boot.Peripherals
  radio : Firmware.RadioReadings
  msg : HostProtocolMessage
  request : Lines Time
  response : Lines Time

/-- What happens on the bus and around it. -/
inductive BusEvent (Time : Type) where
  | exchange (call : Exchange Time)
  | background (event : Firmware.Background)
  | reset

/-- What the device is told. -/
def BusEvent.input : BusEvent Time → Spi.Input
  | exchange call => .transaction call.hw call.radio call.request.mosi
  | background event => .background event
  | reset => .reset

/-- The byte that is clocked out while nothing is written. -/
def orc : Device → UInt8
  | .bootloader _ => 0x69
  | .application _ _ _ => 0x51

/-- The program that marks its requests so. -/
def programName : Device → String
  | .bootloader _ => "Bootloader"
  | .application _ _ _ => "Application"

/-- The running program is told by its mark. -/
theorem targetOf_orc (device : Device) {miso : List UInt8}
    (marked : miso.head? = some (orc device)) :
    Idle miso ∧ targetOf miso = programName device := by
  unfold targetOf
  rw [marked]
  cases device with
  | bootloader loop => exact ⟨Or.inr (Or.inl marked), rfl⟩
  | application flash uicr app => exact ⟨Or.inr (Or.inr marked), rfl⟩

section Bus

variable (platform : Device.Platform)

/-- The response to an event, if there is one. -/
def answer (device : Device) (event : BusEvent Time) : Option HostProtocolMessage :=
  (Spi.serve platform device event.input).2

/-- What is captured of an event. -/
def traffic (device : Device) : BusEvent Time → List (SpiFrame Time)
  | .exchange call =>
      call.request.captured ++
        (answer platform device (.exchange call)).toList.flatMap fun _ => call.response.captured
  | _ => []

/-- What should be shown of an event. -/
def transcript (device : Device) : BusEvent Time → List (AnalyzerFrame Time)
  | .exchange call =>
      call.request.spanned (.request (describe call.msg) (programName device)) ::
        (answer platform device (.exchange call)).toList.map fun response =>
          call.response.spanned (.response (describe response))
  | _ => []

/-- The device on the bus, from one event to the next, with what is captured. -/
def bus : Machine Device (BusEvent Time) (List (SpiFrame Time)) where
  step device event := ((Spi.serve platform device event.input).1, traffic platform device event)

/-- The lines carry what the host and the device put on them: the encoding of the
message, while the device marks the other line, and then the frame of the
response, whatever the host sends meanwhile. Both may be followed by padding. -/
structure Wired (device : Device) (call : Exchange Time) : Prop where
  sized : call.msg.Sized
  request : ∃ padding, call.request.mosi = Encode.hostProtocolMessage call.msg ++ padding
  marked : call.request.miso.head? = some (orc device)
  response : ∀ response, answer platform device (.exchange call) = some response →
    ∃ frame padding, Spi.sendFrame response = some frame ∧
      call.response.miso = frame ++ padding

end Bus

section Answers

variable (platform : Device.Platform)

/-- An application that resets sends nothing, and otherwise its response. -/
theorem ofApplication_response {flash : Boot.Flash} {uicr : Uicr}
    {after : Firmware.State × Firmware.Output} {response : HostProtocolMessage}
    (sent : (Device.ofApplication flash uicr after).2 = some response) :
    after.2.response = some response := by
  rcases Device.ofApplication_cases flash uicr after with left | stays
  · rw [left] at sent
    cases sent
  · rw [stays] at sent
    exact sent

/-- Whatever is answered fits its frame. -/
theorem answer_framed {device : Device} {event : BusEvent Time} {response : HostProtocolMessage}
    (sent : answer platform device event = some response) : Spi.Framed response := by
  cases device with
  | bootloader loop =>
      cases event with
      | background event => cases sent
      | reset => cases sent
      | exchange call =>
          unfold answer Spi.serve at sent
          simp only [BusEvent.input, Spi.ofOutcome_response] at sent
          by_cases carries : call.request.mosi = []
          · rw [carries] at sent
            cases sent
          · rw [Spi.turn_of_ne_nil platform loop call.hw carries] at sent
            exact (Spi.dispatch_response platform.boot call.hw loop sent).framed
  | application flash uicr app =>
      cases event with
      | reset => cases sent
      | background event =>
          have silent := ofApplication_response sent
          unfold Firmware.step at silent
          split at silent
          · cases silent
          · cases silent
      | exchange call =>
          have answered := ofApplication_response sent
          unfold Firmware.step at answered
          split at answered
          · exact (Spi.commsTask_response platform.firmware.hmac uicr platform.firmware.context
              call.radio app answered).framed
          · cases answered

end Answers

section Steps

/-- What is shown along two captures. -/
theorem frames_append (analyzer : HostProtocolAnalyzer Time)
    (first second : List (SpiFrame Time)) :
    frames analyzer (first ++ second) =
      frames analyzer first ++ frames ((machine Time).run analyzer first) second := by
  unfold frames
  rw [Machine.trace_append, List.filterMap_append]

variable (platform : Device.Platform) (analyzer : HostProtocolAnalyzer Time)

/-- A request is shown with the program that it reached. -/
theorem frames_request {device : Device} {call : Exchange Time}
    (wired : Wired platform device call) :
    frames analyzer call.request.captured =
      [call.request.spanned (.request (describe call.msg) (programName device))] := by
  obtain ⟨padding, carried⟩ := wired.request
  obtain ⟨idle, target⟩ := targetOf_orc device wired.marked
  have shown := process_request
    (collected call.request.selected call.request.deselected call.request.words)
    wired.sized carried idle
  rw [Lines.captured, frames_transaction, shown, ← target]
  rfl

/-- A response is shown behind it. -/
theorem frames_response {device : Device} {call : Exchange Time} {response : HostProtocolMessage}
    (wired : Wired platform device call)
    (sent : answer platform device (.exchange call) = some response) :
    frames analyzer call.response.captured =
      [call.response.spanned (.response (describe response))] := by
  obtain ⟨frame, padding, framed, carried⟩ := wired.response response sent
  have fits : (Encode.hostProtocolMessage response).length ≤ maxMsgSize - 2 :=
    Nat.le_sub_of_add_le' (answer_framed platform sent).fits
  unfold Spi.sendFrame Spi.toSlice at framed
  rw [if_pos fits] at framed
  cases framed
  have shown := process_response
    (collected call.response.selected call.response.deselected call.response.words) fits carried
  rw [Lines.captured, frames_transaction, shown]
  rfl

/-- What is captured of one event is shown as its part of the transcript. -/
theorem frames_traffic {device : Device} {event : BusEvent Time}
    (wired : ∀ call, event = .exchange call → Wired platform device call) :
    frames analyzer (traffic platform device event) = transcript platform device event := by
  cases event with
  | background event => rfl
  | reset => rfl
  | exchange call =>
      have request := frames_request platform analyzer (wired call rfl)
      simp only [traffic, transcript, frames_append, request]
      cases sent : answer platform device (.exchange call) with
      | none => rfl
      | some response =>
          have later := frames_response platform
            ((machine Time).run analyzer call.request.captured) (wired call rfl) sent
          simp only [Option.toList_some, List.flatMap_singleton, later]
          rfl

end Steps

/-- **Sessions.** From whatever state, the analyzer shows what is captured along
every run of the device, over its boots and resets, as the transcript of the run:
each request with the program that it reached, and its response right behind it. -/
theorem session_shown (platform : Device.Platform) (device : Device)
    (events : List (BusEvent Time)) (analyzer : HostProtocolAnalyzer Time)
    (wired : ∀ transition ∈ (bus platform).trace device events, ∀ call,
      transition.event = .exchange call → Wired platform transition.source call) :
    frames analyzer (((bus platform).trace device events).flatMap (·.output)) =
      ((bus platform).trace device events).flatMap fun transition =>
        transcript platform transition.source transition.event := by
  induction events generalizing device analyzer with
  | nil => rfl
  | cons event events ih =>
      rw [Machine.trace_cons] at wired ⊢
      have first := frames_traffic platform analyzer (wired _ (List.mem_cons_self ..))
      have later := ih ((bus platform).step device event).1
        ((machine Time).run analyzer (traffic platform device event))
        fun transition taken => wired transition (List.mem_cons_of_mem _ taken)
      rw [List.flatMap_cons, List.flatMap_cons, frames_append]
      exact congrArg₂ _ first later

/-- A transaction of one word. -/
def oneWord (time : ℕ) (mosi miso : List UInt8) : Lines ℕ where
  selected := (time, time)
  deselected := (time + 1, time + 1)
  words := [{ mosi, miso, startTime := time, endTime := time + 1 }]

/-- The host resets the application and asks the bootloader for its state. -/
def resetAndAsk : List (BusEvent ℕ) :=
  [.exchange
    { hw := ⟨Boot.nvmc, .nor⟩
      radio := ⟨none, false⟩
      msg := .reset
      request := oneWord 0 [2] [0x51]
      response := oneWord 0 [] [] },
   .exchange
    { hw := ⟨Boot.nvmc, .nor⟩
      radio := ⟨none, false⟩
      msg := .getState
      request := oneWord 2 [3] [0x69]
      response := oneWord 4 [0] [0, 2, 4, 2] }]

theorem session_shown_resetAndAsk :
    (((bus .bare).trace Spi.freshApplication resetAndAsk).flatMap fun transition =>
        transcript .bare transition.source transition.event) =
      [⟨.request "Reset" "Application", some 0, some 1⟩,
       ⟨.request "GetState" "Bootloader", some 2, some 3⟩,
       ⟨.response "AckState(FirmwareUpgrade)", some 4, some 5⟩] ∧
    frames .reset (((bus .bare).trace Spi.freshApplication resetAndAsk).flatMap (·.output)) =
      ((bus .bare).trace Spi.freshApplication resetAndAsk).flatMap fun transition =>
        transcript .bare transition.source transition.event := by
  constructor
  · rfl
  · apply session_shown
    intro transition taken call same
    rcases List.mem_cons.mp taken with rfl | taken
    · cases same
      refine ⟨trivial, ⟨[], rfl⟩, rfl, ?_⟩
      rintro response ⟨⟩
    · obtain rfl := List.mem_singleton.mp taken
      cases same
      refine ⟨trivial, ⟨[], rfl⟩, rfl, ?_⟩
      rintro response ⟨⟩
      exact ⟨[0, 2, 4, 2], [], rfl, rfl⟩

end PrimeBle.Analyzer
