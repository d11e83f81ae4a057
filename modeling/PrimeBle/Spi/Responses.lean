import PrimeBle.Boot.Serve
import PrimeBle.Device
import PrimeBle.Spi.Framing

/-! # Every request is answered by a response that fits

Whatever state it is in, either program answers every request with one response,
unless the request resets the chip or boots an image. All that they ever send is
marked as a response, is short enough for a frame, and goes out behind its exact
length (`Spi.requests_answered`).
-/

namespace PrimeBle.Spi

open HostProtocol

/-- A message is a response whose texts and data are short. -/
structure ShortResponse (message : HostProtocolMessage) : Prop where
  isResponse : message.isRequest = false
  short : message.Short

/-- A response fits a frame, behind its exact length. -/
structure Framed (response : HostProtocolMessage) : Prop where
  isResponse : response.isRequest = false
  fits : 2 + (Encode.hostProtocolMessage response).length ≤ maxMsgSize
  sent : ∃ high low,
    sendFrame response = some (high :: low :: Encode.hostProtocolMessage response) ∧
      announced high low = (Encode.hostProtocolMessage response).length

theorem ShortResponse.framed {response : HostProtocolMessage} (short : ShortResponse response) :
    Framed response where
  isResponse := short.isResponse
  fits := length_hostProtocolMessage_le short.short
  sent := sendFrame_of_short short.short

section Firmware

variable (hmac : HmacSha256) (uicr : Uicr) (context : Firmware.CommsContext)
  (radio : Firmware.RadioReadings) (state : Firmware.State)

theorem bluetoothHandler_response (msg : Bluetooth) :
    ShortResponse (Firmware.bluetoothHandler context radio state msg).2 := by
  cases msg with
  | disableChannels chan =>
      simp only [Firmware.bluetoothHandler]
      split
      · exact ⟨rfl, trivial⟩
      · exact ⟨rfl, trivial⟩
  | getReceivedData =>
      simp only [Firmware.bluetoothHandler]
      split
      · exact ⟨rfl, trivial⟩
      · exact ⟨rfl, trivial⟩
  | sendData data =>
      simp only [Firmware.bluetoothHandler]
      split
      · exact ⟨rfl, trivial⟩
      · exact ⟨rfl, trivial⟩
  | getFirmwareVersion =>
      have short : "4.0.0".utf8ByteSize ≤ 20 := by decide
      exact ⟨rfl, short⟩
  | _ => exact ⟨rfl, trivial⟩

theorem hmacChallengeResponse_response (nonce : UInt64) :
    ShortResponse (Firmware.hmacChallengeResponse hmac uicr nonce) := by
  simp only [Firmware.hmacChallengeResponse]
  split
  · exact ⟨rfl, trivial⟩
  · split
    · exact ⟨rfl, trivial⟩
    · exact ⟨rfl, trivial⟩

/-- The handler answers everything but a reset. -/
theorem hostProtocolHandler_cases (msg : HostProtocolMessage) :
    (msg = .reset ∧ Firmware.hostProtocolHandler hmac uicr context radio state msg =
        ({ state with power := .reset }, none)) ∨
      ∃ response, (Firmware.hostProtocolHandler hmac uicr context radio state msg).2 =
        some response ∧ ShortResponse response := by
  cases msg with
  | reset => exact Or.inl ⟨rfl, rfl⟩
  | bluetooth msg =>
      exact Or.inr ⟨_, rfl, bluetoothHandler_response context radio state msg⟩
  | challengeRequest nonce =>
      exact Or.inr ⟨_, rfl, hmacChallengeResponse_response hmac uicr nonce⟩
  | _ => exact Or.inr ⟨_, rfl, rfl, trivial⟩

theorem commsTask_response {request : Request} {response : HostProtocolMessage}
    (sent : (Firmware.commsTask hmac uicr context radio state request).2 = some response) :
    ShortResponse response := by
  cases request with
  | none =>
      cases sent
      exact ⟨rfl, trivial⟩
  | some msg =>
      rcases hostProtocolHandler_cases hmac uicr context radio state msg with
        ⟨-, silent⟩ | ⟨answer, answered, short⟩
      · simp only [Firmware.commsTask, silent] at sent
        cases sent
      · cases sent.symm.trans answered
        exact short

end Firmware

section Bootloader

/-- What an iteration of the loop sends. -/
def sentBy : Boot.Outcome → Option HostProtocolMessage
  | .next _ response => response
  | .sysReset _ => none
  | .jumpToApp _ sent => some sent

/-- It is what the device answers. -/
theorem ofOutcome_response (outcome : Boot.Outcome) :
    (Device.ofOutcome outcome).2 = sentBy outcome := by
  cases outcome with
  | _ => rfl

variable (platform : Boot.Platform) (hw : Boot.Peripherals) (loop : Boot.Loop)

theorem eraseFirmware_response (driver : Boot.FlashDriver) :
    ShortResponse (.bootloader (Boot.eraseFirmware driver loop).2) := by
  rcases Boot.eraseFirmware_cases loop driver with
    ⟨-, erased⟩ | ⟨_, -, -, erased⟩ | ⟨_, -, -, -, erased⟩ | ⟨_, -, -, -, erased⟩
  all_goals
    rw [erased]
    exact ⟨rfl, trivial⟩

theorem writeFirmwareBlock_response (driver : Boot.FlashDriver) (idx : UInt32)
    (data : List UInt8) :
    ShortResponse (.bootloader (Boot.writeFirmwareBlock driver loop idx data).2) := by
  simp only [Boot.writeFirmwareBlock]
  split
  · split
    · exact ⟨rfl, trivial⟩
    · exact ⟨rfl, trivial⟩
  · exact ⟨rfl, trivial⟩

/-- The version was read into a buffer of twenty bytes. -/
theorem firmwareVersion_response :
    ShortResponse (.bootloader (Boot.firmwareVersion platform loop)) := by
  simp only [Boot.firmwareVersion]
  split
  · next version date read =>
      refine ⟨rfl, ?_⟩
      simp only [Boot.readVersionAndBuildDate] at read
      split at read
      · cases read
      · split at read
        · next header _ fits =>
            cases read
            exact fits.1
        · cases read
  · exact ⟨rfl, trivial⟩

theorem challengeRequest_response (nonce : UInt64) :
    ShortResponse (Boot.challengeRequest platform loop nonce) := by
  simp only [Boot.challengeRequest]
  split
  · split
    · exact ⟨rfl, trivial⟩
    · exact ⟨rfl, trivial⟩
  · exact ⟨rfl, trivial⟩

/-- A boot request is acknowledged and left for the application, or answered. -/
theorem bootFirmware_response (write : CellWrite UInt32) (trust : TrustLevel) :
    (∃ hash next, Boot.verifyFwImage platform.cosign loop.flash trust =
        some (.valid, .valid, hash) ∧
      Boot.bootFirmware platform write loop trust =
        .jumpToApp next (.bootloader (.ackVerifyFirmware true hash))) ∨
      ∃ response, Boot.bootFirmware platform write loop trust = .next loop (some response) ∧
        ShortResponse response := by
  simp only [Boot.bootFirmware]
  split
  · next hash valid => exact Or.inl ⟨hash, _, valid, rfl⟩
  · exact Or.inr ⟨_, rfl, rfl, trivial⟩
  · exact Or.inr ⟨_, rfl, rfl, trivial⟩

/-- What the loop makes of a message: it resets, boots, answers, or passes over a
message that only a bootloader sends. -/
theorem dispatch_answers (msg : HostProtocolMessage) :
    (msg = .reset ∧ Boot.dispatch platform hw loop (some msg) = .sysReset loop) ∨
    (∃ trust hash next, msg = .bootloader (.bootFirmware trust) ∧
      Boot.verifyFwImage platform.cosign loop.flash trust = some (.valid, .valid, hash) ∧
      Boot.dispatch platform hw loop (some msg) =
        .jumpToApp next (.bootloader (.ackVerifyFirmware true hash))) ∨
    (∃ next response, Boot.dispatch platform hw loop (some msg) = .next next (some response) ∧
      ShortResponse response) ∨
    ∃ sub, msg = .bootloader sub ∧ sub.isRequest = false ∧
      Boot.dispatch platform hw loop (some msg) = .next loop none := by
  cases msg with
  | reset => exact .inl ⟨rfl, rfl⟩
  | challengeRequest nonce =>
      exact .inr (.inr (.inl ⟨_, _, rfl, challengeRequest_response platform loop nonce⟩))
  | bootloader msg =>
      cases msg with
      | eraseFirmware =>
          exact .inr (.inr (.inl ⟨_, _, rfl, eraseFirmware_response loop hw.flash⟩))
      | writeFirmwareBlock idx data =>
          have short := writeFirmwareBlock_response loop hw.flash idx data
          exact .inr (.inr (.inl ⟨_, _, rfl, short⟩))
      | firmwareVersion =>
          exact .inr (.inr (.inl ⟨_, _, rfl, firmwareVersion_response platform loop⟩))
      | bootloaderVersion =>
          have short : "3.0.3".utf8ByteSize ≤ 20 := by decide
          exact .inr (.inr (.inl ⟨_, _, rfl, rfl, short⟩))
      | challengeSet secret => exact .inr (.inr (.inl ⟨_, _, rfl, rfl, trivial⟩))
      | bootFirmware trust =>
          rcases bootFirmware_response platform loop hw.customer trust with
            ⟨hash, next, valid, jumps⟩ | ⟨response, answered, short⟩
          · exact .inr (.inl ⟨trust, hash, next, rfl, valid, jumps⟩)
          · exact .inr (.inr (.inl ⟨loop, response, answered, short⟩))
      | _ => exact .inr (.inr (.inr ⟨_, rfl, rfl, rfl⟩))
  | _ => exact .inr (.inr (.inl ⟨_, _, rfl, rfl, trivial⟩))

theorem dispatch_response {request : Request} {response : HostProtocolMessage}
    (sent : sentBy (Boot.dispatch platform hw loop request) = some response) :
    ShortResponse response := by
  cases request with
  | none =>
      cases sent
      exact ⟨rfl, trivial⟩
  | some msg =>
      rcases dispatch_answers platform hw loop msg with
        ⟨-, outcome⟩ | ⟨_, _, _, -, -, outcome⟩ | ⟨_, answer, outcome, short⟩ |
          ⟨_, -, -, outcome⟩
      · rw [outcome] at sent
        cases sent
      · rw [outcome] at sent
        cases sent
        exact ⟨rfl, trivial⟩
      · rw [outcome] at sent
        cases sent
        exact short
      · rw [outcome] at sent
        cases sent

end Bootloader

/-- What the application makes of a message: it resets, or sends one response. -/
def FirmwareAnswers (msg : HostProtocolMessage) : Prop :=
  ∀ hmac uicr context radio state,
    (msg = .reset ∧ Firmware.hostProtocolHandler hmac uicr context radio state msg =
        ({ state with power := .reset }, none)) ∨
      ∃ response, (Firmware.hostProtocolHandler hmac uicr context radio state msg).2 =
        some response ∧ Framed response

/-- What the bootloader makes of a message: it resets, acknowledges an image that
verifies and jumps to it, or sends one response. -/
def BootloaderAnswers (msg : HostProtocolMessage) : Prop :=
  ∀ platform hw loop,
    (msg = .reset ∧ Boot.dispatch platform hw loop (some msg) = .sysReset loop) ∨
    (∃ trust hash next, msg = .bootloader (.bootFirmware trust) ∧
      Boot.verifyFwImage platform.cosign loop.flash trust = some (.valid, .valid, hash) ∧
      Boot.dispatch platform hw loop (some msg) =
        .jumpToApp next (.bootloader (.ackVerifyFirmware true hash))) ∨
    ∃ next response, Boot.dispatch platform hw loop (some msg) = .next next (some response) ∧
      Framed response

theorem bootloaderAnswers_of_isRequest {msg : HostProtocolMessage} (asks : msg.isRequest = true) :
    BootloaderAnswers msg := by
  intro platform hw loop
  rcases dispatch_answers platform hw loop msg with
    resets | boots | ⟨next, response, outcome, short⟩ | ⟨sub, rfl, target, -⟩
  · exact .inl resets
  · exact .inr (.inl boots)
  · exact .inr (.inr ⟨next, response, outcome, short.framed⟩)
  · cases target.symm.trans asks

/-- **Answers.** Every request is answered by both programs in every state, and
everything they send is a response that fits its frame. -/
theorem requests_answered :
    (∀ msg : HostProtocolMessage, msg.isRequest = true →
      FirmwareAnswers msg ∧ BootloaderAnswers msg) ∧
    (∀ hmac uicr context radio state request response,
      (Firmware.commsTask hmac uicr context radio state request).2 = some response →
        Framed response) ∧
    ∀ platform hw loop request response,
      sentBy (Boot.dispatch platform hw loop request) = some response → Framed response := by
  refine ⟨fun msg asks => ⟨?_, bootloaderAnswers_of_isRequest asks⟩, ?_, ?_⟩
  · intro hmac uicr context radio state
    rcases hostProtocolHandler_cases hmac uicr context radio state msg with
      resets | ⟨response, answered, short⟩
    · exact Or.inl resets
    · exact Or.inr ⟨response, answered, short.framed⟩
  · intro hmac uicr context radio state request response sent
    exact (commsTask_response hmac uicr context radio state sent).framed
  · intro platform hw loop request response sent
    exact (dispatch_response platform hw loop sent).framed

end PrimeBle.Spi
