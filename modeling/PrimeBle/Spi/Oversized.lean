import PrimeBle.Library.PostcardPrefix
import PrimeBle.Spi.Lockstep

/-! # Messages that are too long

A message is cut to the receive buffer of the program that reads it, and what is
left of it is no message (`Spi.fromBytes_cut`). The buffer of the application is as
long as a message may be, that of the bootloader longer; so messages over that
length are rejected exactly by the application, and by the bootloader when they do
not fit its buffer either (`Spi.rejects_iff_cut`).
-/

namespace PrimeBle.Spi

open HostProtocol Postcard

section Decoders

/-! Every decoder looks only at the bytes it takes. -/

instance prompt_advChan : Prompt Decode.advChan := prompt_bind ..

instance prompt_message : Prompt Decode.message := by
  refine prompt_bytes.bind fun data => ?_
  split <;> infer_instance

instance prompt_deviceName : Prompt Decode.deviceName := by
  refine prompt_str.bind fun text => ?_
  split <;> infer_instance

instance prompt_txPower : Prompt Decode.txPower := by
  refine prompt_variant.bind fun index => ?_
  split <;> infer_instance

instance prompt_secretSaveResponse : Prompt Decode.secretSaveResponse := by
  refine prompt_variant.bind fun index => ?_
  split <;> infer_instance

instance prompt_trustLevel : Prompt Decode.trustLevel := by
  refine prompt_variant.bind fun index => ?_
  split <;> infer_instance

instance prompt_state : Prompt Decode.state := by
  refine prompt_variant.bind fun index => ?_
  split <;> infer_instance

instance prompt_postcardError : Prompt Decode.postcardError := by
  refine prompt_variant.bind fun index => ?_
  split <;> infer_instance

instance prompt_sendDataResponse : Prompt Decode.sendDataResponse := by
  refine prompt_variant.bind fun index => ?_
  split <;> infer_instance

instance prompt_connectionStatus : Prompt Decode.connectionStatus := by
  refine prompt_variant.bind fun index => ?_
  split <;> infer_instance

instance prompt_bluetoothStatus : Prompt Decode.bluetoothStatus := prompt_bind ..

instance prompt_bluetooth : Prompt Decode.bluetooth := by
  refine prompt_variant.bind fun index => ?_
  split <;> infer_instance

instance prompt_bootloader : Prompt Decode.bootloader := by
  refine prompt_variant.bind fun index => ?_
  split <;> infer_instance

instance prompt_hostProtocolMessage : Prompt Decode.hostProtocolMessage := by
  refine prompt_variant.bind fun index => ?_
  split <;> infer_instance

end Decoders

/-- A message that does not fit the receive buffer is not decoded. -/
theorem fromBytes_cut {msg : HostProtocolMessage} (sized : msg.Sized) {bufferSize : ℕ}
    (long : bufferSize < (Encode.hostProtocolMessage msg).length) :
    fromBytes bufferSize (Encode.hostProtocolMessage msg) = none :=
  (reads_hostProtocolMessage sized).cut long

/-- The device stays as it is, and answers that the message could not be decoded. -/
def Rejects (platform : Device.Platform) (device : Device) (input : Input) : Prop :=
  ∃ error, serve platform device input = (device, some (.postcardError error))

section Dispatch

variable (platform : Boot.Platform) (hw : Boot.Peripherals) (loop : Boot.Loop)

theorem bootFirmware_sends (write : CellWrite UInt32) (trust : TrustLevel) :
    ∃ msg, sentBy (Boot.bootFirmware platform write loop trust) = some (.bootloader msg) := by
  unfold Boot.bootFirmware
  split
  · exact ⟨_, rfl⟩
  · exact ⟨_, rfl⟩
  · exact ⟨_, rfl⟩

theorem challengeRequest_sends (nonce : UInt64) :
    ∃ result, Boot.challengeRequest platform loop nonce = .challengeResult result := by
  unfold Boot.challengeRequest
  rw [HmacSha256.newFromSlice_eq]
  split
  · exact ⟨_, rfl⟩
  · exact ⟨_, rfl⟩

/-- The loop never reports a message that it has decoded. -/
theorem dispatch_decoded (msg : HostProtocolMessage) (error : PostcardError) :
    sentBy (Boot.dispatch platform hw loop (some msg)) ≠ some (.postcardError error) := by
  intro sent
  cases msg with
  | bootloader msg =>
      cases msg with
      | bootFirmware trust =>
          obtain ⟨answer, answered⟩ := bootFirmware_sends platform loop hw.customer trust
          cases answered.symm.trans sent
      | _ => cases sent
  | challengeRequest nonce =>
      obtain ⟨result, answered⟩ := challengeRequest_sends platform loop nonce
      change some (Boot.challengeRequest platform loop nonce) = _ at sent
      rw [answered] at sent
      cases sent
  | _ => cases sent

end Dispatch

section Cut

variable (platform : Device.Platform) {msg : HostProtocolMessage} (sized : msg.Sized)
  (hw : Boot.Peripherals) (radio : Firmware.RadioReadings)
include sized

/-- The application rejects all messages that are too long. -/
theorem rejects_application (long : maxMsgSize < (Encode.hostProtocolMessage msg).length)
    (flash : Boot.Flash) (uicr : Uicr) {app : Firmware.State}
    (running : app.power = .running) :
    Rejects platform (.application flash uicr app)
      (.transaction hw radio (Encode.hostProtocolMessage msg)) := by
  refine ⟨.deser, ?_⟩
  simp only [serve, fromBytes_cut sized long, Device.step,
    Firmware.step_request platform.firmware uicr running, Firmware.commsTask,
    Device.ofApplication, running]

/-- The bootloader rejects those that do not fit its own buffer. -/
theorem rejects_bootloader_iff (loop : Boot.Loop) :
    Rejects platform (.bootloader loop)
        (.transaction hw radio (Encode.hostProtocolMessage msg)) ↔
      Boot.rawBufSize < (Encode.hostProtocolMessage msg).length := by
  unfold Rejects serve
  simp only [turn_of_ne_nil platform loop hw (encode_ne_nil msg)]
  constructor
  · intro ⟨error, rejected⟩
    by_contra fits
    have decoded := fromBytes_encode sized (not_lt.mp fits) []
    rw [List.append_nil] at decoded
    rw [decoded] at rejected
    have answered := congrArg Prod.snd rejected
    rw [ofOutcome_response] at answered
    exact dispatch_decoded platform.boot hw loop msg error answered
  · intro cut
    rw [fromBytes_cut sized cut]
    exact ⟨.deser, rfl⟩

end Cut

/-- **Messages that are too long.** The program that runs rejects them exactly when
it is the application, or they do not fit the buffer of the bootloader either. -/
theorem rejects_iff_cut (platform : Device.Platform) (device : Device) (hw : Boot.Peripherals)
    (radio : Firmware.RadioReadings) (msg : HostProtocolMessage) (sized : msg.Sized)
    (long : maxMsgSize < (Encode.hostProtocolMessage msg).length) (reading : Reading device) :
    Rejects platform device (.transaction hw radio (Encode.hostProtocolMessage msg)) ↔
      device.isApplication = true ∨
        Boot.rawBufSize < (Encode.hostProtocolMessage msg).length := by
  cases device with
  | bootloader loop =>
      refine (rejects_bootloader_iff platform sized hw radio loop).trans ?_
      exact (or_iff_right Bool.false_ne_true).symm
  | application flash uicr app =>
      exact iff_of_true (rejects_application platform sized hw radio long flash uicr reading)
        (.inl rfl)

/-- A block of three hundred bytes. -/
def longBlock : HostProtocolMessage :=
  .bootloader (.writeFirmwareBlock 0 (List.replicate 300 0))

/-- The application rejects it. -/
theorem rejects_longBlock :
    Rejects .bare freshApplication (.transaction ⟨Boot.nvmc, .nor⟩ ⟨none, false⟩
      (Encode.hostProtocolMessage longBlock)) := by
  have sized : longBlock.Sized := by
    change (List.replicate 300 (0 : UInt8)).length < 2 ^ 32
    decide +kernel
  exact (rejects_iff_cut .bare freshApplication _ _ longBlock sized (by decide +kernel) rfl).mpr
    (.inl rfl)

/-- The bootloader writes it to flash. -/
theorem not_rejects_longBlock :
    (maxMsgSize < (Encode.hostProtocolMessage longBlock).length) ∧
    ¬ Rejects .bare freshBootloader (.transaction ⟨Boot.nvmc, .nor⟩ ⟨none, false⟩
        (Encode.hostProtocolMessage longBlock)) ∧
    (serve .bare freshBootloader (.transaction ⟨Boot.nvmc, .nor⟩ ⟨none, false⟩
        (Encode.hostProtocolMessage longBlock))).1.flash baseAppAddr.toNat ≠
      freshBootloader.flash baseAppAddr.toNat := by
  have written : (serve .bare freshBootloader (.transaction ⟨Boot.nvmc, .nor⟩ ⟨none, false⟩
        (Encode.hostProtocolMessage longBlock))).1.flash baseAppAddr.toNat ≠
      freshBootloader.flash baseAppAddr.toNat := by decide +kernel
  refine ⟨by decide +kernel, ?_, written⟩
  intro ⟨error, rejected⟩
  rw [rejected] at written
  exact written rfl

end PrimeBle.Spi
