import PrimeBle.HostProtocol.Encode
import PrimeBle.Library.PostcardCanonical

/-! # What the decoder accepts

Bytes that decode are the encoding of their message, or longer than it, and the
message is one that is decoded from its encoding (`HostProtocol.takes_hostProtocolMessage`).
So a program receives a message in a buffer of some size exactly if its encoding
fits the buffer (`HostProtocol.receivable_iff`), and whoever repeats a message they
received sends no more bytes than they took (`HostProtocol.accepted_shortest`).
-/

namespace PrimeBle.HostProtocol

open Postcard

section Cases

variable {α β : Type} {encode : α → List UInt8} {valid : α → Prop} {index : ℕ}

/-- The value is valid, and the bytes are the fields its variant has, or longer. -/
def Fields (encode : α → List UInt8) (valid : α → Prop) (index : ℕ) (used : List UInt8)
    (value : α) : Prop :=
  valid value ∧
    ∃ fields, encode value = Encode.variant (UInt32.ofNat index) ++ fields ∧ Covers fields used

/-- An enumeration is the variant and the fields. -/
theorem takes_case {cases : ℕ → Decoder α}
    (each : ∀ index, Takes (cases index) (Fields encode valid index)) :
    Takes (variant >>= cases) (Canonical encode valid) := by
  refine takes_variant.bind fun index => (each index).mono ?_
  rintro used value ⟨holds, fields, encoded, covers⟩ front ⟨_, index_covers⟩
  refine ⟨holds, ?_⟩
  rw [encoded]
  exact index_covers.append covers

theorem takes_unit {value : α} (holds : valid value)
    (encoded : encode value = Encode.variant (UInt32.ofNat index)) :
    Takes (pure value) (Fields encode valid index) :=
  Takes.pure ⟨holds, [], by rw [encoded, List.append_nil], .refl []⟩

theorem takes_field {decoder : Decoder β} {field : β → List UInt8} {fits : β → Prop} {f : β → α}
    (taken : Takes decoder (Canonical field fits)) (holds : ∀ value, fits value → valid (f value))
    (encoded : ∀ value, encode (f value) = Encode.variant (UInt32.ofNat index) ++ field value) :
    Takes (do pure (f (← decoder))) (Fields encode valid index) := by
  refine taken.map ?_
  rintro used value ⟨fit, covers⟩
  exact ⟨holds value fit, field value, encoded value, covers⟩

end Cases

section Parts

theorem takes_advChan : Shortest Decode.advChan Encode.advChan := by
  refine takes_u8.map ?_
  rintro used value ⟨_, covers⟩
  exact ⟨trivial, covers⟩

theorem takes_message : Shortest Decode.message Encode.message := by
  refine takes_bytes.bind fun data => ?_
  split
  · refine Takes.pure ?_
    rintro front ⟨_, covers⟩
    rw [List.append_nil]
    exact ⟨trivial, covers⟩
  · exact Takes.failure

theorem takes_deviceName : Shortest Decode.deviceName Encode.deviceName := by
  refine takes_str.bind fun text => ?_
  split
  · refine Takes.pure ?_
    rintro front ⟨_, covers⟩
    rw [List.append_nil]
    exact ⟨trivial, covers⟩
  · exact Takes.failure

theorem takes_txPower : Shortest Decode.txPower Encode.txPower := by
  refine takes_case fun index => ?_
  split
  any_goals exact takes_unit trivial rfl
  exact Takes.failure

theorem takes_secretSaveResponse :
    Shortest Decode.secretSaveResponse Encode.secretSaveResponse := by
  refine takes_case fun index => ?_
  split
  any_goals exact takes_unit trivial rfl
  exact Takes.failure

theorem takes_trustLevel : Shortest Decode.trustLevel Encode.trustLevel := by
  refine takes_case fun index => ?_
  split
  any_goals exact takes_unit trivial rfl
  exact Takes.failure

theorem takes_state : Shortest Decode.state Encode.state := by
  refine takes_case fun index => ?_
  split
  any_goals exact takes_unit trivial rfl
  exact Takes.failure

theorem takes_postcardError : Shortest Decode.postcardError Encode.postcardError := by
  refine takes_case fun index => ?_
  split
  any_goals exact takes_unit trivial rfl
  exact Takes.failure

theorem takes_sendDataResponse : Shortest Decode.sendDataResponse Encode.sendDataResponse := by
  refine takes_case fun index => ?_
  split
  any_goals exact takes_unit trivial rfl
  exact Takes.failure

theorem takes_connectionStatus : Shortest Decode.connectionStatus Encode.connectionStatus := by
  refine takes_case fun index => ?_
  split
  any_goals exact takes_unit trivial rfl
  · exact takes_field takes_i8 (fun _ _ => trivial) fun _ => rfl
  · exact Takes.failure

theorem takes_bluetoothStatus : Shortest Decode.bluetoothStatus Encode.bluetoothStatus := by
  refine takes_connectionStatus.bind fun connection => takes_bool.map ?_
  rintro used overflow ⟨_, covers⟩ front ⟨_, connection_covers⟩
  exact ⟨trivial, connection_covers.append covers⟩

end Parts

section Messages

theorem takes_bluetooth :
    Takes Decode.bluetooth (Canonical Encode.bluetooth Bluetooth.Sized) := by
  refine takes_case fun index => ?_
  split
  any_goals exact takes_unit trivial rfl
  · exact takes_field takes_advChan (fun _ _ => trivial) fun _ => rfl
  · exact takes_field takes_bluetoothStatus (fun _ _ => trivial) fun _ => rfl
  · exact takes_field takes_message (fun _ _ => trivial) fun _ => rfl
  · exact takes_field takes_sendDataResponse (fun _ _ => trivial) fun _ => rfl
  · exact takes_field takes_message (fun _ _ => trivial) fun _ => rfl
  · exact takes_field takes_str (fun _ sized => sized) fun _ => rfl
  · exact takes_field (takes_array takes_u8 6) (fun _ _ => trivial) fun _ => rfl
  · exact takes_field takes_txPower (fun _ _ => trivial) fun _ => rfl
  · exact takes_field (takes_array takes_u8 8) (fun _ _ => trivial) fun _ => rfl
  · exact takes_field takes_deviceName (fun _ _ => trivial) fun _ => rfl
  · exact takes_field takes_message (fun _ _ => trivial) fun _ => rfl
  · exact takes_field takes_message (fun _ _ => trivial) fun _ => rfl
  · exact Takes.failure

theorem takes_bootloader :
    Takes Decode.bootloader (Canonical Encode.bootloader Bootloader.Sized) := by
  refine takes_case fun index => ?_
  split
  any_goals exact takes_unit trivial rfl
  · refine takes_bool.bind fun result => (takes_array takes_u8 32).map ?_
    rintro used hash ⟨_, covers⟩ front ⟨_, result_covers⟩
    exact ⟨trivial, _, rfl, result_covers.append covers⟩
  · exact takes_field takes_usize (fun _ _ => trivial) fun _ => rfl
  · exact takes_field takes_usize (fun _ _ => trivial) fun _ => rfl
  · refine takes_usize.bind fun blockIdx => takes_u32.map ?_
    rintro used crc ⟨_, covers⟩ front ⟨_, idx_covers⟩
    exact ⟨trivial, _, rfl, idx_covers.append covers⟩
  · refine takes_usize.bind fun blockIdx => takes_bytes.map ?_
    rintro used blockData ⟨sized, covers⟩ front ⟨_, idx_covers⟩
    exact ⟨sized, _, rfl, idx_covers.append covers⟩
  · exact takes_field takes_usize (fun _ _ => trivial) fun _ => rfl
  · exact takes_field takes_str (fun _ sized => sized) fun _ => rfl
  · exact takes_field takes_str (fun _ sized => sized) fun _ => rfl
  · exact takes_field (takes_array takes_u32 8) (fun _ _ => trivial) fun _ => rfl
  · exact takes_field takes_secretSaveResponse (fun _ _ => trivial) fun _ => rfl
  · exact takes_field takes_trustLevel (fun _ _ => trivial) fun _ => rfl
  · exact Takes.failure

/-- **What decodes.** The bytes a message is decoded from are its encoding, or
longer. -/
theorem takes_hostProtocolMessage :
    Takes Decode.hostProtocolMessage
      (Canonical Encode.hostProtocolMessage HostProtocolMessage.Sized) := by
  refine takes_case fun index => ?_
  split
  any_goals exact takes_unit trivial rfl
  · exact takes_field takes_bluetooth (fun _ sized => sized) fun _ => rfl
  · exact takes_field takes_bootloader (fun _ sized => sized) fun _ => rfl
  · exact takes_field takes_state (fun _ _ => trivial) fun _ => rfl
  · exact takes_field takes_u64 (fun _ _ => trivial) fun _ => rfl
  · exact takes_field (takes_array takes_u8 32) (fun _ _ => trivial) fun _ => rfl
  · exact takes_field takes_postcardError (fun _ _ => trivial) fun _ => rfl
  · exact takes_field takes_state (fun _ _ => trivial) fun _ => rfl
  · exact Takes.failure

end Messages

section Transactions

variable {bufferSize : ℕ} {transaction : List UInt8} {msg : HostProtocolMessage}

/-- The bytes that the decoder consumes of the buffer, and leaves in it. -/
theorem exists_used (accepted : fromBytes bufferSize transaction = some msg) :
    ∃ used left, transaction.take bufferSize = used ++ left ∧
      Decode.hostProtocolMessage (transaction.take bufferSize) = some (msg, left) ∧
      Canonical Encode.hostProtocolMessage HostProtocolMessage.Sized used msg := by
  unfold fromBytes Postcard.fromBytes at accepted
  obtain ⟨⟨read, left⟩, out, rfl⟩ := Option.map_eq_some_iff.mp accepted
  obtain ⟨used, split, canonical⟩ := takes_hostProtocolMessage _ _ _ out
  exact ⟨used, left, split, out, canonical⟩

/-- What is consumed is in the buffer. -/
theorem length_used_le {used left : List UInt8}
    (split : transaction.take bufferSize = used ++ left) : used.length ≤ bufferSize := by
  have held := congrArg List.length split
  rw [List.length_take, List.length_append] at held
  omega

/-- **Receivable.** A message arrives in a buffer exactly if its text and data have
lengths and its encoding fits the buffer. -/
theorem receivable_iff :
    (∃ transaction, fromBytes bufferSize transaction = some msg) ↔
      msg.Sized ∧ (Encode.hostProtocolMessage msg).length ≤ bufferSize := by
  constructor
  · rintro ⟨transaction, accepted⟩
    obtain ⟨used, left, split, -, sized, covers⟩ := exists_used accepted
    exact ⟨sized, covers.length_le.trans (length_used_le split)⟩
  · rintro ⟨sized, room⟩
    exact ⟨_, fromBytes_encode sized room []⟩

/-- **Shortest.** Where the decoder makes a message of a transaction, the bytes that
it consumes are the encoding of the message, or longer; and the message is decoded
from its encoding in the same buffer, whatever follows. -/
theorem accepted_shortest (accepted : fromBytes bufferSize transaction = some msg) :
    ∃ used left, transaction.take bufferSize = used ++ left ∧
      Decode.hostProtocolMessage (transaction.take bufferSize) = some (msg, left) ∧
      (used = Encode.hostProtocolMessage msg ∨
        (Encode.hostProtocolMessage msg).length < used.length) ∧
      ∀ padding, fromBytes bufferSize (Encode.hostProtocolMessage msg ++ padding) = some msg := by
  obtain ⟨used, left, split, consumed, sized, covers⟩ := exists_used accepted
  exact ⟨used, left, split, consumed, covers,
    fromBytes_encode sized (covers.length_le.trans (length_used_le split))⟩

/-- A reset whose variant is padded to two bytes. -/
theorem accepted_shortest_padded :
    ∃ used left, [0x82, 0x00, 0xFF].take maxMsgSize = used ++ left ∧
      Decode.hostProtocolMessage ([0x82, 0x00, 0xFF].take maxMsgSize) = some (.reset, left) ∧
      (used = Encode.hostProtocolMessage .reset ∨
        (Encode.hostProtocolMessage .reset).length < used.length) ∧
      ∀ padding, fromBytes maxMsgSize (Encode.hostProtocolMessage .reset ++ padding) =
        some .reset :=
  accepted_shortest (by decide)

end Transactions

end PrimeBle.HostProtocol
