import PrimeBle.HostProtocol.Encode

/-! # Response frames

Both programs write a response as its encoding behind a two-byte length. A
message whose text is no longer than a version string and whose data is no longer
than a BLE payload fits its frame, and the length in front of it is its own
(`Spi.sendFrame_of_short`).
-/

namespace PrimeBle.Spi

open HostProtocol Postcard

/-- Serialize a message into a buffer, if it has room. -/
def toSlice (message : HostProtocolMessage) (room : ℕ) : Option (List UInt8) :=
  if (Encode.hostProtocolMessage message).length ≤ room then
    some (Encode.hostProtocolMessage message)
  else none

/-- The big-endian bytes of a length. -/
def lengthPrefix (length : UInt16) : List UInt8 := [(length >>> 8).toUInt8, length.toUInt8]

/-- What is written for a message, if it can be serialized. The tail of
`comms_task` and `ack_msg_send` are alike. -/
def sendFrame (message : HostProtocolMessage) : Option (List UInt8) :=
  match toSlice message (maxMsgSize - 2) with
  | none => none
  | some resp => some (lengthPrefix (UInt16.ofNat resp.length) ++ resp)

/-- The length a prefix announces. -/
def announced (high low : UInt8) : ℕ := high.toNat * 256 + low.toNat

/-- A prefix announces the length it is made from. -/
theorem lengthPrefix_eq {length : ℕ} (fits : length < 2 ^ 16) :
    ∃ high low, lengthPrefix (UInt16.ofNat length) = [high, low] ∧
      announced high low = length := by
  refine ⟨_, _, rfl, ?_⟩
  simp only [announced, UInt16.toNat_toUInt8, UInt16.toNat_shiftRight, UInt16.toNat_ofNat']
  rw [Nat.mod_eq_of_lt fits, Nat.shiftRight_eq_div_pow]
  simp only [UInt16.reduceToNat, Nat.reduceMod]
  omega

/-- **Frames.** A short message is written behind its own length. -/
theorem sendFrame_of_short {message : HostProtocolMessage} (short : message.Short) :
    ∃ high low, sendFrame message = some (high :: low :: Encode.hostProtocolMessage message) ∧
      announced high low = (Encode.hostProtocolMessage message).length := by
  have bound := length_hostProtocolMessage_le short
  have room : (Encode.hostProtocolMessage message).length ≤ maxMsgSize - 2 :=
    Nat.le_sub_of_add_le' bound
  have narrow : (Encode.hostProtocolMessage message).length < 2 ^ 16 :=
    Nat.lt_of_le_of_lt room (by decide)
  obtain ⟨high, low, written, length⟩ := lengthPrefix_eq narrow
  refine ⟨high, low, ?_, length⟩
  simp only [sendFrame, toSlice, room, ↓reduceIte, written, List.cons_append, List.nil_append]

end PrimeBle.Spi
