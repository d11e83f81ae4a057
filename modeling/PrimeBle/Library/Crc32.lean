import Mathlib.Logic.Function.Iterate

/-! # Reflected 32-bit cyclic redundancy checks

The register shifts right, one bit of the message at a time, and absorbs the
reversed polynomial whenever a one falls out of it.
-/

/-- The parameters of a 32-bit check with reflected input and output. -/
structure Crc32 where
  /-- The generator polynomial, least significant bit first. -/
  reversedPoly : UInt32
  init : UInt32
  xorout : UInt32

namespace Crc32

variable (algorithm : Crc32)

def shift (register : UInt32) : UInt32 :=
  if register &&& 1 = 1 then (register >>> 1) ^^^ algorithm.reversedPoly else register >>> 1

def update (register : UInt32) (byte : UInt8) : UInt32 :=
  algorithm.shift^[8] (register ^^^ byte.toUInt32)

/-- The check value of a message. -/
def checksum (data : List UInt8) : UInt32 :=
  data.foldl algorithm.update algorithm.init ^^^ algorithm.xorout

/-- CRC-32/ISCSI, the Castagnoli polynomial. -/
def iscsi : Crc32 where
  reversedPoly := 0x82F63B78
  init := 0xFFFFFFFF
  xorout := 0xFFFFFFFF

/-- The published check value of the algorithm, over the digits 1 to 9. -/
example : iscsi.checksum [49, 50, 51, 52, 53, 54, 55, 56, 57] = 0xE3069283 := by decide +kernel

end Crc32
