/-!
# Cyclic redundancy check

The check word of a frame: the reflected polynomial `0xA001` over the bytes of the
frame, started from all ones.
-/

namespace ModelCar.Link

/-- One bit of the division: the word moves down, and the polynomial is added when a
one falls out. -/
def crcShift (crc : UInt16) : UInt16 :=
  if crc &&& 1 = 1 then (crc >>> 1) ^^^ 0xA001 else crc >>> 1

/-- One byte of the division. -/
def crcByte (crc : UInt16) (byte : UInt8) : UInt16 :=
  Nat.repeat crcShift 8 (crc ^^^ byte.toUInt16)

/-- The check word of a list of bytes. -/
def crc16 (bytes : List UInt8) : UInt16 :=
  bytes.foldl crcByte 0xFFFF

end ModelCar.Link
