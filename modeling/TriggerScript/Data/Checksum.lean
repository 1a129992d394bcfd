import TriggerScript.Data.Bytes

/-!
The cyclic redundancy check of 32 bits over the reflected polynomial `EDB88320`, started from all
ones and complemented at the end.
-/

namespace TriggerScript

def Checksum.step (remainder : UInt32) : UInt32 :=
  if remainder &&& 1 = 1 then (remainder >>> 1) ^^^ 0xEDB88320 else remainder >>> 1

def Checksum.absorb (remainder : UInt32) (byte : Byte) : UInt32 :=
  Nat.repeat step 8 (remainder ^^^ byte.toUInt32)

def checksum (bytes : List Byte) : UInt32 :=
  bytes.foldl Checksum.absorb 0xFFFFFFFF ^^^ 0xFFFFFFFF

/-- The check word of the nine digits `123456789`. -/
example : checksum (utf8 "123456789") = 0xCBF43926 := by decide +kernel

end TriggerScript
