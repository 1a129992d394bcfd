/-!
Byte strings.

Words are written most significant byte first; texts are written in UTF-8 and closed by a zero
byte. Each encoder states the number of bytes it writes.
-/

namespace TriggerScript

abbrev Byte := UInt8

/-- The low `width` bytes of a number, the most significant one first. -/
def bigEndian : Nat → Nat → List Byte
  | 0, _ => []
  | width + 1, value => bigEndian width (value / 256) ++ [UInt8.ofNat value]

@[simp] theorem length_bigEndian (width value : Nat) : (bigEndian width value).length = width := by
  induction width generalizing value with
  | zero => rfl
  | succ width ih => simp [bigEndian, ih]

/-- The number that a run of bytes denotes, the most significant one first. -/
def ofBigEndian (bytes : List Byte) : Nat :=
  bytes.foldl (fun value byte => 256 * value + byte.toNat) 0

def word16 (value : UInt16) : List Byte := bigEndian 2 value.toNat

def word32 (value : Int32) : List Byte := bigEndian 4 value.toBitVec.toNat

def word64 (value : Int64) : List Byte := bigEndian 8 value.toBitVec.toNat

def utf8 (text : String) : List Byte := text.toByteArray.toList

def terminated (text : String) : List Byte := utf8 text ++ [0]

@[simp] theorem length_word16 (value : UInt16) : (word16 value).length = 2 := length_bigEndian _ _

@[simp] theorem length_word32 (value : Int32) : (word32 value).length = 4 := length_bigEndian _ _

@[simp] theorem length_word64 (value : Int64) : (word64 value).length = 8 := length_bigEndian _ _

end TriggerScript
