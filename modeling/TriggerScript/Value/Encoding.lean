import TriggerScript.Data.Bytes
import TriggerScript.Value.Basic

/-!
Encodings of property values.

`Prim.encoding?` picks the encoding of a type and `Encoding.write?` the bytes of a value in it.
Numbers are cut to the width of their encoding; a value of a foreign sort is refused.
-/

namespace TriggerScript

/-- How a value is written into a configuration record. -/
inductive Encoding where
  | boolean
  | byte
  | short
  | tribyte
  | int
  | long
  | string
  | type
  deriving DecidableEq, Inhabited

namespace Encoding

def all : List Encoding := [.boolean, .byte, .short, .tribyte, .int, .long, .string, .type]

def narrow (width : Nat) (value : Int32) : List Byte := bigEndian width value.toBitVec.toNat

/-- The bytes of a value, if the encoding takes values of its sort. -/
def write? : Encoding → Value → Option (List Byte)
  | .boolean, .bool value => some [if value then 1 else 0]
  | .byte, value => value.asInt?.map (narrow 1)
  | .short, value => value.asInt?.map (narrow 2)
  | .tribyte, value => value.asInt?.map (narrow 3)
  | .int, value => value.asInt?.map word32
  | .long, .long value => some (word64 value)
  | .string, .text value => some (terminated value)
  | .type, .type prim =>
    if prim.code.toNat < 256 then some [UInt8.ofNat prim.code.toNat] else none
  | _, _ => none

end Encoding

def Prim.encoding? : Prim → Option Encoding
  | undefined | hook | void | param | null => none
  | byte | char | texture => some .byte
  | tribyte => some .tribyte
  | type => some .type
  | int | spotanim | coordgrid | fontmetrics | maparea | component => some .int
  | string => some .string
  | long => some .long
  | boolean => some .boolean
  | _ => some .short

end TriggerScript
