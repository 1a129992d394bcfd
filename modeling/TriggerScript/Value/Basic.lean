import TriggerScript.Text.Quoted
import TriggerScript.Value.Prim

/-!
Values known when a source is compiled: operands of literals, constants and property values.
-/

namespace TriggerScript

inductive Value where
  | int (value : Int32)
  | long (value : Int64)
  | text (value : String)
  | bool (value : Bool)
  | type (value : Prim)
  deriving DecidableEq, Inhabited

namespace Value

/-- The number that stands for a truth value on the stack of integers. -/
def ofBool (flag : Bool) : Int32 := if flag then 1 else 0

def asInt? : Value → Option Int32
  | .int value => some value
  | .bool value => some (ofBool value)
  | _ => none

def display : Value → String
  | .int value => Int.repr value.toInt
  | .long value => Int.repr value.toInt ++ "L"
  | .text value => quoted value
  | .bool value => if value then "true" else "false"
  | .type value => value.display

end Value

def Prim.default? (prim : Prim) : Option Value :=
  match prim.stack? with
  | none => none
  | some .string => some (.text "")
  | some .long => some (.long 0)
  | some .int =>
    match prim with
    | .int => some (.int 0)
    | .boolean => some (.bool false)
    | _ => some (.int (-1))

end TriggerScript
