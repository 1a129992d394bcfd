import TriggerScript.Code.Routine
import TriggerScript.Text.Quoted

/-!
Listings of code, for readers.
-/

namespace TriggerScript

def Operand.display : Operand → String
  | int value => Int.repr value.toInt
  | long value => Int.repr value.toInt ++ "L"
  | text value => quoted value
  | bool value => if value then "true" else "false"
  | label target => target.display
  | localVar target => "$" ++ target.name
  | switch table => "table" ++ Nat.repr table
  | script trigger name _ => scriptKey trigger name

def Instruction.display (instruction : Instruction) : String :=
  instruction.operation.name ++ " " ++ instruction.operand.display

namespace Routine

def indent : String := "    "

def blockLines (block : Block) : List String :=
  (block.label.display ++ ":") ::
    block.instructions.map fun instruction => indent ++ instruction.display

def caseLine (entry : SwitchCase) : String :=
  let keys :=
    if entry.keys.isEmpty then "default"
    else ", ".intercalate (entry.keys.map fun key => Int.repr key.toInt)
  indent ++ keys ++ " -> " ++ entry.label.display

def tableLines (table : SwitchTable) (index : Nat) : List String :=
  ("table" ++ Nat.repr index ++ ":") :: table.cases.map caseLine

def lines (routine : Routine) : List String :=
  [routine.name] ++ routine.blocks.flatMap blockLines
    ++ (routine.tables.zipIdx.flatMap fun (table, index) => tableLines table index)

def listing (routine : Routine) : String := String.join (routine.lines.map fun line => line ++ "\n")

end Routine

end TriggerScript
