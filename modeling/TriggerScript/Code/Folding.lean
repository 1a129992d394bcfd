import TriggerScript.Code.Routine

/-!
Constant folding.

Two pushes of numbers and an arithmetic instruction behind them become one push of the result. A
result may itself be an operand of what follows, so one run folds a whole calculation. A division by
zero is left for the runtime to fail on.
-/

namespace TriggerScript

/-- The result of an arithmetic instruction, unless it divides by zero. -/
def Opcode.fold? (opcode : Opcode) (left right : Int32) : Option Int32 :=
  match opcode with
  | add => some (left + right)
  | sub => some (left - right)
  | mul => some (left * right)
  | div => if right = 0 then none else some (left / right)
  | mod => if right = 0 then none else some (left % right)
  | _ => none

/-- The result of an instruction on the two numbers pushed before it. -/
def Instruction.folded? (instruction : Instruction) (left right : Instruction) : Option Int32 := do
  match instruction.operation with
  | .core opcode => opcode.fold? (← left.pushed?) (← right.pushed?)
  | .command _ _ => none

/-- Put an instruction behind others, which stand latest first, folding it if possible. The number
counts the instructions that were folded. -/
def Block.foldOnto (before : List Instruction × Nat) (instruction : Instruction) :
    List Instruction × Nat :=
  match before with
  | (right :: left :: rest, count) =>
    match instruction.folded? left right with
    | some value => (.core .pushIntConstant (.int value) :: rest, count + 1)
    | none => (instruction :: right :: left :: rest, count)
  | (others, count) => (instruction :: others, count)

def Block.foldConstants (instructions : List Instruction) : List Instruction × Nat :=
  let (folded, count) := instructions.foldl foldOnto ([], 0)
  (folded.reverse, count)

end TriggerScript
