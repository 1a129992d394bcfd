import TriggerScript.Code.Opcode
import TriggerScript.Script.Tree

/-!
The code of a script.

A routine is a sequence of labelled blocks of instructions. Control falls from the end of a block
into the next one, unless the block ends in a jump or a return. A switch instruction names one of
the routine's tables. Local variables are kept apart by the stack of their type.
-/

namespace TriggerScript

/-- A place to jump to. Labels are told apart by their numbers; the name is for readers. -/
structure Label where
  id : Nat
  name : String
  deriving DecidableEq, Inhabited

def Label.display (label : Label) : String := label.name ++ "_" ++ Nat.repr label.id

/-- What an instruction does: a core opcode, or a command of the runtime. -/
inductive Operation where
  | core (opcode : Opcode)
  | command (name : String) (code : UInt16)
  deriving DecidableEq

def Operation.isLarge : Operation → Bool
  | core opcode => opcode.isLarge
  | command _ _ => false

def Operation.name : Operation → String
  | core opcode => opcode.name
  | command name _ => name

inductive Operand where
  | int (value : Int32)
  | long (value : Int64)
  | text (value : String)
  | bool (value : Bool)
  | label (target : Label)
  | localVar (target : Local)
  /-- A table of the routine by its position. -/
  | switch (table : Nat)
  | script (trigger name : String) (id : Int32)
  deriving DecidableEq

structure Instruction where
  operation : Operation
  operand : Operand
  deriving DecidableEq

namespace Instruction

def core (opcode : Opcode) (operand : Operand) : Instruction := ⟨.core opcode, operand⟩

def isOpcode (instruction : Instruction) (opcode : Opcode) : Bool :=
  instruction.operation = .core opcode

/-- Control never goes on behind the instruction. -/
def endsFlow (instruction : Instruction) : Bool :=
  instruction.isOpcode .branch || instruction.isOpcode .returnFlow

def target? (instruction : Instruction) : Option Label :=
  match instruction.operand with
  | .label target => some target
  | _ => none

/-- The number that the instruction pushes and that is written in it as a number. -/
def pushed? : Instruction → Option Int32
  | ⟨.core .pushIntConstant, .int value⟩ => some value
  | _ => none

end Instruction

structure Block where
  label : Label
  instructions : List Instruction
  deriving DecidableEq, Inhabited

/-- Control never falls out of the end of the block. -/
def Block.endsFlow (block : Block) : Bool := block.instructions.getLast?.any Instruction.endsFlow

/-- Where a switch goes for some keys. The default case has no keys. -/
structure SwitchCase where
  keys : List Int32
  label : Label
  deriving DecidableEq

structure SwitchTable where
  cases : List SwitchCase
  deriving DecidableEq

namespace SwitchTable

def empty : SwitchTable := ⟨[]⟩

def default? (table : SwitchTable) : Option SwitchCase :=
  table.cases.find? fun entry => entry.keys.isEmpty

end SwitchTable

/-- Parameters and variables, each with its stack, in the order in which they were registered. -/
structure LocalMap where
  params : List (Stack × Local)
  declared : List (Stack × Local)
  deriving DecidableEq

namespace LocalMap

def empty : LocalMap := ⟨[], []⟩

def onStack (stack : Stack) (entries : List (Stack × Local)) : List Local :=
  (entries.filter fun entry => entry.1 = stack).map Prod.snd

def addParam (locals : LocalMap) (stack : Stack) (entry : Local) : LocalMap :=
  { locals with params := locals.params ++ [(stack, entry)] }

/-- Register a variable, unless it is registered already. -/
def addVariable (locals : LocalMap) (stack : Stack) (entry : Local) : LocalMap :=
  if locals.declared.contains (stack, entry) then locals
  else { locals with declared := locals.declared ++ [(stack, entry)] }

def paramCount (locals : LocalMap) (stack : Stack) : Nat := (onStack stack locals.params).length

def slotCount (locals : LocalMap) (stack : Stack) : Nat :=
  locals.paramCount stack + (onStack stack locals.declared).length

/-- The slot of a variable on the stack of its type: the parameters come first. -/
def slot? (locals : LocalMap) (entry : Local) : Option Nat := do
  let stack ← entry.prim.stack?
  match (onStack stack locals.params).findIdx? fun other => other.id = entry.id with
  | some index => some index
  | none =>
    let index ← (onStack stack locals.declared).findIdx? fun other => other.id = entry.id
    return locals.paramCount stack + index

end LocalMap

structure Routine where
  name : String
  blocks : List Block
  tables : List SwitchTable
  locals : LocalMap
  deriving DecidableEq

namespace Routine

def instructions (routine : Routine) : List Instruction :=
  routine.blocks.flatMap Block.instructions

end Routine

end TriggerScript
