import Std.Data.HashMap
import TriggerScript.Bytecode.Fault
import TriggerScript.Code.Routine
import TriggerScript.Value.Basic

/-!
Resolving operands.

In bytecode every operand is a value: a label is the distance from the instruction behind the jump
to the target, a variable is its slot, a script its number. An instruction that names a switch table
brings it along, with the distances from that instruction.
-/

namespace TriggerScript

inductive ResolvedOperand where
  | int (value : Int32)
  | long (value : Int64)
  | text (value : String)
  deriving DecidableEq

structure ResolvedInstruction where
  code : UInt16
  large : Bool
  operand : ResolvedOperand
  deriving DecidableEq

abbrev JumpTable := List (Int32 × Int32)

namespace JumpTable

/-- Entries by key: a repeated key keeps its place and takes the last distance. -/
structure Collected where
  /-- Keys, the latest first. -/
  keys : List Int32
  distances : Std.HashMap Int32 Int32

def Collected.put (collected : Collected) (entry : Int32 × Int32) : Collected :=
  let keys :=
    if collected.distances.contains entry.1 then collected.keys else entry.1 :: collected.keys
  ⟨keys, collected.distances.insert entry.1 entry.2⟩

def ofEntries (entries : List (Int32 × Int32)) : JumpTable :=
  let collected := entries.foldl Collected.put ⟨[], ∅⟩
  collected.keys.reverse.map fun key => (key, collected.distances.getD key 0)

end JumpTable

structure StackCounts where
  int : Nat
  string : Nat
  long : Nat
  deriving DecidableEq

def StackCounts.ofFunction (count : Stack → Nat) : StackCounts :=
  ⟨count .int, count .string, count .long⟩

/-- The counts in the order of the stacks, the last one only if there is such a stack. -/
def StackCounts.toList (counts : StackCounts) (supportsLong : Bool) : List Nat :=
  if supportsLong then [counts.int, counts.string, counts.long] else [counts.int, counts.string]

/-- A script without names. -/
structure Bytecode where
  name : String
  instructions : List ResolvedInstruction
  params : StackCounts
  /-- Slots, those of the parameters included. -/
  locals : StackCounts
  tables : List JumpTable
  deriving DecidableEq

/-- An instruction, its address and the number of table operands before it. -/
structure Addressed where
  address : Nat
  ordinal : Nat
  instruction : Instruction

def Instruction.namesTable (instruction : Instruction) : Bool :=
  match instruction.operand with
  | .switch _ => true
  | _ => false

/-- Instructions with their addresses, counted on from given numbers. -/
def Instruction.addressed (address ordinal : Nat) : List Instruction → List Addressed
  | [] => []
  | instruction :: rest =>
    ⟨address, ordinal, instruction⟩ ::
      addressed (address + 1) (if instruction.namesTable then ordinal + 1 else ordinal) rest

namespace Routine

/-- The label and the address of each block, counted on from a given address. -/
def addressesFrom (address : Nat) : List Block → List (Nat × Nat)
  | [] => []
  | block :: rest =>
    (block.label.id, address) :: addressesFrom (address + block.instructions.length) rest

/-- The address of a label. Of blocks with the same label the last one counts. -/
def address? (routine : Routine) (label : Label) : Option Nat :=
  (addressesFrom 0 routine.blocks).reverse.lookup label.id

def distance (source target : Nat) : Except WriteFault Int32 :=
  let offset : Int := target - source - 1
  if Int32.minValue.toInt ≤ offset && offset ≤ Int32.maxValue.toInt then .ok (Int32.ofInt offset)
  else .error (.tooLarge .jump)

def jump (routine : Routine) (source : Nat) (label : Label) : Except WriteFault Int32 :=
  match routine.address? label with
  | none => .error (.unresolved (.label label.display))
  | some target => distance source target

def counted (value : Nat) (quantity : Quantity) : Except WriteFault Int32 :=
  if value ≤ Int32.maxValue.toInt then .ok (Int32.ofNat value) else .error (.tooLarge quantity)

def caseEntries (routine : Routine) (source : Nat) (entry : SwitchCase) :
    Except WriteFault (List (Int32 × Int32)) := do
  let offset ← routine.jump source entry.label
  return entry.keys.map fun key => (key, offset)

def jumpTable (routine : Routine) (source : Nat) (table : SwitchTable) :
    Except WriteFault JumpTable := do
  return JumpTable.ofEntries (← table.cases.mapM (routine.caseEntries source)).flatten

/-- Resolve an operand; one that names a table brings the table along. -/
def resolveOperand (routine : Routine) (place : Addressed) :
    Except WriteFault (ResolvedOperand × Option JumpTable) := do
  match place.instruction.operand with
  | .int value => return (.int value, none)
  | .long value => return (.long value, none)
  | .text value => return (.text value, none)
  | .bool value => return (.int (Value.ofBool value), none)
  | .label label => return (.int (← routine.jump place.address label), none)
  | .localVar entry =>
    match routine.locals.slot? entry with
    | none => throw (.unresolved (.localSlot entry.name))
    | some slot => return (.int (← counted slot .slot), none)
  | .switch index =>
    match routine.tables[index]? with
    | none => throw (.unresolved (.switch index))
    | some table =>
      let resolved ← routine.jumpTable place.address table
      return (.int (← counted place.ordinal .switchIndex), some resolved)
  | .script _ _ id => return (.int id, none)

def operationCode (numbering : Numbering) : Operation → UInt16
  | .core opcode => numbering.code opcode
  | .command _ code => code

def resolveInstruction (routine : Routine) (numbering : Numbering) (place : Addressed) :
    Except WriteFault (ResolvedInstruction × Option JumpTable) := do
  let (operand, table) ← routine.resolveOperand place
  let operation := place.instruction.operation
  return (⟨operationCode numbering operation, operation.isLarge, operand⟩, table)

def resolve (routine : Routine) (numbering : Numbering) : Except WriteFault Bytecode := do
  let resolved ←
    (Instruction.addressed 0 0 routine.instructions).mapM (routine.resolveInstruction numbering)
  return {
    name := routine.name
    instructions := resolved.map Prod.fst
    params := StackCounts.ofFunction routine.locals.paramCount
    locals := StackCounts.ofFunction routine.locals.slotCount
    tables := resolved.filterMap Prod.snd }

end Routine

end TriggerScript
