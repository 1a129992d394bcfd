import TriggerScript.Code.Routine
import TriggerScript.Diagnostic

/-!
Emitting instructions.

Instructions go to the end of the current block. Code behind a jump or a return starts a block that
nothing reaches, so that no block holds anything behind the end of its flow. Labels are numbered in
the order in which they are made.
-/

namespace TriggerScript

structure Emission where
  nextLabel : Nat
  finished : List Block
  current : Block
  tables : List SwitchTable
  locals : LocalMap

namespace Emission

def start : Emission := ⟨1, [], ⟨⟨0, "entry"⟩, []⟩, [], LocalMap.empty⟩

def blocks (emission : Emission) : List Block := emission.finished ++ [emission.current]

def bind (emission : Emission) (label : Label) : Emission :=
  { emission with finished := emission.finished ++ [emission.current], current := ⟨label, []⟩ }

def append (emission : Emission) (instruction : Instruction) : Emission :=
  { emission with
    current := { emission.current with
      instructions := emission.current.instructions ++ [instruction] } }

/-- Emit an instruction, in a block of its own if the current one has ended. -/
def add (emission : Emission) (instruction : Instruction) : Emission :=
  if emission.current.endsFlow then
    let label : Label := ⟨emission.nextLabel, "unreachable"⟩
    ({ emission with nextLabel := emission.nextLabel + 1 }.bind label).append instruction
  else
    emission.append instruction

end Emission

abbrev Emit := StateT Emission (Except Diagnostic)

namespace Emit

def fail {α : Type} (cause : InternalFault) (span : Span) : Emit α := throw ⟨.internal cause, span⟩

def demand {α : Type} (value : Option α) (cause : InternalFault) (span : Span) : Emit α :=
  match value with
  | some value => pure value
  | none => fail cause span

def freshLabel (name : String) : Emit Label :=
  modifyGet fun emission =>
    (⟨emission.nextLabel, name⟩, { emission with nextLabel := emission.nextLabel + 1 })

def bindLabel (label : Label) : Emit Unit := modify fun emission => emission.bind label

def instruction (instruction : Instruction) : Emit Unit :=
  modify fun emission => emission.add instruction

def core (opcode : Opcode) (operand : Operand) : Emit Unit := instruction (.core opcode operand)

def jump (opcode : Opcode) (target : Label) : Emit Unit := core opcode (.label target)

def jumpIfOpen (target : Label) : Emit Unit := do
  if !(← get).current.endsFlow then jump .branch target

def pushInt (value : Int32) : Emit Unit := core .pushIntConstant (.int value)

def pushValue : Value → Emit Unit
  | .int value => pushInt value
  | .bool value => core .pushIntConstant (.bool value)
  | .long value => core .pushLongConstant (.long value)
  | .text value => core .pushStringConstant (.text value)
  | .type prim => pushInt (Int32.ofNat prim.code.toNat)

def stackOf (prim : Prim) (span : Span) : Emit Stack := demand prim.stack? (.noStack prim) span

def pushDefault (prim : Prim) (span : Span) : Emit Unit := do
  pushValue (← demand prim.default? (.noDefault prim) span)

def reserveTable : Emit Nat :=
  modifyGet fun emission =>
    (emission.tables.length, { emission with tables := emission.tables ++ [SwitchTable.empty] })

def setTable (index : Nat) (table : SwitchTable) : Emit Unit :=
  modify fun emission => { emission with tables := emission.tables.set index table }

def addParam (stack : Stack) (entry : Local) : Emit Unit :=
  modify fun emission => { emission with locals := emission.locals.addParam stack entry }

def addVariable (stack : Stack) (entry : Local) : Emit Unit :=
  modify fun emission => { emission with locals := emission.locals.addVariable stack entry }

end Emit

end TriggerScript
