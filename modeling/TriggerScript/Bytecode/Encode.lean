import TriggerScript.Bytecode.Resolve
import TriggerScript.Data.Bytes
import TriggerScript.Data.Total

/-!
Bytecode as bytes.

The layout: the name, the instructions, their number, the numbers of slots and of parameters by
stack, and the switch tables with the size of their section. Numbers are big-endian, texts end in a
zero byte. Where there is no stack of long integers, their counts are left out and a script that
needs one is refused.
-/

namespace TriggerScript

namespace Bytecode

def field16 (value : Nat) (quantity : Quantity) : Except WriteFault (List Byte) :=
  if value < UInt16.size then .ok (bigEndian 2 value) else .error (.tooLarge quantity)

def field32 (value : Nat) (quantity : Quantity) : Except WriteFault (List Byte) :=
  if value < UInt32.size then .ok (bigEndian 4 value) else .error (.tooLarge quantity)

def operandBytes (supportsLong : Bool) (instruction : ResolvedInstruction) :
    Except WriteFault (List Byte) :=
  match instruction.operand with
  | .text value => .ok (terminated value)
  | .long value => if supportsLong then .ok (word64 value) else .error .longUnsupported
  | .int value =>
    if instruction.large then .ok (word32 value)
    else if 0 ≤ value && value < 256 then .ok [UInt8.ofNat value.toInt.toNat]
    else .error (.outOfRange instruction.code value)

def instructionBytes (supportsLong : Bool) (instruction : ResolvedInstruction) :
    Except WriteFault (List Byte) := do
  return word16 instruction.code ++ (← operandBytes supportsLong instruction)

def tableBytes (table : JumpTable) : Except WriteFault (List Byte) := do
  let count ← field16 table.length .switchEntries
  return count ++ table.flatMap fun (key, offset) => word32 key ++ word32 offset

def sectionSize (tables : List JumpTable) : Nat :=
  1 + total (fun table => 2 + table.length * 8) tables

def tableCount (tables : List JumpTable) : Except WriteFault (List Byte) :=
  if tables.length < 256 then .ok [UInt8.ofNat tables.length]
  else .error (.tooManySwitchTables tables.length)

def encode (bytecode : Bytecode) (supportsLong : Bool) : Except WriteFault (List Byte) := do
  if !supportsLong && (bytecode.locals.long > 0 || bytecode.params.long > 0) then
    throw .longUnsupported
  let code ← bytecode.instructions.mapM (instructionBytes supportsLong)
  let size ← field32 bytecode.instructions.length .instructions
  let locals ← (bytecode.locals.toList supportsLong).mapM fun count => field16 count .locals
  let params ← (bytecode.params.toList supportsLong).mapM fun count => field16 count .params
  let count ← tableCount bytecode.tables
  let tables ← bytecode.tables.mapM tableBytes
  let extent ← field16 (sectionSize bytecode.tables) .switchSection
  return terminated bytecode.name ++ code.flatten ++ size ++ locals.flatten ++ params.flatten
    ++ count ++ tables.flatten ++ extent

end Bytecode

def Routine.write (routine : Routine) (numbering : Numbering) (supportsLong : Bool) :
    Except WriteFault (List Byte) := do
  (← routine.resolve numbering).encode supportsLong

end TriggerScript
