import TriggerScript.Value.Prim

/-!
Core opcodes.

A core opcode is an instruction that every runtime has. A runtime may number them in its own way:
a `Numbering` lists the codes that differ from the usual ones. The operand of a large opcode takes
four bytes, that of any other one byte.
-/

namespace TriggerScript

inductive Opcode where
  | pushIntConstant
  | pushVarp
  | popVarp
  | pushStringConstant
  | pushLongConstant
  | branch
  | branchNot
  | branchEquals
  | branchLessThan
  | branchGreaterThan
  | branchLessThanOrEquals
  | branchGreaterThanOrEquals
  | branchIfTrue
  | branchIfFalse
  | longBranchNot
  | longBranchEquals
  | longBranchLessThan
  | longBranchGreaterThan
  | longBranchLessThanOrEquals
  | longBranchGreaterThanOrEquals
  | returnFlow
  | pushVarpBit
  | popVarpBit
  | pushIntLocal
  | popIntLocal
  | pushStringLocal
  | popStringLocal
  | pushLongLocal
  | popLongLocal
  | joinString
  | popIntDiscard
  | popStringDiscard
  | popLongDiscard
  | gosubWithParams
  | jumpWithParams
  | pushVarcInt
  | popVarcInt
  | defineArray
  | pushArrayInt
  | popArrayInt
  | pushVarcString
  | popVarcString
  | switch
  | add
  | sub
  | mul
  | div
  | mod
  deriving DecidableEq, Inhabited

namespace Opcode

def all : List Opcode := [
  .pushIntConstant, .pushVarp, .popVarp, .pushStringConstant, .pushLongConstant, .branch,
  .branchNot, .branchEquals, .branchLessThan, .branchGreaterThan, .branchLessThanOrEquals,
  .branchGreaterThanOrEquals, .branchIfTrue, .branchIfFalse, .longBranchNot, .longBranchEquals,
  .longBranchLessThan, .longBranchGreaterThan, .longBranchLessThanOrEquals,
  .longBranchGreaterThanOrEquals, .returnFlow, .pushVarpBit, .popVarpBit, .pushIntLocal,
  .popIntLocal, .pushStringLocal, .popStringLocal, .pushLongLocal, .popLongLocal, .joinString,
  .popIntDiscard, .popStringDiscard, .popLongDiscard, .gosubWithParams, .jumpWithParams,
  .pushVarcInt, .popVarcInt, .defineArray, .pushArrayInt, .popArrayInt, .pushVarcString,
  .popVarcString, .switch, .add, .sub, .mul, .div, .mod]

def name : Opcode → String
  | pushIntConstant => "PUSH_INT_CONSTANT"
  | pushVarp => "PUSH_VARP"
  | popVarp => "POP_VARP"
  | pushStringConstant => "PUSH_STRING_CONSTANT"
  | pushLongConstant => "PUSH_LONG_CONSTANT"
  | branch => "BRANCH"
  | branchNot => "BRANCH_NOT"
  | branchEquals => "BRANCH_EQUALS"
  | branchLessThan => "BRANCH_LESS_THAN"
  | branchGreaterThan => "BRANCH_GREATER_THAN"
  | branchLessThanOrEquals => "BRANCH_LESS_THAN_OR_EQUALS"
  | branchGreaterThanOrEquals => "BRANCH_GREATER_THAN_OR_EQUALS"
  | branchIfTrue => "BRANCH_IF_TRUE"
  | branchIfFalse => "BRANCH_IF_FALSE"
  | longBranchNot => "LONG_BRANCH_NOT"
  | longBranchEquals => "LONG_BRANCH_EQUALS"
  | longBranchLessThan => "LONG_BRANCH_LESS_THAN"
  | longBranchGreaterThan => "LONG_BRANCH_GREATER_THAN"
  | longBranchLessThanOrEquals => "LONG_BRANCH_LESS_THAN_OR_EQUALS"
  | longBranchGreaterThanOrEquals => "LONG_BRANCH_GREATER_THAN_OR_EQUALS"
  | returnFlow => "RETURN"
  | pushVarpBit => "PUSH_VARP_BIT"
  | popVarpBit => "POP_VARP_BIT"
  | pushIntLocal => "PUSH_INT_LOCAL"
  | popIntLocal => "POP_INT_LOCAL"
  | pushStringLocal => "PUSH_STRING_LOCAL"
  | popStringLocal => "POP_STRING_LOCAL"
  | pushLongLocal => "PUSH_LONG_LOCAL"
  | popLongLocal => "POP_LONG_LOCAL"
  | joinString => "JOIN_STRING"
  | popIntDiscard => "POP_INT_DISCARD"
  | popStringDiscard => "POP_STRING_DISCARD"
  | popLongDiscard => "POP_LONG_DISCARD"
  | gosubWithParams => "GOSUB_WITH_PARAMS"
  | jumpWithParams => "JUMP_WITH_PARAMS"
  | pushVarcInt => "PUSH_VARC_INT"
  | popVarcInt => "POP_VARC_INT"
  | defineArray => "DEFINE_ARRAY"
  | pushArrayInt => "PUSH_ARRAY_INT"
  | popArrayInt => "POP_ARRAY_INT"
  | pushVarcString => "PUSH_VARC_STRING"
  | popVarcString => "POP_VARC_STRING"
  | switch => "SWITCH"
  | add => "ADD"
  | sub => "SUB"
  | mul => "MUL"
  | div => "DIV"
  | mod => "MOD"

def defaultCode : Opcode → UInt16
  | pushIntConstant => 0
  | pushVarp => 1
  | popVarp => 2
  | pushStringConstant => 3
  | pushLongConstant => 54
  | branch => 6
  | branchNot => 7
  | branchEquals => 8
  | branchLessThan => 9
  | branchGreaterThan => 10
  | branchLessThanOrEquals => 31
  | branchGreaterThanOrEquals => 32
  | branchIfTrue => 1007
  | branchIfFalse => 1008
  | longBranchNot => 1009
  | longBranchEquals => 1010
  | longBranchLessThan => 1011
  | longBranchGreaterThan => 1012
  | longBranchLessThanOrEquals => 1013
  | longBranchGreaterThanOrEquals => 1014
  | returnFlow => 21
  | pushVarpBit => 25
  | popVarpBit => 27
  | pushIntLocal => 33
  | popIntLocal => 34
  | pushStringLocal => 35
  | popStringLocal => 36
  | pushLongLocal => 55
  | popLongLocal => 56
  | joinString => 37
  | popIntDiscard => 38
  | popStringDiscard => 39
  | popLongDiscard => 57
  | gosubWithParams => 40
  | jumpWithParams => 41
  | pushVarcInt => 42
  | popVarcInt => 43
  | defineArray => 44
  | pushArrayInt => 45
  | popArrayInt => 46
  | pushVarcString => 47
  | popVarcString => 48
  | switch => 60
  | add => 4000
  | sub => 4001
  | mul => 4002
  | div => 4003
  | mod => 4004

def isLarge : Opcode → Bool
  | returnFlow | popIntDiscard | popStringDiscard | popLongDiscard
  | add | sub | mul | div | mod => false
  | _ => true

def ofName? (name : String) : Option Opcode := all.find? fun opcode => opcode.name = name

def isArithmetic : Opcode → Bool
  | add | sub | mul | div | mod => true
  | _ => false

def isBranch : Opcode → Bool
  | branch | branchNot | branchEquals | branchLessThan | branchGreaterThan
  | branchLessThanOrEquals | branchGreaterThanOrEquals | branchIfTrue | branchIfFalse
  | longBranchNot | longBranchEquals | longBranchLessThan | longBranchGreaterThan
  | longBranchLessThanOrEquals | longBranchGreaterThanOrEquals => true
  | _ => false

def pushLocal : Stack → Opcode
  | .int => pushIntLocal
  | .string => pushStringLocal
  | .long => pushLongLocal

def popLocal : Stack → Opcode
  | .int => popIntLocal
  | .string => popStringLocal
  | .long => popLongLocal

def discard : Stack → Opcode
  | .int => popIntDiscard
  | .string => popStringDiscard
  | .long => popLongDiscard

end Opcode

/-- The codes that differ from the usual ones, the latest first. -/
structure Numbering where
  changes : List (Opcode × UInt16)
  deriving DecidableEq

namespace Numbering

def usual : Numbering := ⟨[]⟩

def code (numbering : Numbering) (opcode : Opcode) : UInt16 :=
  (numbering.changes.lookup opcode).getD opcode.defaultCode

def change (numbering : Numbering) (opcode : Opcode) (code : UInt16) : Numbering :=
  ⟨(opcode, code) :: numbering.changes⟩

/-- The codes that a list of named changes gives, and the names that are no opcodes. -/
def ofNamed (changes : List (String × UInt16)) : Numbering × List String :=
  changes.foldl
    (fun (numbering, unknown) (name, code) =>
      match Opcode.ofName? name with
      | some opcode => (numbering.change opcode code, unknown)
      | none => (numbering, unknown ++ [name]))
    (usual, [])

end Numbering

end TriggerScript
