import TriggerScript.Proofs.Execution.Basic
import TriggerScript.Symbol
import TriggerScript.Trigger

/-!
The machine that runs routines.

Values live on three stacks, one for each kind of word. Local variables live in the slots of a
frame, and everything else is a state of the runtime that only the runtime knows. What commands,
calls, global variables and arrays do to the stacks and to that state is left to a `Runtime`.
-/

namespace TriggerScript

/-- The values that a stack holds. -/
abbrev Stack.Word : Stack → Type
  | .int => Int32
  | .string => String
  | .long => Int64

/-- The values on each stack, the topmost first. -/
abbrev Operands := (stack : Stack) → List stack.Word

/-- The stacks and the state of the runtime. -/
structure World (ρ : Type) where
  operands : Operands
  outside : ρ

/-- A comparison of two numbers. -/
def Operator.holds (operator : Operator) (left right : Int) : Bool :=
  match operator with
  | equals => left = right
  | notEquals => left ≠ right
  | lessThan => left < right
  | greaterThan => right < left
  | lessThanOrEqual => left ≤ right
  | greaterThanOrEqual => right ≤ left
  | _ => false

namespace World

variable {ρ : Type}

def push (stack : Stack) (word : stack.Word) (world : World ρ) : World ρ :=
  { world with operands := Function.update world.operands stack (word :: world.operands stack) }

def pop (stack : Stack) (world : World ρ) : Option (stack.Word × World ρ) :=
  match world.operands stack with
  | [] => none
  | word :: rest =>
    some (word, { world with operands := Function.update world.operands stack rest })

theorem pop_push (stack : Stack) (word : stack.Word) (world : World ρ) :
    (world.push stack word).pop stack = some (word, world) := by
  simp [push, pop]

/-- Push a value known when the script was compiled on the stack where it lives. -/
def pushValue (value : Value) (world : World ρ) : World ρ :=
  match value with
  | .int value => world.push .int value
  | .bool value => world.push .int (Value.ofBool value)
  | .long value => world.push .long value
  | .text value => world.push .string value
  | .type prim => world.push .int (Int32.ofNat prim.code.toNat)

/-- Pop two numbers, or two long numbers, and compare them. -/
def compare (long : Bool) (operator : Operator) (world : World ρ) : Option (Bool × World ρ) :=
  if long then do
    let (right, world) ← world.pop .long
    let (left, world) ← world.pop .long
    return (operator.holds left.toInt right.toInt, world)
  else do
    let (right, world) ← world.pop .int
    let (left, world) ← world.pop .int
    return (operator.holds left.toInt right.toInt, world)

/-- Replace so many texts by one that joins them, the topmost last. -/
def join (count : Nat) (world : World ρ) : Option (World ρ) :=
  let texts := world.operands .string
  if count ≤ texts.length then
    let joined := String.join (texts.take count).reverse
    some { world with
      operands := Function.update world.operands .string (joined :: texts.drop count) }
  else none

end World

/-- What a routine asks of the runtime. -/
inductive Action where
  | command (name : String) (code : UInt16) (alternative : Bool)
  | call (kind : CallKind) (trigger name : String) (id : Int32)
  | readGlobal (domain : Domain) (id : Int32)
  | writeGlobal (domain : Domain) (id : Int32)
  /-- The operand holds the slot and the type of the array. -/
  | defineArray (operand : Int32)
  | readArray (slot : Int32)
  | writeArray (slot : Int32)
  deriving DecidableEq

structure Runtime (ρ : Type) where
  act : Action → World ρ → Option (World ρ)
  /-- The number counts as true. -/
  isTrue : Int32 → Bool

/-- The slots of the local variables of each stack. -/
abbrev Frame := (stack : Stack) → Nat → stack.Word

def Frame.set (frame : Frame) (stack : Stack) (slot : Nat) (word : stack.Word) : Frame :=
  Function.update frame stack (Function.update (frame stack) slot word)

structure Memory (ρ : Type) where
  world : World ρ
  frame : Frame

/-- What an instruction does that neither computes nor directs control. -/
inductive Effect where
  | push (value : Value)
  | load (stack : Stack) (source : Local)
  | store (stack : Stack) (target : Local)
  | discard (stack : Stack)
  | join (count : Int32)
  | act (action : Action)
  deriving DecidableEq

def Instruction.effect? : Instruction → Option Effect
  | ⟨.core .pushIntConstant, .int value⟩ => some (.push (.int value))
  | ⟨.core .pushIntConstant, .bool value⟩ => some (.push (.bool value))
  | ⟨.core .pushLongConstant, .long value⟩ => some (.push (.long value))
  | ⟨.core .pushStringConstant, .text value⟩ => some (.push (.text value))
  | ⟨.core .pushIntLocal, .localVar source⟩ => some (.load .int source)
  | ⟨.core .pushStringLocal, .localVar source⟩ => some (.load .string source)
  | ⟨.core .pushLongLocal, .localVar source⟩ => some (.load .long source)
  | ⟨.core .popIntLocal, .localVar target⟩ => some (.store .int target)
  | ⟨.core .popStringLocal, .localVar target⟩ => some (.store .string target)
  | ⟨.core .popLongLocal, .localVar target⟩ => some (.store .long target)
  | ⟨.core .popIntDiscard, _⟩ => some (.discard .int)
  | ⟨.core .popStringDiscard, _⟩ => some (.discard .string)
  | ⟨.core .popLongDiscard, _⟩ => some (.discard .long)
  | ⟨.core .joinString, .int count⟩ => some (.join count)
  | ⟨.core .gosubWithParams, .script trigger name id⟩ => some (.act (.call .gosub trigger name id))
  | ⟨.core .jumpWithParams, .script trigger name id⟩ => some (.act (.call .jump trigger name id))
  | ⟨.core .pushVarp, .int id⟩ => some (.act (.readGlobal .player id))
  | ⟨.core .pushVarpBit, .int id⟩ => some (.act (.readGlobal .playerBit id))
  | ⟨.core .pushVarcInt, .int id⟩ => some (.act (.readGlobal .clientInt id))
  | ⟨.core .pushVarcString, .int id⟩ => some (.act (.readGlobal .clientString id))
  | ⟨.core .popVarp, .int id⟩ => some (.act (.writeGlobal .player id))
  | ⟨.core .popVarpBit, .int id⟩ => some (.act (.writeGlobal .playerBit id))
  | ⟨.core .popVarcInt, .int id⟩ => some (.act (.writeGlobal .clientInt id))
  | ⟨.core .popVarcString, .int id⟩ => some (.act (.writeGlobal .clientString id))
  | ⟨.core .defineArray, .int operand⟩ => some (.act (.defineArray operand))
  | ⟨.core .pushArrayInt, .int slot⟩ => some (.act (.readArray slot))
  | ⟨.core .popArrayInt, .int slot⟩ => some (.act (.writeArray slot))
  | ⟨.command name code, .int form⟩ => some (.act (.command name code (form = 1)))
  | _ => none

/-- The comparison that a conditional jump makes, and whether of long numbers. -/
def Opcode.comparison? : Opcode → Option (Bool × Operator)
  | branchEquals => some (false, .equals)
  | branchNot => some (false, .notEquals)
  | branchLessThan => some (false, .lessThan)
  | branchGreaterThan => some (false, .greaterThan)
  | branchLessThanOrEquals => some (false, .lessThanOrEqual)
  | branchGreaterThanOrEquals => some (false, .greaterThanOrEqual)
  | longBranchEquals => some (true, .equals)
  | longBranchNot => some (true, .notEquals)
  | longBranchLessThan => some (true, .lessThan)
  | longBranchGreaterThan => some (true, .greaterThan)
  | longBranchLessThanOrEquals => some (true, .lessThanOrEqual)
  | longBranchGreaterThanOrEquals => some (true, .greaterThanOrEqual)
  | _ => none

namespace Runtime

variable {ρ : Type} (runtime : Runtime ρ)

/-- A variable is where the map of the locals has its slot. -/
def apply (locals : LocalMap) (memory : Memory ρ) : Effect → Option (Memory ρ)
  | .push value => some { memory with world := memory.world.pushValue value }
  | .load stack source => do
    let slot ← locals.slot? source
    return { memory with world := memory.world.push stack (memory.frame stack slot) }
  | .store stack target => do
    let slot ← locals.slot? target
    let (word, world) ← memory.world.pop stack
    return ⟨world, memory.frame.set stack slot word⟩
  | .discard stack => do
    let (_, world) ← memory.world.pop stack
    return { memory with world }
  | .join count => do return { memory with world := ← memory.world.join count.toInt.toNat }
  | .act action => do return { memory with world := ← runtime.act action memory.world }

/-- Whether a conditional jump is taken. -/
def test (opcode : Opcode) (world : World ρ) : Option (Bool × World ρ) :=
  match opcode with
  | .branchIfTrue => do
    let (value, world) ← world.pop .int
    return (runtime.isTrue value, world)
  | .branchIfFalse => do
    let (value, world) ← world.pop .int
    return (!runtime.isTrue value, world)
  | _ => do
    let (long, operator) ← opcode.comparison?
    world.compare long operator

/-- The meaning of instructions for a routine with given locals. -/
def machine (locals : LocalMap) : Semantics (Memory ρ) where
  push value memory := { memory with world := memory.world.push .int value }
  pop memory := (memory.world.pop .int).map fun (value, world) => (value, { memory with world })
  pop_push value memory := by simp [World.pop_push]
  test opcode memory :=
    (runtime.test opcode memory.world).map fun (taken, world) => (taken, { memory with world })
  perform instruction memory := do runtime.apply locals memory (← instruction.effect?)

end Runtime

end TriggerScript
