import TriggerScript.Proofs.Execution.Memory

/-!
Heights of the stacks.

How many values an instruction takes from each stack and leaves there is known before it runs: for
commands and calls from their signatures, for everything else from the instruction alone. A routine
is safe if heights can be given to its blocks such that every instruction finds what it takes,
control goes only to blocks that start at the heights it comes with, and a return leaves what the
routine has to give.
-/

namespace TriggerScript

/-- The stack on which a value lives. -/
def Value.stack : Value → Stack
  | .int _ | .bool _ | .type _ => .int
  | .long _ => .long
  | .text _ => .string

/-- The stack through which a global variable is read and written. -/
def Domain.stack : Domain → Stack
  | .player | .playerBit | .clientInt => .int
  | .clientString => .string

/-- How many values are on each stack. -/
abbrev Heights := Stack → Nat

namespace Heights

/-- So many values on one stack. -/
def many (count : Nat) (stack : Stack) : Heights := fun other => if stack = other then count else 0

def one (stack : Stack) : Heights := many 1 stack

/-- Values of some types, each on the stack where it lives. -/
def of (prims : List Prim) : Heights :=
  fun stack => prims.countP fun prim => prim.stack? = some stack

@[simp] theorem of_nil : of [] = 0 := rfl

theorem of_append (first second : List Prim) : of (first ++ second) = of first + of second := by
  funext stack
  exact List.countP_append

theorem of_cons (prim : Prim) (rest : List Prim) : of (prim :: rest) = of rest + of [prim] := by
  rw [add_comm, ← of_append, List.singleton_append]

theorem of_singleton {prim : Prim} {stack : Stack} (lives : prim.stack? = some stack) :
    of [prim] = one stack := by
  funext other
  simp [of, one, many, lives]

theorem of_reverse (prims : List Prim) : of prims.reverse = of prims := by
  funext stack
  exact List.countP_reverse

theorem of_replicate {prim : Prim} {stack : Stack} (lives : prim.stack? = some stack)
    (count : Nat) :
    of (List.replicate count prim) = many count stack := by
  funext other
  simp [of, many, lives, List.countP_replicate]

end Heights

/-- What is taken from the stacks, and what is left there instead. -/
structure Shift where
  takes : Heights
  gives : Heights

namespace Shift

/-- Values of some types are replaced by values of others. -/
def of (takes gives : List Prim) : Shift := ⟨.of takes, .of gives⟩

def push (stack : Stack) : Shift := ⟨0, .one stack⟩

def pop (stack : Stack) : Shift := ⟨.one stack, 0⟩

end Shift

/-- Commands and calls do what their signatures say. -/
def Action.shift? (symbols : SymbolTable) : Action → Option Shift
  | .command name _ _ => (symbols.command? name).map fun info => .of info.args info.returns.flatten
  | .call _ trigger name _ =>
    (symbols.script? trigger name).map fun info => .of info.params info.returns.flatten
  | .readGlobal domain _ => some (.push domain.stack)
  | .writeGlobal domain _ => some (.pop domain.stack)
  | .defineArray _ => some (.pop .int)
  | .readArray _ => some ⟨.one .int, .one .int⟩
  | .writeArray _ => some ⟨.one .int + .one .int, 0⟩

def Effect.shift? (symbols : SymbolTable) : Effect → Option Shift
  | .push value => some (.push value.stack)
  | .load stack _ => some (.push stack)
  | .store stack _ | .discard stack => some (.pop stack)
  | .join count => some ⟨Heights.many count.toInt.toNat .string, .one .string⟩
  | .act action => action.shift? symbols

/-- What an instruction does to the heights, if it is one that can be run. -/
def Instruction.shift? (symbols : SymbolTable) (instruction : Instruction) : Option Shift :=
  match instruction.operation with
  | .core .branch | .core .returnFlow => some ⟨0, 0⟩
  | .core .switch | .core .branchIfTrue | .core .branchIfFalse => some (.pop .int)
  | .core opcode =>
    match opcode.comparison? with
    | some (long, _) =>
      let stack : Stack := if long then .long else .int
      some ⟨.one stack + .one stack, 0⟩
    | none =>
      if opcode.isArithmetic then some ⟨.one .int + .one .int, .one .int⟩
      else instruction.effect?.bind (Effect.shift? symbols)
  | .command _ _ => instruction.effect?.bind (Effect.shift? symbols)

/-- Where control may go from an instruction, except onward. -/
def Instruction.targets? (tables : List SwitchTable) (instruction : Instruction) :
    Option (List Label) :=
  match instruction.operation, instruction.operand with
  | .core .switch, .switch index =>
    tables[index]?.map fun table => table.cases.map SwitchCase.label
  | .core .switch, _ => none
  | .core opcode, _ =>
    if opcode.isBranch then instruction.target?.map fun target => [target] else some []
  | .command _ _, _ => some []

section

variable (symbols : SymbolTable) (tables : List SwitchTable) (returns : List Prim)
  (stands : Nat → Heights → Prop)

/-- The instruction finds what it takes, jumps only where a label stands at the heights behind it,
and returns only at the heights of the values to return. -/
structure Instruction.Moves (instruction : Instruction) (here behind : Heights) : Prop where
  shifts : ∃ shift rest, instruction.shift? symbols = some shift ∧ here = rest + shift.takes ∧
    behind = rest + shift.gives
  jumps : ∃ targets, instruction.targets? tables = some targets ∧
    ∀ target ∈ targets, stands target.id behind
  leaves : instruction.isOpcode .returnFlow = true → here = .of returns

/-- Instructions one behind the other lead from some heights to others. -/
inductive Instruction.Walk : Heights → List Instruction → Heights → Prop where
  | nil {here : Heights} : Walk here [] here
  | cons {instruction : Instruction} {rest : List Instruction} {here middle last : Heights}
      (moves : instruction.Moves symbols tables returns stands here middle)
      (later : Walk middle rest last) : Walk here (instruction :: rest) last

end

namespace Routine

/-- There is a block with the label, and it starts at the heights. -/
def StandsAt (routine : Routine) (height : Nat → Heights) (id : Nat) (here : Heights) : Prop :=
  (∃ block ∈ routine.blocks, block.label.id = id) ∧ height id = here

/-- The heights given to the labels of a routine are those at which its blocks start. -/
structure Leveled (routine : Routine) (symbols : SymbolTable) (returns : List Prim)
    (height : Nat → Heights) : Prop where
  entry : ∃ first rest, routine.blocks = first :: rest ∧ height first.label.id = 0
  blocks : ∀ before block after, routine.blocks = before ++ block :: after →
    ∃ last, Instruction.Walk symbols routine.tables returns (routine.StandsAt height)
        (height block.label.id) block.instructions last ∧
      (block.endsFlow = false → ∃ next rest, after = next :: rest ∧ height next.label.id = last)

/-- No stack of a running routine ever lacks a value, and a return leaves what has to be
returned. -/
def StackSafe (routine : Routine) (symbols : SymbolTable) (returns : List Prim) : Prop :=
  ∃ height, routine.Leveled symbols returns height

end Routine

end TriggerScript
