import TriggerScript.Code.Routine

/-!
Control flow that makes no difference.

Three simplifications: instructions behind the end of flow in their block, jumps to the block that
comes next anyway, and blocks that nothing reaches. Each gives the simplified code and the number of
changes.
-/

namespace TriggerScript

namespace Block

def reachable : List Instruction → List Instruction
  | [] => []
  | instruction :: rest =>
    if instruction.endsFlow then [instruction] else instruction :: reachable rest

def dropUnreached (instructions : List Instruction) : List Instruction × Nat :=
  let kept := reachable instructions
  (kept, instructions.length - kept.length)

def endsInJumpTo (block : Block) (label : Label) : Bool :=
  match block.instructions.getLast? with
  | some instruction =>
    instruction.isOpcode .branch && instruction.target?.any fun target => target.id = label.id
  | none => false

def fallThrough : List Block → List Block × Nat
  | [] => ([], 0)
  | [block] => ([block], 0)
  | block :: next :: rest =>
    let (others, count) := fallThrough (next :: rest)
    if block.endsInJumpTo next.label then
      ({ block with instructions := block.instructions.dropLast } :: others, count + 1)
    else
      (block :: others, count)

/-- The blocks that the block before each falls into or that are among the targets. -/
def keepReached (targets : List Nat) : Block → List Block → List Block
  | _, [] => []
  | before, block :: rest =>
    if before.endsFlow && !targets.contains block.label.id then keepReached targets block rest
    else block :: keepReached targets block rest

end Block

def Routine.targets (routine : Routine) : List Nat :=
  (routine.instructions.filterMap Instruction.target?).map Label.id
    ++ routine.tables.flatMap fun table => table.cases.map fun entry => entry.label.id

/-- Drop the blocks that nothing reaches. The entry block stays. -/
def Routine.dropDeadBlocks (routine : Routine) : Routine × Nat :=
  match routine.blocks with
  | [] => (routine, 0)
  | entry :: rest =>
    let kept := Block.keepReached routine.targets entry rest
    ({ routine with blocks := entry :: kept }, rest.length - kept.length)

end TriggerScript
