import TriggerScript.Code.Flow
import TriggerScript.Code.Folding
import TriggerScript.Data.Total

/-!
Optimization to a fixed point.

A round runs every pass once. Rounds are repeated until one changes nothing or their number is
reached.
-/

namespace TriggerScript

inductive Pass where
  | constantFolding
  | deadBranch
  | naturalFlow
  | deadBlock
  deriving DecidableEq

namespace Pass

def all : List Pass := [constantFolding, deadBranch, naturalFlow, deadBlock]

def name : Pass → String
  | constantFolding => "constant-folding"
  | deadBranch => "dead-branch"
  | naturalFlow => "natural-flow"
  | deadBlock => "dead-block"

def onBlocks (simplify : List Instruction → List Instruction × Nat) (routine : Routine) :
    Routine × Nat :=
  let results := routine.blocks.map fun block => (block, simplify block.instructions)
  ({ routine with
      blocks := results.map fun (block, instructions, _) => { block with instructions } },
    total (fun (_, _, count) => count) results)

def run (routine : Routine) : Pass → Routine × Nat
  | constantFolding => onBlocks Block.foldConstants routine
  | deadBranch => onBlocks Block.dropUnreached routine
  | naturalFlow =>
    let (blocks, count) := Block.fallThrough routine.blocks
    ({ routine with blocks }, count)
  | deadBlock => routine.dropDeadBlocks

def runAll (routine : Routine) : List Pass → Routine × Nat
  | [] => (routine, 0)
  | pass :: rest =>
    let (routine, count) := pass.run routine
    let (routine, others) := runAll routine rest
    (routine, count + others)

end Pass

/-- How long an optimization took and what it did. -/
structure Effort where
  rounds : Nat
  changes : Nat
  deriving DecidableEq

/-- Run rounds of passes, at most the given number, until one changes nothing. -/
def Routine.simplify (passes : List Pass) : Nat → Routine → Routine × Effort
  | 0, routine => (routine, ⟨0, 0⟩)
  | bound + 1, routine =>
    let (routine, changes) := Pass.runAll routine passes
    if changes = 0 then (routine, ⟨1, 0⟩)
    else
      let (routine, effort) := simplify passes bound routine
      (routine, ⟨effort.rounds + 1, effort.changes + changes⟩)

def Routine.optimize (bound : Nat) (routine : Routine) : Routine × Effort :=
  simplify Pass.all bound routine

end TriggerScript
