import TriggerScript.Proofs.Optimization.Flow

/-!
Optimization keeps what a routine does.

Every pass leaves the labels of the blocks distinct and gives a routine that runs like the one it
was given. Rounds of passes are chains of such steps.
-/

namespace TriggerScript

variable {routine : Routine}

namespace Routine

variable {σ : Type} (semantics : Semantics σ)

/-- The second routine runs like the first, and its labels tell its blocks apart. -/
def Refines (first second : Routine) : Prop :=
  second.LabelsDistinct ∧ first.RunsLike second semantics

variable {semantics}

theorem Refines.trans {first second third : Routine} (left : first.Refines semantics second)
    (right : second.Refines semantics third) : first.Refines semantics third :=
  ⟨right.1, left.2.trans right.2⟩

theorem labels_distinct_of_map {first second : Routine} (distinct : first.LabelsDistinct)
    (labels : second.blocks.map (fun block => block.label.id) =
      first.blocks.map fun block => block.label.id) : second.LabelsDistinct := by
  unfold LabelsDistinct
  rw [labels]
  exact distinct

theorem trimmed_labels (blocks : List Block) :
    (Block.fallThrough blocks).1.map (fun block => block.label.id) =
      blocks.map fun block => block.label.id := by
  induction blocks with
  | nil => rfl
  | cons block rest ih =>
    rw [Block.fall_through_cons, List.map_cons, List.map_cons, ih, Block.trim_label]

theorem pruned_distinct (distinct : routine.LabelsDistinct) : routine.pruned.LabelsDistinct := by
  have kept := Block.keep_reached_sublist routine.targets ⟨⟨0, ""⟩, []⟩ routine.blocks
  rw [← pruned_blocks] at kept
  exact distinct.sublist (kept.map _)

end Routine

namespace Pass

open Relation

variable {σ : Type} (semantics : Semantics σ)

theorem on_blocks_eq (simplify : List Instruction → List Instruction × Nat) (routine : Routine) :
    (onBlocks simplify routine).1 = { routine with
      blocks := routine.blocks.map fun block => block.fill (simplify block.instructions).1 } := by
  simp only [onBlocks, List.map_map]
  rfl

theorem on_blocks_refines {simplify : List Instruction → List Instruction × Nat}
    (chains : ∀ instructions, ReflTransGen Instruction.Alike instructions (simplify instructions).1)
    (distinct : routine.LabelsDistinct) :
    routine.Refines semantics (onBlocks simplify routine).1 := by
  rw [on_blocks_eq]
  constructor
  · apply Routine.labels_distinct_of_map distinct
    simp [Function.comp_def, Block.fill]
  · exact Routine.runs_like_map routine semantics chains [] routine.blocks

theorem run_refines (distinct : routine.LabelsDistinct) (pass : Pass) :
    routine.Refines semantics (pass.run routine).1 := by
  cases pass with
  | constantFolding => exact on_blocks_refines semantics Block.alike_fold_constants distinct
  | deadBranch =>
    apply on_blocks_refines semantics (fun instructions => ?_) distinct
    exact .single (Block.alike_reachable instructions)
  | naturalFlow =>
    exact ⟨Routine.labels_distinct_of_map distinct (Routine.trimmed_labels routine.blocks),
      Routine.runs_like_trimmed semantics distinct⟩
  | deadBlock => exact ⟨Routine.pruned_distinct distinct, Routine.runs_like_pruned semantics⟩

theorem run_all_refines (distinct : routine.LabelsDistinct) (passes : List Pass) :
    routine.Refines semantics (runAll routine passes).1 := by
  induction passes generalizing routine with
  | nil => exact ⟨distinct, .refl routine semantics⟩
  | cons pass rest ih =>
    have first := run_refines semantics distinct pass
    exact first.trans (ih first.1)

end Pass

namespace Routine

variable {σ : Type} (semantics : Semantics σ)

theorem simplify_refines (passes : List Pass) (bound : Nat) (distinct : routine.LabelsDistinct) :
    routine.Refines semantics (simplify passes bound routine).1 := by
  induction bound generalizing routine with
  | zero => exact ⟨distinct, .refl routine semantics⟩
  | succ bound ih =>
    have round := Pass.run_all_refines semantics distinct passes
    simp only [simplify]
    split
    · exact round
    · exact round.trans (ih round.1)

/-- An optimized routine stops as the routine it came from, in the same final state, and runs
forever where that one does, for any bound on the rounds and any meaning of the instructions. -/
theorem optimize_runs_alike (bound : Nat) {routine : Routine} (distinct : routine.LabelsDistinct)
    (state : σ) :
    (∀ ending final, (routine.optimize bound).1.Stops semantics state ending final ↔
        routine.Stops semantics state ending final) ∧
        ((routine.optimize bound).1.RunsForever semantics state ↔
        routine.RunsForever semantics state) := by
  have alike := (simplify_refines semantics Pass.all bound distinct).2
  exact ⟨fun ending final => (alike state ending final).symm, (alike.runs_forever state).symm⟩

/-- A machine with a stack of words that knows arithmetic and one comparison. -/
def wordMachine : Semantics (List Int32) where
  push value words := value :: words
  pop
    | [] => none
    | value :: words => some (value, words)
  pop_push _ _ := rfl
  test
    | .branchEquals, right :: left :: words => some (left == right, words)
    | _, _ => none
  perform _ _ := none

/-- A sum compared with a number, a block that nothing reaches, and a jump to the next block. -/
def sumRoutine : Routine where
  name := "sum"
  blocks := [
    ⟨⟨0, "entry"⟩, [.core .pushIntConstant (.int 2), .core .pushIntConstant (.int 3),
      .core .add (.int 0), .core .branch (.label ⟨2, "compare"⟩)]⟩,
    ⟨⟨1, "unreachable"⟩, [.core .branch (.label ⟨1, "unreachable"⟩)]⟩,
    ⟨⟨2, "compare"⟩, [.core .pushIntConstant (.int 5), .core .branchEquals (.label ⟨3, "same"⟩),
      .core .branch (.label ⟨2, "compare"⟩)]⟩,
    ⟨⟨3, "same"⟩, [.core .returnFlow (.int 0)]⟩]
  tables := []
  locals := .empty

/-- The optimized routine has other code, and returns from where the routine does. -/
theorem optimize_sum_returns : sumRoutine.LabelsDistinct ∧
      (sumRoutine.optimize 10).1.instructions ≠ sumRoutine.instructions ∧
      (sumRoutine.optimize 10).1.Stops wordMachine [7] .returned [7] := by
  have distinct : sumRoutine.LabelsDistinct := by
    unfold LabelsDistinct
    decide
  have returns : sumRoutine.Stops wordMachine [7] .returned [7] := ⟨12, by rfl⟩
  refine ⟨distinct, by decide, ?_⟩
  exact ((optimize_runs_alike wordMachine 10 distinct [7]).1 .returned [7]).mpr returns

end Routine

end TriggerScript
