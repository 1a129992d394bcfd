import TriggerScript.Proofs.Optimization.Flow
import TriggerScript.Proofs.Optimization.Folding

/-!
The end of optimization.

Every pass makes the routine smaller by at least as much as it counts changes, and one that counts
none leaves the routine as it was (`Shrinks`). So a routine of a size below the bound on the rounds
is left in a form that no pass changes.
-/

namespace TriggerScript

open List

def Routine.size (routine : Routine) : Nat := routine.instructions.length + routine.blocks.length

/-- The result of a simplification: it is smaller by the number of changes, and the same if there
are none. -/
structure Routine.Shrinks (routine : Routine) (result : Routine × Nat) : Prop where
  smaller : result.1.size + result.2 ≤ routine.size
  same : result.2 = 0 → result.1 = routine

namespace Block

variable {block : Block} {blocks : List Block}

theorem foldl_of_count {before : Folded} (instructions : List Instruction) :
    before.2 ≤ (instructions.foldl foldOnto before).2 ∧
      ((instructions.foldl foldOnto before).2 = before.2 →
      (instructions.foldl foldOnto before).1 = instructions.reverse ++ before.1) := by
  induction instructions generalizing before with
  | nil => exact ⟨le_rfl, fun _ => rfl⟩
  | cons instruction rest ih =>
    rw [foldl_cons, reverse_cons, append_assoc, singleton_append]
    have later := @ih (foldOnto before instruction)
    rcases fold_onto_cases before instruction with ⟨_, _, others, value, -, -, folded⟩ | kept
    · rw [folded] at later ⊢
      exact ⟨by omega, fun none => by omega⟩
    · rwa [show foldOnto before instruction = _ from kept before.2] at later ⊢

theorem fold_constants_shrinks (instructions : List Instruction) :
    (foldConstants instructions).1.length + (foldConstants instructions).2 ≤ instructions.length ∧
      ((foldConstants instructions).2 = 0 → (foldConstants instructions).1 = instructions) := by
  have counted := length_foldl ([], 0) instructions
  simp only [foldConstants, length_reverse]
  simp only [length_nil] at counted
  refine ⟨by omega, fun none => ?_⟩
  have kept := (@foldl_of_count ([], 0) instructions).2 none
  rw [kept, append_nil, reverse_reverse]

theorem reachable_prefix (instructions : List Instruction) :
    reachable instructions <+: instructions := by
  induction instructions with
  | nil => exact prefix_rfl
  | cons instruction rest ih =>
    rw [reachable]
    split
    · exact (prefix_cons_inj instruction).mpr nil_prefix
    · exact (prefix_cons_inj instruction).mpr ih

theorem drop_unreached_shrinks (instructions : List Instruction) :
    (dropUnreached instructions).1.length + (dropUnreached instructions).2 ≤ instructions.length ∧
      ((dropUnreached instructions).2 = 0 → (dropUnreached instructions).1 = instructions) := by
  have kept := reachable_prefix instructions
  have shorter := kept.length_le
  simp only [dropUnreached]
  exact ⟨by omega, fun none => kept.eq_of_length (by omega)⟩

end Block

namespace Block

/-- How much room a sequence of blocks takes. -/
def extent (blocks : List Block) : Nat := total (fun block => block.instructions.length + 1) blocks

theorem fall_through_shrinks (blocks : List Block) :
    extent (fallThrough blocks).1 + (fallThrough blocks).2 ≤ extent blocks ∧
      ((fallThrough blocks).2 = 0 → (fallThrough blocks).1 = blocks) := by
  fun_induction fallThrough blocks with
  | case1 | case2 => exact ⟨le_rfl, fun _ => rfl⟩
  | case3 block next rest others count later jumps ih =>
    rw [later] at ih
    have some_last : block.instructions ≠ [] := by
      intro empty
      simp [endsInJumpTo, empty] at jumps
    have shorter := length_pos_iff.mpr some_last
    refine ⟨?_, fun none => absurd none (Nat.succ_ne_zero _)⟩
    simp only [extent, total_cons, length_dropLast] at ih ⊢
    omega
  | case4 block next rest others count later stays ih =>
    rw [later] at ih
    refine ⟨?_, fun none => congrArg (block :: ·) (ih.2 none)⟩
    simp only [extent, total_cons] at ih ⊢
    omega

theorem extent_sublist (kept : blocks.Sublist others) :
    extent blocks + (others.length - blocks.length) ≤ extent others := by
  induction kept with
  | slnil => exact le_rfl
  | cons block kept ih | cons_cons block kept ih =>
    have shorter := kept.length_le
    simp only [extent, total_cons, length_cons] at ih ⊢
    omega

end Block

open Block Routine

namespace Pass

theorem size_eq (routine : Routine) : routine.size = extent routine.blocks := by
  rw [Routine.size, Routine.instructions]
  induction routine.blocks with
  | nil => rfl
  | cons block rest ih =>
    rw [flatMap_cons, length_append, length_cons, extent, total_cons, ← extent, ← ih]
    omega

theorem on_blocks_shrinks {simplify : List Instruction → List Instruction × Nat}
    (shrinks : ∀ instructions, (simplify instructions).1.length + (simplify instructions).2 ≤
      instructions.length ∧ ((simplify instructions).2 = 0 →
        (simplify instructions).1 = instructions))
    (routine : Routine) : routine.Shrinks (onBlocks simplify routine) := by
  obtain ⟨name, blocks, tables, locals⟩ := routine
  have shrunk : extent (onBlocks simplify ⟨name, blocks, tables, locals⟩).1.blocks +
        (onBlocks simplify ⟨name, blocks, tables, locals⟩).2 ≤ extent blocks ∧
      ((onBlocks simplify ⟨name, blocks, tables, locals⟩).2 = 0 →
        (onBlocks simplify ⟨name, blocks, tables, locals⟩).1.blocks = blocks) := by
    induction blocks with
    | nil => exact ⟨le_rfl, fun _ => rfl⟩
    | cons block rest ih =>
      obtain ⟨shorter, same⟩ := shrinks block.instructions
      simp only [onBlocks, extent, map_cons, total_cons] at ih ⊢
      refine ⟨by omega, fun none => ?_⟩
      rw [same (by omega), ih.2 (by omega)]
  refine ⟨by simpa only [size_eq] using shrunk.1, fun none => ?_⟩
  exact congrArg (fun blocks => (⟨name, blocks, tables, locals⟩ : Routine)) (shrunk.2 none)

theorem run_shrinks (routine : Routine) (pass : Pass) : routine.Shrinks (pass.run routine) := by
  cases pass with
  | constantFolding => exact on_blocks_shrinks fold_constants_shrinks routine
  | deadBranch => exact on_blocks_shrinks drop_unreached_shrinks routine
  | naturalFlow =>
    obtain ⟨smaller, same⟩ := fall_through_shrinks routine.blocks
    refine ⟨by simpa only [size_eq, run] using smaller, fun none => ?_⟩
    simp only [run, same none]
  | deadBlock =>
    rw [run, dropDeadBlocks]
    split
    · exact ⟨le_rfl, fun _ => rfl⟩
    · rename_i entry rest blocks
      have kept := keep_reached_sublist routine.targets entry rest
      have shorter := extent_sublist kept
      refine ⟨?_, fun none => ?_⟩
      · simp only [size_eq, blocks, extent, total_cons] at shorter ⊢
        omega
      · have all := kept.eq_of_length_le (Nat.le_of_sub_eq_zero none)
        simp only [all, ← blocks]

theorem run_all_shrinks (routine : Routine) (passes : List Pass) :
    routine.Shrinks (runAll routine passes) := by
  induction passes generalizing routine with
  | nil => exact ⟨le_rfl, fun _ => rfl⟩
  | cons pass rest ih =>
    have here := run_shrinks routine pass
    have later := ih (pass.run routine).1
    refine ⟨?_, fun none => ?_⟩
    · have smaller := later.smaller
      have before := here.smaller
      simp only [runAll]
      omega
    · simp only [runAll] at none ⊢
      rw [later.same (by omega), here.same (by omega)]

/-- If a round changes nothing, no pass does. -/
theorem run_of_run_all (passes : List Pass) (none : (runAll routine passes).2 = 0) :
    ∀ pass ∈ passes, pass.run routine = (routine, 0) := by
  induction passes with
  | nil => exact forall_mem_nil _
  | cons pass rest ih =>
    simp only [runAll, Nat.add_eq_zero_iff] at none
    have same : (pass.run routine).1 = routine := (run_shrinks routine pass).same none.1
    rw [same] at none
    exact forall_mem_cons.mpr ⟨Prod.ext same none.1, ih none.2⟩

theorem simplify_shrinks (passes : List Pass) (bound : Nat) (routine : Routine) :
    ((simplify passes bound routine).1.size + (simplify passes bound routine).2.changes ≤
      routine.size ∧
      (simplify passes bound routine).2.rounds ≤ (simplify passes bound routine).2.changes + 1) ∧
    (routine.size < bound → (runAll (simplify passes bound routine).1 passes).2 = 0) := by
  induction bound generalizing routine with
  | zero => exact ⟨⟨le_rfl, Nat.zero_le _⟩, fun less => absurd less (Nat.not_lt_zero _)⟩
  | succ bound ih =>
    have round := run_all_shrinks routine passes
    simp only [simplify]
    split
    · rename_i none
      rw [round.same none]
      exact ⟨⟨le_rfl, le_rfl⟩, fun _ => none⟩
    · rename_i some_changes
      obtain ⟨⟨smaller, rounds⟩, settled⟩ := ih (runAll routine passes).1
      have less := round.smaller
      exact ⟨⟨by simp only; omega, by simp only; omega⟩, fun enough => settled (by omega)⟩

end Pass

/-- Optimization comes to an end by itself: it makes no more changes than the routine has
instructions and blocks, and with rounds enough for that it leaves a routine that no pass
changes. -/
theorem Routine.optimize_settles (bound : Nat) (routine : Routine) :
    (routine.optimize bound).2.changes ≤ routine.instructions.length + routine.blocks.length ∧
    (routine.optimize bound).2.rounds ≤ routine.instructions.length + routine.blocks.length + 1 ∧
    (routine.instructions.length + routine.blocks.length < bound →
      (∀ pass : Pass, pass.run (routine.optimize bound).1 = ((routine.optimize bound).1, 0)) ∧
      ∀ again > 0, (routine.optimize bound).1.optimize again =
      ((routine.optimize bound).1, ⟨1, 0⟩)) := by
  obtain ⟨⟨smaller, rounds⟩, settled⟩ := Pass.simplify_shrinks Pass.all bound routine
  rw [← optimize] at smaller rounds settled
  have size : routine.size = routine.instructions.length + routine.blocks.length := rfl
  refine ⟨by omega, by omega, fun enough => ?_⟩
  have none := settled enough
  refine ⟨fun pass => Pass.run_of_run_all Pass.all none pass (by cases pass <;> decide),
    fun again some_rounds => ?_⟩
  obtain ⟨again, rfl⟩ := Nat.exists_eq_add_one_of_ne_zero (Nat.ne_of_gt some_rounds)
  have same := (Pass.run_all_shrinks (routine.optimize bound).1 Pass.all).same none
  simp only [optimize] at none same ⊢
  simp only [simplify, none, same, if_true]

/-- A sum and a jump to the next block. -/
theorem Routine.optimize_settles_sum : let routine : Routine := ⟨"sum", [
      ⟨⟨0, "entry"⟩, [.core .pushIntConstant (.int 1), .core .pushIntConstant (.int 2),
        .core .add (.int 0), .core .branch (.label ⟨1, "next"⟩)]⟩,
      ⟨⟨1, "next"⟩, [.core .returnFlow (.int 0)]⟩], [], .empty⟩
    routine.size < 8 ∧ (routine.optimize 8).2.changes ≠ 0 ∧
      (routine.optimize 8).1.optimize 1 = ((routine.optimize 8).1, ⟨1, 0⟩) := by
  intro routine
  exact ⟨by decide, by decide, ((optimize_settles 8 routine).2.2 (by decide)).2 1 (by decide)⟩

end TriggerScript
