import TriggerScript.Proofs.Execution.Closed
import TriggerScript.Proofs.Optimization.Preservation

/-!
Optimization keeps routines closed.

Three of the passes leave the labels of the blocks as they are, add no instructions but pushes of
numbers, and leave the end of the last block alone. The fourth drops blocks, but neither one that is
a target nor one that the block before it falls into.
-/

namespace TriggerScript

open List Block Instruction

variable {instructions : List Instruction}

theorem Instruction.EndFlow.split (ends : EndFlow instructions) :
    ∃ before last, instructions = before ++ [last] ∧ last.endsFlow = true := by
  obtain ⟨last, listed, flows⟩ := (Option.any_eq_true _ _).mp ends
  obtain ⟨before, split⟩ := getLast?_eq_some_iff.mp listed
  exact ⟨before, last, split, flows⟩

theorem Instruction.end_flow_append_last {last : Instruction} (ends : last.endsFlow = true)
    (before : List Instruction) : EndFlow (before ++ [last]) := by
  simp [EndFlow, ends]

namespace Block

variable {instruction : Instruction}

/-! ### Simplified instructions -/

/-- A simplification adds nothing but pushes of numbers, and keeps an end of the flow. -/
structure Trusty (simplify : List Instruction → List Instruction × Nat) : Prop where
  members : ∀ instructions, ∀ instruction ∈ (simplify instructions).1,
    instruction ∈ instructions ∨ ∃ value, instruction.operand = .int value
  ends : ∀ instructions, Instruction.EndFlow instructions →
    Instruction.EndFlow (simplify instructions).1

theorem mem_of_mem_fold_onto (member : other ∈ (foldOnto before instruction).1) :
    other ∈ before.1 ∨ other = instruction ∨ ∃ value, other.operand = .int value := by
  unfold foldOnto at member
  split at member
  · split at member
    · rcases mem_cons.mp member with rfl | later
      · exact .inr (.inr ⟨_, rfl⟩)
      · exact .inl (mem_cons_of_mem _ (mem_cons_of_mem _ later))
    · rcases mem_cons.mp member with rfl | later
      · exact .inr (.inl rfl)
      · exact .inl later
  · rcases mem_cons.mp member with rfl | later
    · exact .inr (.inl rfl)
    · exact .inl later

theorem mem_of_mem_foldl (member : instruction ∈ (instructions.foldl foldOnto before).1) :
    instruction ∈ before.1 ∨ instruction ∈ instructions ∨ ∃ value,
      instruction.operand = .int value := by
  induction instructions generalizing before with
  | nil => exact .inl member
  | cons first rest ih =>
    rcases ih member with folded | later | pushed
    · rcases mem_of_mem_fold_onto folded with held | rfl | pushed
      · exact .inl held
      · exact .inr (.inl mem_cons_self)
      · exact .inr (.inr pushed)
    · exact .inr (.inl (mem_cons_of_mem _ later))
    · exact .inr (.inr pushed)

/-- What ends the flow is no arithmetic, so it is never folded. -/
theorem fold_onto_of_ends (ends : instruction.endsFlow = true) (before : List Instruction × Nat) :
    (foldOnto before instruction).1 = instruction :: before.1 := by
  have never : ∀ left right, instruction.folded? left right = none := by
    intro left right
    cases folded : instruction.folded? left right with
    | none => rfl
    | some value =>
      obtain ⟨opcode, a, b, operation, -, -, folds⟩ := folded_cases folded
      have arithmetic := Opcode.is_arithmetic_of_fold folds
      simp only [Instruction.endsFlow, Instruction.isOpcode, operation, Operation.core.injEq,
        Bool.or_eq_true, decide_eq_true_eq] at ends
      rcases ends with rfl | rfl <;> cases arithmetic
  unfold foldOnto
  split
  · rw [never]
  · rfl

theorem fold_constants_trusty : Trusty foldConstants where
  members instructions instruction member := by
    rcases mem_of_mem_foldl (mem_reverse.mp member) with none | kept
    · cases none
    · exact kept
  ends instructions ends := by
    obtain ⟨before, last, rfl, flows⟩ := ends.split
    simp only [foldConstants, foldl_append, foldl_cons, foldl_nil, fold_onto_of_ends flows,
      reverse_cons]
    exact end_flow_append_last flows _

theorem reachable_sublist (instructions : List Instruction) :
    (reachable instructions).Sublist instructions := by
  induction instructions with
  | nil => exact .slnil
  | cons instruction rest ih =>
    rw [reachable]
    split
    · exact (nil_sublist rest).cons_cons instruction
    · exact ih.cons_cons instruction

theorem drop_unreached_trusty : Trusty dropUnreached where
  members instructions instruction member := .inl ((reachable_sublist instructions).subset member)
  ends instructions ends := by
    show EndFlow (reachable instructions)
    induction instructions with
    | nil => exact ends
    | cons instruction rest ih =>
      rw [reachable]
      split
      · rename_i flows
        exact end_flow_append_last flows []
      · rename_i goes_on
        exact (ih (ends.tail (by simpa using goes_on))).append [instruction]

/-! ### Simplified blocks -/

theorem trim_subset (block : Block) (rest : List Block) :
    (block.trim rest).instructions ⊆ block.instructions := by
  cases rest with
  | nil => exact Subset.refl _
  | cons next rest =>
    rw [trim]
    split
    · exact dropLast_subset _
    · exact Subset.refl _

theorem mem_of_mem_fall_through
    (member : instruction ∈ (fallThrough blocks).1.flatMap Block.instructions) :
    instruction ∈ blocks.flatMap Block.instructions := by
  induction blocks with
  | nil => exact member
  | cons block rest ih =>
    rw [fall_through_cons, flatMap_cons, mem_append] at member
    rw [flatMap_cons, mem_append]
    exact member.imp (trim_subset block rest ·) ih

theorem last_fall_through (blocks : List Block) :
    (fallThrough blocks).1.getLast? = blocks.getLast? := by
  induction blocks with
  | nil => rfl
  | cons block rest ih =>
    cases rest with
    | nil => rfl
    | cons next rest =>
      rw [fall_through_cons, fall_through_cons, getLast?_cons_cons, getLast?_cons_cons,
        ← fall_through_cons]
      exact ih

theorem mem_keep_reached {block : Block} (target : block.label.id ∈ targets)
    (member : block ∈ rest) :
    block ∈ keepReached targets before rest := by
  induction rest generalizing before with
  | nil => cases member
  | cons first rest ih =>
    rw [keepReached]
    rcases mem_cons.mp member with rfl | later
    · simp [target]
    · split
      · exact ih later
      · exact mem_cons_of_mem _ (ih later)

theorem keep_reached_ends (ends : (before :: rest).getLast?.any endsFlow = true) :
    (before :: keepReached targets before rest).getLast?.any endsFlow = true := by
  induction rest generalizing before with
  | nil => exact ends
  | cons block rest ih =>
    rw [getLast?_cons_cons] at ends
    have later := ih ends
    rw [keepReached]
    split
    · rename_i dropped
      rw [Bool.and_eq_true] at dropped
      -- If nothing is kept behind the dropped block, the one before it is the last.
      cases kept : keepReached targets block rest with
      | nil => simpa using dropped.1
      | cons next others =>
        rw [kept, getLast?_cons_cons] at later
        rw [getLast?_cons_cons]
        exact later
    · rw [getLast?_cons_cons]
      exact later

end Block

namespace Routine

variable {routine result : Routine}

theorem marks_iff {label : Label} :
    routine.Marks label ↔ label.id ∈ routine.blocks.map fun block => block.label.id := by
  rw [mem_map]
  rfl

theorem Knows.of_marks {operand : Operand} (known : routine.Knows operand)
    (tables : result.tables = routine.tables) (locals : result.locals = routine.locals)
    (marks : ∀ label, operand = .label label → routine.Marks label → result.Marks label) :
    result.Knows operand := by
  cases operand with
  | label target => exact marks target rfl known
  | localVar target =>
    unfold Knows at known ⊢
    rw [locals]
    exact known
  | switch index =>
    unfold Knows at known ⊢
    rw [tables]
    exact known
  | int | long | text | bool | script => trivial

/-- A routine with the same labels and tables, and with no instructions of its own but pushes of
numbers. -/
theorem Closed.of_labels (closed : routine.Closed)
    (labels : result.blocks.map (fun block => block.label.id) = routine.blocks.map fun block =>
      block.label.id)
    (tables : result.tables = routine.tables) (locals : result.locals = routine.locals)
    (members : ∀ instruction ∈ result.instructions, instruction ∈ routine.instructions ∨
      ∃ value, instruction.operand = .int value)
    (ends : ∃ last, result.blocks.getLast? = some last ∧ last.endsFlow = true) : result.Closed := by
  have marks : ∀ label, routine.Marks label → result.Marks label := by
    intro label
    rw [marks_iff, marks_iff, labels]
    exact id
  refine ⟨labels_distinct_of_map closed.distinct labels, ?_, fun instruction member => ?_, ?_, ends⟩
  · obtain ⟨first, rest, split, zero⟩ := closed.entry
    rw [split, map_cons, map_eq_cons_iff] at labels
    obtain ⟨first', rest', split', same, -⟩ := labels
    exact ⟨first', rest', split', same.trans zero⟩
  · rcases members instruction member with kept | ⟨value, pushed⟩
    · exact (closed.operands instruction kept).of_marks tables locals fun label _ => marks label
    · rw [pushed]
      trivial
  · intro table listed entry held
    rw [tables] at listed
    exact marks _ (closed.cases table listed entry held)

theorem Closed.on_blocks (closed : routine.Closed)
    {simplify : List Instruction → List Instruction × Nat} (trusty : Trusty simplify) :
    (Pass.onBlocks simplify routine).1.Closed := by
  rw [Pass.on_blocks_eq]
  refine closed.of_labels ?_ rfl rfl ?_ ?_
  · simp [Function.comp_def, fill]
  · intro instruction member
    obtain ⟨block, listed, held⟩ := mem_flatMap.mp member
    obtain ⟨source, inside, rfl⟩ := mem_map.mp listed
    refine (trusty.members source.instructions instruction held).imp_left fun kept => ?_
    exact mem_flatMap.mpr ⟨source, inside, kept⟩
  · obtain ⟨last, listed, ends⟩ := closed.ends
    refine ⟨last.fill (simplify last.instructions).1, ?_, trusty.ends last.instructions ends⟩
    rw [getLast?_map, listed, Option.map_some]

theorem Closed.trimmed (closed : routine.Closed) : routine.trimmed.Closed := by
  refine closed.of_labels (trimmed_labels routine.blocks) rfl rfl ?_ ?_
  · exact fun instruction member => .inl (Block.mem_of_mem_fall_through member)
  · rw [Routine.trimmed, last_fall_through]
    exact closed.ends

theorem pruned_locals : routine.pruned.locals = routine.locals := by
  unfold pruned dropDeadBlocks
  split <;> rfl

theorem marks_pruned {label : Label} (marks : routine.Marks label)
    (target : label.id ∈ routine.targets) : routine.pruned.Marks label := by
  obtain ⟨block, member, same⟩ := marks
  refine ⟨block, ?_, same⟩
  rw [pruned_blocks ⟨0, ""⟩]
  exact mem_keep_reached (same ▸ target) member

variable (closed : routine.Closed)

include closed

theorem Closed.pruned : routine.pruned.Closed := by
  obtain ⟨entry, rest, split, zero⟩ := closed.entry
  have blocks : routine.pruned.blocks = entry :: keepReached routine.targets entry rest := by
    unfold Routine.pruned dropDeadBlocks
    rw [split]
  have sublist := keep_reached_sublist routine.targets ⟨⟨0, ""⟩, []⟩ routine.blocks
  rw [← pruned_blocks] at sublist
  refine ⟨pruned_distinct closed.distinct, ⟨entry, _, blocks, zero⟩, ?_, ?_, ?_⟩
  · intro instruction member
    obtain ⟨block, listed, held⟩ := mem_flatMap.mp member
    have kept : instruction ∈ routine.instructions :=
      mem_flatMap.mpr ⟨block, sublist.subset listed, held⟩
    refine (closed.operands instruction kept).of_marks pruned_tables.symm pruned_locals ?_
    intro label names marks
    refine marks_pruned marks (mem_targets kept (.inl ?_))
    rw [target?, names]
  · intro table listed entry held
    rw [← pruned_tables] at listed
    refine marks_pruned (closed.cases table listed entry held) (mem_append_right _ ?_)
    exact mem_flatMap.mpr ⟨table, listed, mem_map.mpr ⟨entry, held, rfl⟩⟩
  · obtain ⟨last, listed, ends⟩ := closed.ends
    have whole : (entry :: rest).getLast?.any Block.endsFlow = true := by
      rw [← split, listed]
      exact ends
    obtain ⟨last, listed, ends⟩ := (Option.any_eq_true _ _).mp (keep_reached_ends whole)
    exact ⟨last, blocks ▸ listed, ends⟩

theorem Closed.pass (pass : Pass) : (pass.run routine).1.Closed := by
  cases pass with
  | constantFolding => exact closed.on_blocks fold_constants_trusty
  | deadBranch => exact closed.on_blocks drop_unreached_trusty
  | naturalFlow => exact closed.trimmed
  | deadBlock => exact closed.pruned

theorem Closed.passes (passes : List Pass) : (Pass.runAll routine passes).1.Closed := by
  induction passes generalizing routine with
  | nil => exact closed
  | cons pass rest ih => exact ih (closed.pass pass)

theorem Closed.simplify (passes : List Pass) (bound : Nat) :
    (routine.simplify passes bound).1.Closed := by
  induction bound generalizing routine with
  | zero => exact closed
  | succ bound ih =>
    have round := closed.passes passes
    simp only [Routine.simplify]
    split
    · exact round
    · exact ih round

end Routine

end TriggerScript
