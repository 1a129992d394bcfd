import TriggerScript.Proofs.Optimization.Blocks

/-!
Simplifications of the flow between blocks.

A block that ends in a jump to the next one may fall into it instead. A block may go that is no
target and that the block before it does not fall into: control is never in such a block nor at the
end of the one before it.
-/

namespace TriggerScript

open List Block Position

namespace Block

/-- The jump at the end of a block to the first of the blocks behind it dropped. -/
def trim (block : Block) : List Block → Block
  | [] => block
  | next :: _ =>
    if block.endsInJumpTo next.label then
      block.fill block.instructions.dropLast
    else block

theorem fall_through_cons (block : Block) (rest : List Block) :
    (fallThrough (block :: rest)).1 = block.trim rest :: (fallThrough rest).1 := by
  cases rest with
  | nil => rfl
  | cons next rest =>
    simp only [fallThrough, trim]
    split <;> rfl

theorem trim_label (block : Block) (rest : List Block) : (block.trim rest).label = block.label := by
  cases rest with
  | nil => rfl
  | cons next rest =>
    simp only [trim]
    split <;> rfl

end Block

/-- The second place lacks at most a jump to the block that comes next. -/
def Position.Trims (blocks : List Block) (left right : Position) : Prop :=
  left.behind <:+ blocks ∧ right.behind = (Block.fallThrough left.behind).1 ∧
    (right.ahead = left.ahead ∨
      ∃ instruction label next rest, left.behind = next :: rest ∧
        left.ahead = right.ahead ++ [instruction] ∧ instruction.operation = .core .branch ∧
        instruction.target? = some label ∧ label.id = next.label.id)

theorem Position.trims_block (block : Block) (rest : List Block)
    (inside : block :: rest <:+ blocks) :
    Trims blocks ⟨block.instructions, rest⟩
      ⟨(block.trim rest).instructions, (fallThrough rest).1⟩ := by
  refine ⟨(suffix_cons block rest).trans inside, rfl, ?_⟩
  cases rest with
  | nil => exact .inl rfl
  | cons next rest =>
    simp only [trim]
    split
    · rename_i ends
      right
      unfold endsInJumpTo at ends
      split at ends
      · rename_i instruction last
        simp only [Bool.and_eq_true, Instruction.isOpcode, decide_eq_true_eq] at ends
        obtain ⟨branches, targets⟩ := ends
        cases target : instruction.target? with
        | none => simp [target] at targets
        | some label =>
          have same : label.id = next.label.id := by simpa [target] using targets
          refine ⟨instruction, label, next, rest, rfl, ?_, branches, target, same⟩
          exact (dropLast_append_getLast? instruction last).symm
      · simp at ends
    · exact .inl rfl

theorem Block.seek_fall_through (inside : rest <:+ blocks) (id : Nat) :
    Option.Rel (Trims blocks) (seek id rest) (seek id (fallThrough rest).1) := by
  induction rest with
  | nil => exact .none
  | cons block rest ih =>
    rw [fall_through_cons]
    simp only [seek, trim_label]
    split
    · exact .some (trims_block block rest inside)
    · exact ih ((suffix_cons block rest).trans inside)

namespace Routine

variable {σ : Type} (routine : Routine) (semantics : Semantics σ)

/-- The routine without the jumps from each block to the next. -/
def trimmed : Routine := { routine with blocks := (Block.fallThrough routine.blocks).1 }

variable {routine}

variable (distinct : routine.LabelsDistinct)

include distinct

theorem step_jump_to_next {instruction : Instruction} {label : Label} {next : Block}
    (inside : next :: rest <:+ routine.blocks) (branches : instruction.operation = .core .branch)
    (target : instruction.target? = some label) (same : label.id = next.label.id) (state : σ) :
    routine.step semantics (.running ⟨[instruction], next :: rest⟩ state) =
      .running ⟨next.instructions, rest⟩ state := by
  obtain ⟨before, blocks⟩ := inside
  have entered : routine.enter? label = some ⟨next.instructions, rest⟩ := by
    unfold LabelsDistinct at distinct
    rw [← blocks] at distinct
    rw [enter?, ← blocks, same]
    exact seek_of_distinct distinct
  simp [step, Semantics.judge, branches, follow, target, entered, Machine.resume]

theorem trims_progresses :
    Progresses routine routine.trimmed semantics (Machine.Related (Trims routine.blocks)) := by
  have targets : ∀ label, Option.Rel (Trims routine.blocks) (routine.enter? label)
    (routine.trimmed.enter? label) :=
    fun label => seek_fall_through suffix_rfl label.id
  have tables : routine.tables = routine.trimmed.tables := rfl
  intro left right relation
  cases relation with
  | stopped ending state => exact .inl ⟨ending, state, rfl, rfl⟩
  | @running left right places state =>
    refine .inr ⟨trivial, trivial, 0, 0, ?_⟩
    obtain ⟨ahead, behind⟩ := left
    obtain ⟨ahead', behind'⟩ := right
    obtain ⟨inside, rfl, same | ⟨instruction, label, next, rest, rfl, ends, branches, target,
      same⟩⟩ :=
      places
    · dsimp only at same inside
      subst same
      cases ahead' with
      | nil =>
        cases behind with
        | nil => exact .stopped .ranOff state
        | cons next rest =>
          simp only [run_succ, run_zero, fall_through_cons, step]
          exact .running (trims_block next rest inside) state
      | cons instruction ahead =>
        exact step_related semantics tables (fun label _ => targets label)
          (fun _ => ⟨inside, rfl, .inl rfl⟩) state
    · dsimp only at ends inside
      subst ends
      cases ahead' with
      | nil =>
        simp only [run_succ, run_zero, nil_append, fall_through_cons,
          step_jump_to_next semantics distinct inside branches target same]
        exact .running (trims_block next rest inside) state
      | cons first ahead =>
        exact step_related semantics tables (fun label _ => targets label)
          (fun _ => ⟨inside, rfl, .inr ⟨instruction, label, next, rest, rfl, rfl, branches, target,
            same⟩⟩) state

theorem runs_like_trimmed : routine.RunsLike routine.trimmed semantics := by
  apply runs_like_of_progress (trims_progresses semantics distinct)
  intro state
  have places : Trims routine.blocks routine.entry routine.trimmed.entry :=
    ⟨suffix_rfl, rfl, .inl rfl⟩
  exact .running places state

end Routine

/-- Places with the same instructions ahead, and behind the second the blocks of the first that are
reached. Control is not at the end of a block that ends the flow. -/
def Position.Keeps (routine : Routine) (left right : Position) : Prop :=
  right.ahead = left.ahead ∧ (∀ block ∈ left.behind, block ∈ routine.blocks) ∧
    ∃ before : Block, right.behind = Block.keepReached routine.targets before left.behind ∧
      (∀ instruction ∈ before.instructions, instruction ∈ routine.instructions) ∧
      left.ahead <:+ before.instructions ∧ (left.ahead = [] → before.endsFlow = false)

theorem Position.keeps_block {routine : Routine} (block : Block) (rest : List Block)
    (inside : ∀ other ∈ block :: rest, other ∈ routine.blocks) :
    Keeps routine ⟨block.instructions, rest⟩
      ⟨block.instructions, keepReached routine.targets block rest⟩ := by
  refine ⟨rfl, fun other later => inside other (.tail block later), block, rfl, ?_, suffix_rfl, ?_⟩
  · intro instruction member
    exact mem_flatMap.mpr ⟨block, inside block (.head rest), member⟩
  · intro empty
    dsimp only at empty
    simp [endsFlow, empty]

/-- A target leads to a place and to the place with the reached blocks behind it. -/
theorem Block.seek_keep_reached {routine : Routine} {id : Nat} (target : id ∈ routine.targets)
    (before : Block) {rest : List Block} (inside : ∀ block ∈ rest, block ∈ routine.blocks) :
    Option.Rel (Keeps routine) (seek id rest)
    (seek id (keepReached routine.targets before rest)) := by
  induction rest generalizing before with
  | nil => exact .none
  | cons block rest ih =>
    have later := ih block fun other member => inside other (.tail block member)
    rw [keepReached]
    split
    · rename_i dropped
      have other : block.label.id ≠ id := by
        rintro rfl
        simp [target] at dropped
      simpa only [seek, if_neg other] using later
    · simp only [seek]
      split
      · exact .some (keeps_block block rest inside)
      · exact later

theorem Block.keep_reached_sublist (targets : List Nat) (before : Block) (rest : List Block) :
    (keepReached targets before rest).Sublist rest := by
  induction rest generalizing before with
  | nil => exact .slnil
  | cons block rest ih =>
    rw [keepReached]
    split
    · exact (ih block).cons block
    · exact (ih block).cons_cons block

namespace Routine

variable {σ : Type} {routine : Routine} (semantics : Semantics σ)

/-- The routine with the blocks only that something reaches. -/
def pruned (routine : Routine) : Routine := routine.dropDeadBlocks.1

theorem pruned_tables : routine.tables = routine.pruned.tables := by
  unfold pruned dropDeadBlocks
  split <;> rfl

theorem pruned_blocks (label : Label) :
    routine.pruned.blocks = keepReached routine.targets ⟨label, []⟩ routine.blocks := by
  unfold pruned dropDeadBlocks
  split
  · rename_i empty
    simp [empty, keepReached]
  · rename_i block rest nonempty
    simp [nonempty, keepReached, endsFlow]

theorem mem_targets {label : Label} (inside : instruction ∈ routine.instructions)
    (target : routine.IsTarget instruction label) : label.id ∈ routine.targets := by
  unfold targets
  rcases target with jumps | ⟨table, listed, entry, case, rfl⟩
  · apply mem_append_left
    exact mem_map_of_mem (mem_filterMap.mpr ⟨instruction, inside, jumps⟩)
  · apply mem_append_right
    exact mem_flatMap.mpr ⟨table, listed, mem_map.mpr ⟨entry, case, rfl⟩⟩

theorem keeps_progresses :
    Progresses routine routine.pruned semantics (Machine.Related (Keeps routine)) := by
  intro left right relation
  cases relation with
  | stopped ending state => exact .inl ⟨ending, state, rfl, rfl⟩
  | @running left right places state =>
    refine .inr ⟨trivial, trivial, 0, 0, ?_⟩
    obtain ⟨ahead, behind⟩ := left
    obtain ⟨ahead', behind'⟩ := right
    obtain ⟨same, inside, before, kept, listed, suffix, open_end⟩ := places
    dsimp only at same inside kept suffix open_end
    subst same kept
    cases ahead' with
    | nil =>
      cases behind with
      | nil => exact .stopped .ranOff state
      | cons next rest =>
        have kept : keepReached routine.targets before (next :: rest) =
            next :: keepReached routine.targets next rest := by
          simp [keepReached, open_end rfl]
        simp only [run_succ, run_zero, kept, step]
        exact .running (keeps_block next rest inside) state
    | cons instruction ahead =>
      have member : instruction ∈ routine.instructions :=
        listed instruction (suffix.subset (.head ahead))
      refine step_related semantics pruned_tables ?_ ?_ state
      · intro label target
        unfold enter?
        rw [pruned_blocks label]
        exact seek_keep_reached (mem_targets member target) _ fun _ => id
      · intro goes_on
        refine ⟨rfl, inside, before, rfl, listed, (suffix_cons instruction ahead).trans suffix, ?_⟩
        rintro rfl
        obtain ⟨first, split⟩ := suffix
        simp [endsFlow, ← split, goes_on]

theorem runs_like_pruned : routine.RunsLike routine.pruned semantics := by
  apply runs_like_of_progress (keeps_progresses semantics)
  intro state
  have places : Keeps routine routine.entry routine.pruned.entry := by
    refine ⟨rfl, fun _ => id, ⟨⟨0, ""⟩, []⟩, pruned_blocks _, ?_, suffix_rfl, fun _ => rfl⟩
    intro instruction member
    exact absurd member not_mem_nil
  exact .running places state

end Routine

end TriggerScript
