import TriggerScript.Code.Optimization
import TriggerScript.Proofs.Execution.Equivalence

/-!
Simplifications inside a block.

Instruction lists that differ only by folded constants and by what stands behind the end of flow run
alike. Constant folding gets from a list to its result by a chain of such differences, since a
folded number may be folded again.
-/

namespace TriggerScript

open Instruction

variable {opcode : Opcode} {value : Int32} {right : List Instruction} {instruction : Instruction}

theorem Opcode.fold_eq_arithmetic (opcode : Opcode) (left right : Int32) :
    opcode.fold? left right = opcode.arithmetic? left right := by
  have leftLow := left.minValue_le_toInt
  have leftHigh := left.toInt_le
  have rightLow := right.minValue_le_toInt
  have rightHigh := right.toInt_le
  cases opcode <;> try rfl
  case add => simp [fold?, arithmetic?]
  case sub => simp [fold?, arithmetic?]
  case mul => simp [fold?, arithmetic?]
  case div =>
    simp only [fold?, arithmetic?]
    rw [Int32.ofInt_tdiv leftLow leftHigh rightLow rightHigh]
    simp only [Int32.ofInt_toInt]
  case mod =>
    simp only [fold?, arithmetic?]
    rw [Int32.ofInt_tmod leftLow leftHigh rightLow rightHigh]
    simp only [Int32.ofInt_toInt]

theorem Opcode.is_arithmetic_of_fold {right : Int32}
    (folded : opcode.fold? left right = some value) :
    opcode.isArithmetic = true := by
  cases opcode <;> first | rfl | exact absurd folded (by simp [fold?])

namespace Instruction

/-- Lists of instructions that differ by folded constants and behind the end of flow. -/
inductive Alike : List Instruction → List Instruction → Prop where
  | nil : Alike [] []
  | keep (instruction : Instruction) {left right : List Instruction}
      (rest : instruction.endsFlow = false → Alike left right) :
      Alike (instruction :: left) (instruction :: right)
  | fold {first second instruction : Instruction} {value : Int32} {left right : List Instruction}
      (folded : instruction.folded? first second = some value) (rest : Alike left right) :
      Alike (first :: second :: instruction :: left) (.core .pushIntConstant (.int value) :: right)

theorem Alike.refl (instructions : List Instruction) : Alike instructions instructions := by
  induction instructions with
  | nil => exact .nil
  | cons instruction rest ih => exact .keep instruction fun _ => ih

theorem Alike.append_left (alike : Alike left right) (before : List Instruction) :
    Alike (before ++ left) (before ++ right) := by
  induction before with
  | nil => exact alike
  | cons instruction rest ih => exact .keep instruction fun _ => ih

theorem folded_cases (folded : instruction.folded? first second = some value) :
    ∃ opcode left right, instruction.operation = .core opcode ∧ first.pushed? = some left ∧
      second.pushed? = some right ∧ opcode.fold? left right = some value := by
  unfold folded? at folded
  split at folded
  · rename_i opcode operation
    obtain ⟨left, pushesLeft, folded⟩ := Option.bind_eq_some_iff.mp folded
    obtain ⟨right, pushesRight, folded⟩ := Option.bind_eq_some_iff.mp folded
    exact ⟨opcode, left, right, operation, pushesLeft, pushesRight, folded⟩
  · simp at folded

theorem eq_push_of_pushed (pushes : instruction.pushed? = some value) :
    instruction = .core .pushIntConstant (.int value) := by
  unfold pushed? at pushes
  split at pushes
  · rw [Option.some.inj pushes]
    rfl
  · simp at pushes

theorem pushed_eq_none (operation : instruction.operation = .core opcode)
    (other : opcode ≠ .pushIntConstant) : instruction.pushed? = none := by
  unfold pushed?
  split
  · exact absurd (Operation.core.inj operation).symm other
  · rfl

end Instruction

namespace Semantics

variable {σ : Type} (semantics : Semantics σ)

theorem ends_flow_judge (ends : instruction.endsFlow = true) (other : choice ≠ .jump) :
    semantics.judge instruction state ≠ .go choice next := by
  simp only [endsFlow, isOpcode, Bool.or_eq_true, decide_eq_true_eq] at ends
  unfold judge
  rcases ends with branches | returns
  · simp [branches, other.symm]
  · simp [returns]

theorem judge_push (value : Int32) (state : σ) :
    semantics.judge (.core .pushIntConstant (.int value)) state =
      .go .onward (semantics.push value state) := rfl

theorem judge_folded {right : Int32} (operation : instruction.operation = .core opcode)
    (folded : opcode.fold? left right = some value) (state : σ) :
    semantics.judge instruction (semantics.push right (semantics.push left state)) =
      .go .onward (semantics.push value state) := by
  have arithmetic := Opcode.is_arithmetic_of_fold folded
  have computed : semantics.compute opcode (semantics.push right (semantics.push left state)) =
      some (semantics.push value state) := by
    rw [Opcode.fold_eq_arithmetic] at folded
    simp [compute, semantics.pop_push, folded]
  have other : opcode ≠ .pushIntConstant := by
    rintro rfl
    exact absurd arithmetic (by decide)
  have effect : semantics.effect instruction (semantics.push right (semantics.push left state)) =
      some (semantics.push value state) := by
    simp only [Semantics.effect, pushed_eq_none operation other, operation, arithmetic, if_true,
      computed]
  unfold judge
  rw [operation]
  cases opcode <;> first
    | exact absurd arithmetic (by decide)
    | simp only [Opcode.isBranch, Bool.false_eq_true, if_false, effect, goOn]

end Semantics

namespace Block

/-- Blocks of one label with instructions that are alike. -/
def Alike (left right : Block) : Prop :=
  left.label = right.label ∧ Instruction.Alike left.instructions right.instructions

theorem Alike.refl (block : Block) : Alike block block := ⟨rfl, Instruction.Alike.refl _⟩

theorem alike_refl (blocks : List Block) : List.Forall₂ Alike blocks blocks :=
  List.forall₂_same.mpr fun block _ => .refl block

end Block

/-- Places with alike instructions ahead and alike blocks behind them. -/
def Position.Alike (left right : Position) : Prop :=
  Instruction.Alike left.ahead right.ahead ∧ List.Forall₂ Block.Alike left.behind right.behind

theorem Block.seek_alike {right : List Block} (alike : List.Forall₂ Alike left right) (id : Nat) :
    Option.Rel Position.Alike (seek id left) (seek id right) := by
  induction alike with
  | nil => exact .none
  | cons head rest ih =>
    simp only [seek, head.1]
    split
    · exact .some ⟨head.2, rest⟩
    · exact ih

namespace Routine

variable {σ : Type} {first second : Routine} (semantics : Semantics σ)

/-- One step from related places, where the instruction sends both machines to related ones. -/
theorem step_related (tables : first.tables = second.tables)
    (targets : ∀ label, first.IsTarget instruction label →
      Option.Rel places (first.enter? label) (second.enter? label))
    (onward : instruction.endsFlow = false → places ⟨ahead, behind⟩ ⟨ahead', behind'⟩) (state : σ) :
    Machine.Related places (first.step semantics (.running ⟨instruction :: ahead, behind⟩ state))
      (second.step semantics (.running ⟨instruction :: ahead', behind'⟩ state)) := by
  simp only [step]
  cases judged : semantics.judge instruction state with
  | stop ending final => exact .stopped ending final
  | go choice next =>
    apply Machine.resume_related
    apply follow_related tables targets
    intro goes_on
    cases ends : instruction.endsFlow with
    | false => exact onward ends
    | true => exact absurd judged (Semantics.ends_flow_judge semantics ends goes_on)

/-- From alike places both machines come to alike places. Folded arithmetic is one step of the
second machine and three of the first. -/
theorem alike_progresses (blocks : List.Forall₂ Block.Alike first.blocks second.blocks)
    (tables : first.tables = second.tables) :
    Progresses first second semantics (Machine.Related Position.Alike) := by
  intro left right relation
  cases relation with
  | stopped ending state => exact .inl ⟨ending, state, rfl, rfl⟩
  | @running left right places state =>
    refine .inr ⟨trivial, trivial, ?_⟩
    obtain ⟨ahead, behind⟩ := left
    obtain ⟨ahead', behind'⟩ := right
    obtain ⟨ahead_alike, behind_alike⟩ := places
    dsimp only at ahead_alike behind_alike
    cases ahead_alike with
    | nil =>
      refine ⟨0, 0, ?_⟩
      cases behind_alike with
      | nil => exact .stopped .ranOff state
      | cons head rest => exact .running ⟨head.2, rest⟩ state
    | @keep instruction left right rest =>
      refine ⟨0, 0, ?_⟩
      exact step_related semantics tables (fun label _ => Block.seek_alike blocks label.id)
        (fun goes_on => ⟨rest goes_on, behind_alike⟩) state
    | @fold one two instruction value left right folded rest =>
      obtain ⟨opcode, a, b, operation, pushes_left, pushes_right, folds⟩ :=
        folded_cases folded
      obtain rfl := eq_push_of_pushed pushes_left
      obtain rfl := eq_push_of_pushed pushes_right
      refine ⟨2, 0, ?_⟩
      simp only [run_succ, run_zero, step, Semantics.judge_push, follow, Machine.resume,
        semantics.judge_folded operation folds]
      exact .running ⟨rest, behind_alike⟩ _

theorem runs_like_of_alike (blocks : List.Forall₂ Block.Alike first.blocks second.blocks)
    (tables : first.tables = second.tables) : first.RunsLike second semantics :=
  runs_like_of_progress (alike_progresses semantics blocks tables) fun state =>
    .running ⟨.nil, blocks⟩ state

end Routine

namespace Block

open Relation

/-- Put other instructions into a block. -/
def fill (block : Block) (instructions : List Instruction) : Block := { block with instructions }

theorem alike_reachable (instructions : List Instruction) :
    Instruction.Alike instructions (reachable instructions) := by
  induction instructions with
  | nil => exact .nil
  | cons instruction rest ih =>
    rw [reachable]
    split
    · rename_i ends
      exact .keep instruction fun goes_on => absurd (ends.symm.trans goes_on) (by simp)
    · exact .keep instruction fun _ => ih

/-- Putting an instruction behind others folds it or leaves the list as it is. -/
theorem alike_fold_onto (before : List Instruction × Nat) (instruction : Instruction)
    (rest : List Instruction) :
    Instruction.Alike (before.1.reverse ++ instruction :: rest)
    ((foldOnto before instruction).1.reverse ++ rest) := by
  unfold foldOnto
  split
  · rename_i right left others count
    split
    · rename_i value folded
      have folds := (Alike.fold folded (.refl rest)).append_left others.reverse
      simpa using folds
    · simpa using Instruction.Alike.refl _
  · simpa using Instruction.Alike.refl _

theorem alike_foldl (before : List Instruction × Nat) (instructions : List Instruction) :
    ReflTransGen Instruction.Alike (before.1.reverse ++ instructions)
      (instructions.foldl foldOnto before).1.reverse := by
  induction instructions generalizing before with
  | nil =>
    rw [List.append_nil]
    exact .refl
  | cons instruction rest ih => exact .head (alike_fold_onto before instruction rest) (ih _)

theorem alike_fold_constants (instructions : List Instruction) :
    ReflTransGen Instruction.Alike instructions (foldConstants instructions).1 :=
  alike_foldl ([], 0) instructions

end Block

namespace Routine

open Relation

variable {σ : Type} (routine : Routine) (semantics : Semantics σ)

theorem runs_like_replace (before after : List Block) (block : Block)
    (chain : ReflTransGen Instruction.Alike left right) :
    RunsLike { routine with blocks := before ++ block.fill left :: after }
      { routine with blocks := before ++ block.fill right :: after } semantics := by
  induction chain with
  | refl => exact .refl _ _
  | tail _ alike ih =>
    refine ih.trans (runs_like_of_alike semantics ?_ rfl)
    exact List.rel_append (Block.alike_refl before) (.cons ⟨rfl, alike⟩ (Block.alike_refl after))

theorem runs_like_map {simplify : List Instruction → List Instruction}
    (chains : ∀ instructions, ReflTransGen Instruction.Alike instructions (simplify instructions))
    (before after : List Block) : RunsLike { routine with blocks := before ++ after } { routine with
        blocks := before ++ after.map fun block => block.fill (simplify block.instructions) }
      semantics := by
  induction after generalizing before with
  | nil => exact .refl _ _
  | cons block rest ih =>
    have head := runs_like_replace routine semantics before rest block (chains block.instructions)
    have tail := ih (before ++ [block.fill (simplify block.instructions)])
    simp only [List.append_assoc, List.cons_append, List.nil_append] at tail
    exact head.trans tail

end Routine

end TriggerScript
