import TriggerScript.Proofs.Optimization.Blocks

/-!
Closed routines.

A routine is closed if everything that its code names is there, and if control does not fall out of
its last block. Then control is always before some instruction.
-/

namespace TriggerScript

namespace Routine

/-- A block has the label. -/
def Marks (routine : Routine) (label : Label) : Prop :=
  ∃ block ∈ routine.blocks, block.label.id = label.id

/-- What the operand names is there. -/
def Knows (routine : Routine) : Operand → Prop
  | .label target => routine.Marks target
  | .localVar target => ∃ slot, routine.locals.slot? target = some slot
  | .switch index => ∃ table, routine.tables[index]? = some table
  | _ => True

structure Closed (routine : Routine) : Prop where
  distinct : routine.LabelsDistinct
  /-- The block with the first number is the entry. -/
  entry : ∃ first rest, routine.blocks = first :: rest ∧ first.label.id = 0
  operands : ∀ instruction ∈ routine.instructions, routine.Knows instruction.operand
  cases : ∀ table ∈ routine.tables, ∀ entry ∈ table.cases, routine.Marks entry.label
  /-- The last block has instructions, and its last one is a jump or a return. -/
  ends : ∃ last, routine.blocks.getLast? = some last ∧ last.endsFlow = true

end Routine

namespace Instruction

/-- The last of the instructions ends the flow. -/
def EndFlow (instructions : List Instruction) : Prop := instructions.getLast?.any endsFlow = true

theorem EndFlow.ne_nil (ends : EndFlow instructions) : instructions ≠ [] := by
  rintro rfl
  cases ends

theorem EndFlow.append (ends : EndFlow instructions) (before : List Instruction) :
    EndFlow (before ++ instructions) := by
  unfold EndFlow
  rw [List.getLast?_append_of_ne_nil _ ends.ne_nil]
  exact ends

/-- Behind an instruction that does not end the flow, the others do. -/
theorem EndFlow.tail (ends : EndFlow (instruction :: rest))
    (goes_on : instruction.endsFlow = false) :
    EndFlow rest := by
  cases rest with
  | nil => simp [EndFlow, goes_on] at ends
  | cons next rest =>
    unfold EndFlow at ends ⊢
    rwa [List.getLast?_cons_cons] at ends

end Instruction

theorem Block.end_flow_of_last {blocks : List Block} (listed : blocks.getLast? = some last)
    (ends : last.endsFlow = true) : Instruction.EndFlow (blocks.flatMap Block.instructions) := by
  obtain ⟨before, rfl⟩ := List.getLast?_eq_some_iff.mp listed
  rw [List.flatMap_append, List.flatMap_singleton]
  exact Instruction.EndFlow.append ends _

theorem Block.split_of_seek {id : Nat} (found : seek id blocks = some place) :
    ∃ before block after, blocks = before ++ block :: after ∧
      place = ⟨block.instructions, after⟩ := by
  induction blocks with
  | nil => cases found
  | cons block rest ih =>
    rw [seek] at found
    split at found
    · exact ⟨[], block, rest, rfl, (Option.some.inj found).symm⟩
    · obtain ⟨before, other, after, rfl, same⟩ := ih found
      exact ⟨block :: before, other, after, rfl, same⟩

namespace Semantics

variable {σ : Type} (semantics : Semantics σ)

theorem judge_ne_ran_off (instruction : Instruction) (state final : σ) :
    semantics.judge instruction state ≠ .stop .ranOff final := by
  unfold judge goOn
  split <;> (try split) <;> (try split) <;> nofun

end Semantics

namespace Routine

variable {σ : Type} {routine : Routine}

/-- From a block of the routine to the end of the last, the last instruction ends the flow. -/
theorem Closed.suffix_ends (closed : routine.Closed)
    (split : routine.blocks = before ++ block :: after) :
    Instruction.EndFlow ((block :: after).flatMap Block.instructions) := by
  obtain ⟨last, listed, ends⟩ := closed.ends
  rw [split, List.getLast?_append_of_ne_nil _ (List.cons_ne_nil _ _)] at listed
  exact Block.end_flow_of_last listed ends

/-- The place is in the code of the routine, and the last instruction from there on ends the
flow. -/
structure Inside (routine : Routine) (position : Position) : Prop where
  suffix : position.code <:+ routine.instructions
  ends : Instruction.EndFlow position.code

theorem Closed.enter_inside (closed : routine.Closed)
    (entered : routine.enter? label = some place) :
    routine.Inside place := by
  obtain ⟨before, block, after, split, rfl⟩ := Block.split_of_seek entered
  have ends := closed.suffix_ends split
  rw [List.flatMap_cons] at ends
  refine ⟨⟨before.flatMap Block.instructions, ?_⟩, ends⟩
  rw [instructions, split, List.flatMap_append, List.flatMap_cons, Position.code]

theorem Inside.onward (inside : routine.Inside ⟨instruction :: ahead, behind⟩)
    (goes_on : instruction.endsFlow = false) : routine.Inside ⟨ahead, behind⟩ :=
  ⟨(List.suffix_cons _ _).trans inside.suffix, inside.ends.tail goes_on⟩

/-- The machine is in the code of the routine, or has stopped there. -/
def Confined (routine : Routine) : Machine σ → Prop
  | .running position _ => routine.Inside position
  | .stopped ending _ => ending ≠ .ranOff

theorem confined_resume (inside : ∀ position, place = some position → routine.Inside position) :
    routine.Confined (Machine.resume place state) := by
  cases place with
  | none => exact fun same => nomatch same
  | some position => exact inside position rfl

variable (closed : routine.Closed)

include closed

theorem Closed.step_confined (confined : routine.Confined machine) :
    routine.Confined (routine.step semantics machine) := by
  match machine with
  | .stopped ending state => exact confined
  | .running ⟨[], []⟩ state => exact absurd rfl confined.ends.ne_nil
  | .running ⟨[], block :: rest⟩ state => exact ⟨confined.suffix, confined.ends⟩
  | .running ⟨instruction :: ahead, behind⟩ state =>
    simp only [step]
    cases judged : semantics.judge instruction state with
    | stop ending final =>
      rintro rfl
      exact semantics.judge_ne_ran_off instruction state final judged
    | go choice next =>
      have onward : choice ≠ .jump → routine.Inside ⟨ahead, behind⟩ := by
        intro goes_on
        refine Inside.onward confined ?_
        cases ends : instruction.endsFlow with
        | false => rfl
        | true => exact absurd judged (Semantics.ends_flow_judge semantics ends goes_on)
      apply confined_resume
      intro position followed
      cases choice with
      | onward =>
        obtain rfl := Option.some.inj followed
        exact onward Choice.noConfusion
      | jump =>
        obtain ⟨label, -, entered⟩ := Option.bind_eq_some_iff.mp followed
        exact closed.enter_inside entered
      | select key =>
        simp only [follow] at followed
        split at followed
        · obtain ⟨table, -, found⟩ := Option.bind_eq_some_iff.mp followed
          split at found
          · exact closed.enter_inside found
          · obtain rfl := Option.some.inj found
            exact onward Choice.noConfusion
        · cases followed

theorem Closed.entry_inside : routine.Inside routine.entry := by
  obtain ⟨last, listed, ends⟩ := closed.ends
  exact ⟨List.suffix_rfl, Block.end_flow_of_last listed ends⟩

theorem Closed.run_confined (semantics : Semantics σ) (count : Nat) (state : σ) :
    routine.Confined (routine.run semantics count (.running routine.entry state)) := by
  suffices steps : ∀ machine, routine.Confined machine →
      routine.Confined (routine.run semantics count machine) from steps _ closed.entry_inside
  induction count with
  | zero => exact fun _ confined => confined
  | succ count ih => exact fun machine confined => ih _ (closed.step_confined confined)

/-- A closed routine never runs out of its code. -/
theorem Closed.never_runs_off (semantics : Semantics σ) (state final : σ) :
    ¬ routine.Stops semantics state .ranOff final := by
  rintro ⟨count, stopped⟩
  have confined := closed.run_confined semantics count state
  rw [stopped] at confined
  exact confined rfl

/-- Before every step that a closed routine takes, the place is in its code and not behind it. -/
theorem Closed.inside_of_running
    (reached : routine.run semantics count (.running routine.entry state) = .running position now) :
    routine.Inside position := by
  have confined := closed.run_confined semantics count state
  rwa [reached] at confined

end Routine

end TriggerScript
