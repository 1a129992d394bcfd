import TriggerScript.Proofs.Execution.Basic

/-!
Routines that run alike.

Two machines that pass through related configurations, each taking at least one step from one to the
next, stop in the same way or not at all. One machine may do in one step what takes the other
several.
-/

namespace TriggerScript

namespace Machine

variable {σ : Type} {places : Position → Position → Prop}

/-- Machines with the same state at related places, or stopped in the same way. -/
inductive Related (places : Position → Position → Prop) : Machine σ → Machine σ → Prop where
  | running {left right : Position} (related : places left right) (state : σ) :
      Related places (.running left state) (.running right state)
  | stopped (ending : Halt) (state : σ) :
      Related places (.stopped ending state) (.stopped ending state)

theorem resume_related (related : Option.Rel places left right) (state : σ) :
    Related places (resume left state) (resume right state) := by
  cases related with
  | none => exact .stopped .faulted state
  | some related => exact .running related state

end Machine

namespace Routine

variable {σ : Type} {first second : Routine} {semantics : Semantics σ}
  {related : Machine σ → Machine σ → Prop}

/-- From related configurations both machines come to related ones again, or have stopped alike. -/
def Progresses (first second : Routine) (semantics : Semantics σ)
    (related : Machine σ → Machine σ → Prop) : Prop :=
  ∀ left right, related left right →
    (∃ ending state, left = .stopped ending state ∧ right = .stopped ending state) ∨
    (left.IsRunning ∧ right.IsRunning ∧
      ∃ m n, related (first.run semantics (m + 1) left) (second.run semantics (n + 1) right))

/-- The label is the target of the instruction or of a case in a table. -/
def IsTarget (routine : Routine) (instruction : Instruction) (label : Label) : Prop :=
  instruction.target? = some label ∨
    ∃ table ∈ routine.tables, ∃ entry ∈ table.cases, entry.label = label

/-- An instruction sends both machines to related places, if it does so by each of its targets. -/
theorem follow_related (tables : first.tables = second.tables)
    (targets : ∀ label, first.IsTarget instruction label →
      Option.Rel places (first.enter? label) (second.enter? label))
    (onward : choice ≠ .jump → places left right) :
    Option.Rel places (first.follow instruction left choice)
    (second.follow instruction right choice) := by
  cases choice with
  | onward => exact .some (onward (by simp))
  | jump =>
    simp only [follow]
    cases target : instruction.target? with
    | none => exact .none
    | some label => exact targets label (.inl target)
  | select key =>
    simp only [follow, ← tables]
    split
    · rename_i index _
      cases found : first.tables[index]? with
      | none => exact .none
      | some table =>
        simp only [Option.bind_some]
        split
        · rename_i entry matched
          apply targets
          right
          exact ⟨table, List.mem_of_getElem? found, entry, List.mem_of_find?_eq_some matched, rfl⟩
        · exact .some (onward (by simp))
    · exact .none

theorem Progresses.symm (progress : Progresses first second semantics related) :
    Progresses second first semantics fun right left => related left right := by
  intro right left relation
  rcases progress left right relation with ⟨ending, state, rfl, rfl⟩ | ⟨runs, follows, m, n, next⟩
  · exact .inl ⟨ending, state, rfl, rfl⟩
  · exact .inr ⟨follows, runs, n, m, next⟩

theorem Progresses.stops (progress : Progresses first second semantics related) (count : Nat)
    (relation : related left right)
    (stopped : first.run semantics count left = .stopped ending final) :
    ∃ other, second.run semantics other right = .stopped ending final := by
  -- The first machine is nearer to its end at each pair of related configurations.
  induction count using Nat.strongRecOn generalizing left right with
  | ind count ih =>
    rcases progress left right relation with ⟨_, _, rfl, rfl⟩ | ⟨runs, _, m, n, next⟩
    · rw [run_stopped] at stopped
      exact ⟨0, stopped⟩
    · have positive : 0 < count := by
        rcases Nat.eq_zero_or_pos count with rfl | positive
        · rw [run_zero] at stopped
          rw [stopped] at runs
          exact runs.elim
        · exact positive
      have closer : first.run semantics (count - (m + 1)) (first.run semantics (m + 1) left) =
          .stopped ending final := by
        rw [← run_add]
        exact run_stopped_of_le stopped (by omega)
      obtain ⟨other, reached⟩ := ih (count - (m + 1)) (by omega) next closer
      exact ⟨n + 1 + other, by rw [run_add, reached]⟩

/-- The two routines run alike from every state. -/
def RunsLike (first second : Routine) (semantics : Semantics σ) : Prop :=
  ∀ state ending final,
    first.Stops semantics state ending final ↔ second.Stops semantics state ending final

theorem RunsLike.refl (routine : Routine) (semantics : Semantics σ) :
    routine.RunsLike routine semantics := fun _ _ _ => Iff.rfl

theorem RunsLike.trans (left : first.RunsLike second semantics)
    (right : second.RunsLike third semantics) : first.RunsLike third semantics :=
  fun state ending final => (left state ending final).trans (right state ending final)

theorem runs_like_of_progress (progress : Progresses first second semantics related)
    (entries : ∀ state, related (.running first.entry state) (.running second.entry state)) :
    first.RunsLike second semantics := by
  intro state ending final
  constructor
  · rintro ⟨count, stopped⟩
    exact progress.stops count (entries state) stopped
  · rintro ⟨count, stopped⟩
    exact progress.symm.stops count (entries state) stopped

theorem RunsLike.runs_forever (alike : first.RunsLike second semantics) (state : σ) :
    first.RunsForever semantics state ↔ second.RunsForever semantics state := by
  simp only [runs_forever_iff, alike state]

end Routine

end TriggerScript
