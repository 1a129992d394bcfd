import TriggerScript.Proofs.Generation.Items

/-!
What a machine gets to.

`Reaches` says that a machine gets from one state to another, `Yields` that it carries out a
computation that may fail: it gets to where the result of the computation says, or faults if there
is none. A count of steps that it takes at least is kept where a loop has to be shown to go on.
-/

namespace TriggerScript

namespace Machine

variable {σ : Type}

/-- A machine with some items ahead of it. -/
def facing (items : List Item) (state : σ) : Machine σ := .running (.ofItems items) state

end Machine

namespace Routine

variable {σ α β : Type} (routine : Routine) (semantics : Semantics σ)

/-- One machine gets to the other, in so many steps at least. -/
def Reaches (least : Nat) (machine other : Machine σ) : Prop :=
  ∃ count, least ≤ count ∧ routine.run semantics count machine = other

/-- The machine still runs after so many steps. -/
def Survives (count : Nat) (machine : Machine σ) : Prop :=
  (routine.run semantics count machine).IsRunning

/-- The machine carries out a computation and gets to where its result says, in so many steps at
least. -/
def Yields (least : Nat) (machine : Machine σ) (outcome : Option α) (target : α → Machine σ) :
    Prop :=
  match outcome with
  | some result => routine.Reaches semantics least machine (target result)
  | none => ∃ final, routine.Reaches semantics 0 machine (.stopped .faulted final)

variable {routine semantics}

theorem Reaches.refl (machine : Machine σ) : routine.Reaches semantics 0 machine machine :=
  ⟨0, Nat.le_refl 0, rfl⟩

theorem Reaches.trans (first : routine.Reaches semantics least machine middle)
    (second : routine.Reaches semantics more middle other) :
    routine.Reaches semantics (least + more) machine other := by
  obtain ⟨count, enough, reached⟩ := first
  obtain ⟨count', enough', reached'⟩ := second
  refine ⟨count + count', by omega, ?_⟩
  rw [run_add, reached, reached']

theorem Reaches.weaken (reaches : routine.Reaches semantics least machine other)
    (fewer : more ≤ least) : routine.Reaches semantics more machine other := by
  obtain ⟨count, enough, reached⟩ := reaches
  exact ⟨count, Nat.le_trans fewer enough, reached⟩

theorem Reaches.one (stepped : routine.step semantics machine = other) :
    routine.Reaches semantics 1 machine other :=
  ⟨1, Nat.le_refl 1, stepped⟩

theorem Survives.of_le (survives : routine.Survives semantics more machine) (fewer : count ≤ more) :
    routine.Survives semantics count machine := by
  unfold Survives at survives ⊢
  cases reached : routine.run semantics count machine with
  | running position state => trivial
  | stopped ending final =>
    rw [run_stopped_of_le reached fewer] at survives
    exact survives

theorem Reaches.survives (reaches : routine.Reaches semantics least machine other)
    (survives : routine.Survives semantics count other) :
    routine.Survives semantics (least + count) machine := by
  obtain ⟨steps, enough, reached⟩ := reaches
  have all : routine.Survives semantics (steps + count) machine := by
    unfold Survives
    rw [run_add, reached]
    exact survives
  exact all.of_le (by omega)

theorem Reaches.yields (reaches : routine.Reaches semantics least machine middle)
    (yields : routine.Yields semantics more middle outcome target) :
    routine.Yields semantics (least + more) machine outcome target := by
  cases outcome with
  | some result => exact reaches.trans yields
  | none =>
    obtain ⟨final, faults⟩ := yields
    exact ⟨final, (reaches.trans faults).weaken (Nat.zero_le _)⟩

theorem Yields.weaken (yields : routine.Yields semantics least machine outcome target)
    (fewer : more ≤ least) : routine.Yields semantics more machine outcome target := by
  cases outcome with
  | some result => exact Reaches.weaken yields fewer
  | none => exact yields

theorem Yields.bind (first : routine.Yields semantics least machine outcome target)
    (second : ∀ result, routine.Yields semantics 0 (target result) (next result) goal) :
    routine.Yields semantics least machine (outcome.bind next) goal := by
  cases outcome with
  | some result => exact Reaches.yields first (second result)
  | none => exact first

theorem Yields.before (first : routine.Yields semantics 0 machine outcome target)
    (second : ∀ result, routine.Yields semantics more (target result) (next result) goal) :
    routine.Yields semantics more machine (outcome.bind next) goal := by
  cases outcome with
  | some result => exact (Reaches.yields first (second result)).weaken (by omega)
  | none => exact first

/-! ### Steps -/

theorem reaches_mark :
    routine.Reaches semantics 1 (.facing (.mark label :: rest) state) (.facing rest state) :=
  .one rfl

theorem reaches_onward (judged : semantics.judge instruction state = .go .onward next) :
    routine.Reaches semantics 1 (.facing (.op instruction :: rest) state) (.facing rest next) := by
  apply Reaches.one
  rw [Machine.facing, step_op, judged]
  rfl

theorem yields_op (judged : semantics.judge instruction state = Semantics.goOn state outcome) :
    routine.Yields semantics 1 (.facing (.op instruction :: rest) state) outcome
      (.facing rest) := by
  cases outcome with
  | some next => exact reaches_onward judged
  | none =>
    refine ⟨state, Reaches.weaken (.one ?_) (Nat.zero_le 1)⟩
    rw [Machine.facing, step_op, judged]
    rfl

theorem reaches_jump (judged : semantics.judge instruction state = .go .jump next)
    (aimed : instruction.target? = some label) :
    routine.Reaches semantics 1 (.facing (.op instruction :: rest) state)
    (.resume (routine.enter? label) next) := by
  apply Reaches.one
  rw [Machine.facing, step_op, judged]
  simp only [follow, aimed, Option.bind_some]

theorem reaches_branch :
    routine.Reaches semantics 1 (.facing (.op (.core .branch (.label label)) :: rest) state)
    (.resume (routine.enter? label) state) := reaches_jump rfl rfl

theorem reaches_stop (judged : semantics.judge instruction state = .stop ending final) :
    routine.Reaches semantics 1 (.facing (.op instruction :: rest) state)
    (.stopped ending final) := by
  apply Reaches.one
  rw [Machine.facing, step_op, judged]

theorem resume_label (distinct : routine.LabelsDistinct)
    (stands : .mark label :: rest <:+ routine.items) :
    Machine.resume (routine.enter? label) state = .facing rest state := by
  obtain ⟨before, split⟩ := stands
  rw [enter_label distinct split.symm]
  rfl

end Routine

end TriggerScript
