import Mathlib
import TriggerScript.Code.Routine

/-!
Execution of routines.

Control is a place in the code: the instructions still ahead in a block and the blocks behind it. An
instruction lets it go on, jump to the block with a label, or select a block by a key. Which of
these it does, and what it does to the state of the machine, is left to a `Semantics`; only the
pushing of numbers and the arithmetic on the two topmost ones are fixed, with results taken modulo
the size of a word.
-/

namespace TriggerScript

/-- A place in the code of a routine. -/
structure Position where
  /-- The instructions still ahead in the block. -/
  ahead : List Instruction
  behind : List Block

/-- All instructions from a place to the end of the last block. -/
def Position.code (position : Position) : List Instruction :=
  position.ahead ++ position.behind.flatMap Block.instructions

/-- Where an instruction sends control. -/
inductive Choice where
  | onward
  | jump
  | select (key : Int32)
  deriving DecidableEq

/-- The case that holds a key. -/
def SwitchTable.case? (table : SwitchTable) (key : Int32) : Option SwitchCase :=
  table.cases.find? fun entry => entry.keys.contains key

/-- The first block with a label, and the blocks behind it. -/
def Block.seek (id : Nat) : List Block → Option Position
  | [] => none
  | block :: rest => if block.label.id = id then some ⟨block.instructions, rest⟩ else seek id rest

theorem Block.seek_of_distinct
    (distinct : ((before ++ block :: after).map fun block => block.label.id).Nodup) :
    seek block.label.id (before ++ block :: after) = some ⟨block.instructions, after⟩ := by
  induction before with
  | nil => simp [seek]
  | cons first rest ih =>
    simp only [List.cons_append, List.map_cons, List.nodup_cons] at distinct
    have other : first.label.id ≠ block.label.id := by
      intro same
      apply distinct.1
      rw [same]
      exact List.mem_map.mpr ⟨block, by simp, rfl⟩
    simp only [List.cons_append, seek, if_neg other]
    exact ih distinct.2

namespace Routine

/-- The start of the block with a label. -/
def enter? (routine : Routine) (label : Label) : Option Position :=
  Block.seek label.id routine.blocks

/-- Where control goes from an instruction with a place behind it. -/
def follow (routine : Routine) (instruction : Instruction) (next : Position) :
    Choice → Option Position
  | .onward => some next
  | .jump => instruction.target?.bind routine.enter?
  | .select key =>
    match instruction.operand with
    | .switch index =>
      routine.tables[index]?.bind fun table =>
        match table.case? key with
        | some entry => routine.enter? entry.label
        | none => some next
    | _ => none

/-- Labels tell the blocks of the routine apart. -/
def LabelsDistinct (routine : Routine) : Prop :=
  (routine.blocks.map fun block => block.label.id).Nodup

/-- The place before the first block. -/
def entry (routine : Routine) : Position := ⟨[], routine.blocks⟩

end Routine

/-- The arithmetic of words: integers modulo the size of a word. A division rounds toward zero and
has no result if the divisor is zero. -/
def Opcode.arithmetic? (opcode : Opcode) (left right : Int32) : Option Int32 :=
  match opcode with
  | add => some (Int32.ofInt (left.toInt + right.toInt))
  | sub => some (Int32.ofInt (left.toInt - right.toInt))
  | mul => some (Int32.ofInt (left.toInt * right.toInt))
  | div => if right = 0 then none else some (Int32.ofInt (left.toInt.tdiv right.toInt))
  | mod => if right = 0 then none else some (Int32.ofInt (left.toInt.tmod right.toInt))
  | _ => none

/-- How execution ends. -/
inductive Halt where
  | returned
  | faulted
  /-- Control fell out of the last block. -/
  | ranOff
  deriving DecidableEq

/-- What an instruction makes of a state. -/
inductive Verdict (σ : Type) where
  | go (choice : Choice) (state : σ)
  | stop (ending : Halt) (state : σ)

/-- The meaning of instructions over states that hold a stack of numbers. -/
structure Semantics (σ : Type) where
  push : Int32 → σ → σ
  pop : σ → Option (Int32 × σ)
  pop_push : ∀ value state, pop (push value state) = some (value, state)
  /-- Whether a conditional jump is taken. -/
  test : Opcode → σ → Option (Bool × σ)
  /-- Everything that is neither arithmetic nor the push of a number nor directs control. -/
  perform : Instruction → σ → Option σ

namespace Semantics

variable {σ : Type} (semantics : Semantics σ)

/-- Replace the two topmost numbers by the result of an arithmetic instruction. -/
def compute (opcode : Opcode) (state : σ) : Option σ := do
  let (right, below) ← semantics.pop state
  let (left, rest) ← semantics.pop below
  let value ← opcode.arithmetic? left right
  return semantics.push value rest

/-- The effect of an instruction that only goes on. -/
def effect (instruction : Instruction) (state : σ) : Option σ :=
  match instruction.pushed? with
  | some value => some (semantics.push value state)
  | none =>
    match instruction.operation with
    | .core opcode =>
      if opcode.isArithmetic then semantics.compute opcode state
      else semantics.perform instruction state
    | .command _ _ => semantics.perform instruction state

/-- Go on with what an instruction made of a state, if it made something of it. -/
def goOn (state : σ) (outcome : Option σ) : Verdict σ :=
  match outcome with
  | some behind => .go .onward behind
  | none => .stop .faulted state

/-- What an instruction does. -/
def judge (instruction : Instruction) (state : σ) : Verdict σ :=
  match instruction.operation with
  | .core .branch => .go .jump state
  | .core .returnFlow => .stop .returned state
  | .core .switch =>
    match semantics.pop state with
    | some (key, behind) => .go (.select key) behind
    | none => .stop .faulted state
  | .core opcode =>
    if opcode.isBranch then
      match semantics.test opcode state with
      | some (taken, behind) => .go (if taken then .jump else .onward) behind
      | none => .stop .faulted state
    else goOn state (semantics.effect instruction state)
  | .command _ _ => goOn state (semantics.effect instruction state)

end Semantics

/-- A machine in the middle of a routine, or stopped. -/
inductive Machine (σ : Type) where
  | running (position : Position) (state : σ)
  | stopped (ending : Halt) (state : σ)

namespace Machine

variable {σ : Type}

/-- Run on from a place, if there is one. -/
def resume (place : Option Position) (state : σ) : Machine σ :=
  match place with
  | some position => .running position state
  | none => .stopped .faulted state

/-- The machine has not stopped. -/
def IsRunning : Machine σ → Prop
  | .running _ _ => True
  | .stopped _ _ => False

end Machine

namespace Routine

variable {σ : Type} (routine : Routine) (semantics : Semantics σ)

/-- One step of a machine. A stopped machine stays as it is. -/
def step : Machine σ → Machine σ
  | .stopped ending state => .stopped ending state
  | .running ⟨[], []⟩ state => .stopped .ranOff state
  | .running ⟨[], block :: rest⟩ state => .running ⟨block.instructions, rest⟩ state
  | .running ⟨instruction :: ahead, behind⟩ state =>
    match semantics.judge instruction state with
    | .stop ending final => .stopped ending final
    | .go choice next => .resume (routine.follow instruction ⟨ahead, behind⟩ choice) next

/-- So many steps of a machine. -/
def run : Nat → Machine σ → Machine σ
  | 0, machine => machine
  | count + 1, machine => run count (routine.step semantics machine)

/-- A machine put before the first block stops. -/
def Stops (state : σ) (ending : Halt) (final : σ) : Prop :=
  ∃ count, routine.run semantics count (.running routine.entry state) = .stopped ending final

/-- A machine put before the first block never stops. -/
def RunsForever (state : σ) : Prop :=
  ∀ count, (routine.run semantics count (.running routine.entry state)).IsRunning

/-! ### Runs -/

variable {routine semantics}

@[simp] theorem run_zero (machine : Machine σ) : routine.run semantics 0 machine = machine := rfl

theorem run_succ (count : Nat) (machine : Machine σ) : routine.run semantics (count + 1) machine =
      routine.run semantics count (routine.step semantics machine) := rfl

theorem run_add (first second : Nat) (machine : Machine σ) :
    routine.run semantics (first + second) machine =
      routine.run semantics second (routine.run semantics first machine) := by
  induction first generalizing machine with
  | zero => rw [Nat.zero_add, run_zero]
  | succ first ih => rw [Nat.succ_add, run_succ, run_succ, ih]

@[simp] theorem run_stopped (count : Nat) (ending : Halt) (state : σ) :
    routine.run semantics count (.stopped ending state) = .stopped ending state := by
  induction count with
  | zero => rfl
  | succ count ih => exact ih

theorem run_stopped_of_le (stopped : routine.run semantics first machine = .stopped ending final)
    (later : first ≤ second) : routine.run semantics second machine = .stopped ending final := by
  obtain ⟨more, rfl⟩ := Nat.exists_eq_add_of_le later
  rw [run_add, stopped, run_stopped]

/-- A machine stops in one way only. -/
theorem stopped_unique (stopped : routine.run semantics first machine = .stopped ending final)
    (again : routine.run semantics second machine = .stopped other last) :
    ending = other ∧ final = last := by
  have early := run_stopped_of_le stopped (Nat.le_add_right first second)
  have late := run_stopped_of_le again (Nat.le_add_left second first)
  rw [early] at late
  exact Machine.stopped.inj late

/-- A machine runs forever unless it stops. -/
theorem runs_forever_iff (state : σ) : routine.RunsForever semantics state ↔
      ∀ ending final, ¬ routine.Stops semantics state ending final := by
  constructor
  · intro forever ending final stops
    obtain ⟨count, stopped⟩ := stops
    have running := forever count
    rw [stopped] at running
    exact running
  · intro never count
    cases reached : routine.run semantics count (.running routine.entry state) with
    | running position state => trivial
    | stopped ending final => exact never ending final ⟨count, reached⟩

end Routine

end TriggerScript
