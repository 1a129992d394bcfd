import TriggerScript.Code.Generation
import TriggerScript.Proofs.Optimization.Blocks

/-!
What constant folding leaves.

Behind every instruction the list is settled: nothing in it can be folded (`settled_fold_onto`). A
fold puts a push in the place of the latest instructions, and a push is no arithmetic, so that
nothing earlier comes into reach. Hence one run folds everything. The code of a calculation with
literals folds to the push of its value, unless something is divided by zero in it: there an
instruction stays that pushes no number.
-/

namespace TriggerScript

open List Instruction

variable {instruction left right : Instruction}

namespace Instruction

/-- The instruction computes nothing. -/
def Plain (instruction : Instruction) : Prop :=
  ∀ opcode, instruction.operation = .core opcode → opcode.isArithmetic = false

theorem Plain.folded_eq (plain : instruction.Plain) (left right : Instruction) :
    instruction.folded? left right = none := by
  cases folded : instruction.folded? left right with
  | none => rfl
  | some value =>
    obtain ⟨opcode, _, _, operation, _, _, computed⟩ := folded_cases folded
    have arithmetic := Opcode.is_arithmetic_of_fold computed
    rw [plain opcode operation] at arithmetic
    cases arithmetic

theorem folded_eq_none (missing : left.pushed? = none ∨ right.pushed? = none) :
    instruction.folded? left right = none := by
  cases folded : instruction.folded? left right with
  | none => rfl
  | some value =>
    obtain ⟨_, _, _, _, left_pushes, right_pushes, _⟩ := folded_cases folded
    rw [left_pushes, right_pushes] at missing
    rcases missing with missing | missing <;> cases missing

end Instruction

namespace Block

/-- Instructions folded so far, the latest first, and how many folds there were. -/
abbrev Folded := List Instruction × Nat

variable {before : Folded} {instructions : List Instruction}

theorem fold_onto_cases (before : Folded) (instruction : Instruction) :
    (∃ left right rest value, before.1 = right :: left :: rest ∧
      instruction.folded? left right = some value ∧
      foldOnto before instruction = (.core .pushIntConstant (.int value) :: rest, before.2 + 1)) ∨
    ∀ count, foldOnto (before.1, count) instruction = (instruction :: before.1, count) := by
  obtain ⟨others, count⟩ := before
  match others with
  | [] => exact .inr fun _ => rfl
  | [_] => exact .inr fun _ => rfl
  | right :: left :: rest =>
    cases folded : instruction.folded? left right with
    | some value =>
      exact .inl ⟨left, right, rest, value, rfl, folded, by simp only [foldOnto, folded]⟩
    | none => exact .inr fun count => by simp only [foldOnto, folded]

theorem fold_onto_plain (plain : instruction.Plain) (before : Folded) :
    foldOnto before instruction = (instruction :: before.1, before.2) := by
  rcases fold_onto_cases before instruction with ⟨left, right, _, _, _, folded, _⟩ | kept
  · rw [plain.folded_eq] at folded
    cases folded
  · exact kept before.2

/-- None of the instructions, the latest of which stands first, folds onto those before it. -/
def Settled : List Instruction → Prop
  | [] => True
  | instruction :: rest =>
    (∀ count, foldOnto (rest, count) instruction = (instruction :: rest, count)) ∧ Settled rest

theorem plain_push (value : Int32) : (Instruction.core .pushIntConstant (.int value)).Plain := by
  intro opcode operation
  cases operation
  rfl

theorem settled_fold_onto (settled : Settled before.1) (instruction : Instruction) :
    Settled (foldOnto before instruction).1 := by
  rcases fold_onto_cases before instruction with ⟨left, right, rest, value, same, _, folded⟩ | kept
  · rw [same] at settled
    rw [folded]
    exact ⟨fun count => fold_onto_plain (plain_push value) (rest, count), settled.2.2⟩
  · have here : foldOnto before instruction = _ := kept before.2
    rw [here]
    exact ⟨kept, settled⟩

theorem settled_foldl (settled : Settled before.1) (instructions : List Instruction) :
    Settled (instructions.foldl foldOnto before).1 := by
  induction instructions generalizing before with
  | nil => exact settled
  | cons instruction rest ih => exact ih (settled_fold_onto settled instruction)

theorem foldl_settled (settled : Settled instructions) :
    instructions.reverse.foldl foldOnto ([], 0) = (instructions, 0) := by
  induction instructions with
  | nil => rfl
  | cons instruction rest ih =>
    rw [reverse_cons, foldl_append, ih settled.2]
    exact settled.1 0

theorem Settled.of_append {later earlier : List Instruction}
    (settled : Settled (later ++ earlier)) :
    Settled earlier := by
  induction later with
  | nil => exact settled
  | cons _ later ih => exact ih settled.2

theorem Settled.folded_eq_none {latest : List Instruction} (settled : Settled latest)
    (inside : [instruction, right, left] <:+: latest) : instruction.folded? left right = none := by
  obtain ⟨later, earlier, rfl⟩ := inside
  rw [append_assoc] at settled
  have kept := settled.of_append.1 0
  cases folds : instruction.folded? left right with
  | none => rfl
  | some value => simp [foldOnto, folds] at kept

theorem length_foldl (before : Folded) (instructions : List Instruction) :
    (instructions.foldl foldOnto before).1.length + 2 * (instructions.foldl foldOnto before).2 =
      before.1.length + 2 * before.2 + instructions.length := by
  induction instructions generalizing before with
  | nil => rfl
  | cons instruction rest ih =>
    rw [foldl_cons, ih, length_cons]
    rcases fold_onto_cases before instruction with ⟨left, right, others, value, latest, -,
      folded⟩ | kept
    · simp only [folded, latest, length_cons]
      omega
    · rw [show foldOnto before instruction = _ from kept before.2, length_cons]
      omega

end Block

/-- Neither the push of a number nor arithmetic. -/
def Instruction.isFixed (instruction : Instruction) : Bool :=
  instruction.pushed?.isNone &&
    match instruction.operation with
    | .core opcode => !opcode.isArithmetic
    | .command _ _ => true

namespace Block

theorem filter_foldl (before : Folded) (instructions : List Instruction) :
    (instructions.foldl foldOnto before).1.filter isFixed =
      instructions.reverse.filter isFixed ++ before.1.filter isFixed := by
  induction instructions generalizing before with
  | nil => rfl
  | cons instruction rest ih =>
    rw [foldl_cons, ih, reverse_cons, filter_append, append_assoc]
    congr 1
    rw [← filter_append, singleton_append]
    rcases fold_onto_cases before instruction with ⟨left, right, others, value, latest, folds,
      folded⟩ | kept
    · obtain ⟨opcode, _, _, operation, pushes, pushes', computed⟩ := folded_cases folds
      have computes : instruction.isFixed = false := by
        simp [isFixed, operation, Opcode.is_arithmetic_of_fold computed]
      rw [folded, latest, filter_cons_of_neg (by simp [isFixed, pushed?, core]),
        filter_cons_of_neg (by simp [computes]), filter_cons_of_neg (by simp [isFixed, pushes']),
        filter_cons_of_neg (by simp [isFixed, pushes])]
    · rw [show foldOnto before instruction = _ from kept before.2]

/-- One run folds all that can be folded, takes away two instructions for each change and leaves
every instruction alone that is neither the push of a number nor arithmetic. -/
theorem fold_constants_normal (instructions : List Instruction) :
    (¬∃ left right value opcode operand,
      [.core .pushIntConstant (.int left), .core .pushIntConstant (.int right),
        .core opcode operand] <:+:
        (foldConstants instructions).1 ∧ opcode.fold? left right = some value) ∧
    foldConstants (foldConstants instructions).1 = ((foldConstants instructions).1, 0) ∧
    (foldConstants instructions).1.length + 2 * (foldConstants instructions).2 =
      instructions.length ∧
    (foldConstants instructions).1.filter isFixed = instructions.filter isFixed := by
  have settled : Settled (instructions.foldl foldOnto ([], 0)).1 :=
    settled_foldl (show Settled [] from trivial) instructions
  refine ⟨?_, ?_, ?_, ?_⟩
  · rintro ⟨left, right, value, opcode, operand, inside, folds⟩
    rw [foldConstants, ← reverse_infix, reverse_reverse] at inside
    have stays : opcode.fold? left right = none := settled.folded_eq_none inside
    cases stays.symm.trans folds
  · simp only [foldConstants, foldl_settled settled]
  · have counted := length_foldl ([], 0) instructions
    simpa [foldConstants] using counted
  · have kept := filter_foldl ([], 0) instructions
    rw [foldConstants, filter_reverse, kept]
    simp

end Block

/-! ### Numbers that are left -/

namespace Block

variable {before : Folded} {opcode : Opcode} {value : Int32}

/-- The number that an instruction behind would find. -/
def Folded.top? (folded : Folded) : Option Int32 := folded.1.head?.bind Instruction.pushed?

/-- Between the two the code left a number and nothing else, or it did not leave a number last. -/
def Folded.Leaves (before after : Folded) : Option Int32 → Prop
  | some value => after.1 = .core .pushIntConstant (.int value) :: before.1
  | none => after.top? = none

theorem fold_onto_no_number (missing : before.top? = none) (instruction : Instruction) :
    foldOnto before instruction = (instruction :: before.1, before.2) := by
  rcases fold_onto_cases before instruction with ⟨left, right, rest, value, same, folded, _⟩ | kept
  · have pushes : right.pushed? = none := by simpa [Folded.top?, same] using missing
    rw [Instruction.folded_eq_none (.inr pushes)] at folded
    cases folded
  · exact kept before.2

/-- What arithmetic makes of the numbers that are left for it. -/
def computed? (opcode : Opcode) : Option Int32 → Option Int32 → Option Int32
  | some left, some right => opcode.fold? left right
  | _, _ => none

theorem fold_onto_operands {middle last : Folded} {left right : Option Int32}
    (left_leaves : before.Leaves middle left) (right_leaves : middle.Leaves last right)
    (operand : Operand) :
    foldOnto last (.core opcode operand) = match computed? opcode left right with
      | some value => (.core .pushIntConstant (.int value) :: before.1, last.2 + 1)
      | none => (.core opcode operand :: last.1, last.2) := by
  cases right with
  | none =>
    rw [fold_onto_no_number right_leaves]
    cases left <;> rfl
  | some second =>
    obtain ⟨others, count⟩ := last
    obtain rfl : others = _ := right_leaves
    cases left with
    | none =>
      obtain ⟨others, _⟩ := middle
      cases others with
      | nil => rfl
      | cons instruction rest =>
        have missing : instruction.pushed? = none := left_leaves
        simp only [foldOnto, Instruction.folded_eq_none (.inl missing), computed?]
    | some first =>
      obtain ⟨others, _⟩ := middle
      obtain rfl : others = _ := left_leaves
      rfl

theorem Folded.Leaves.compute {middle last : Folded} {left right : Option Int32}
    (left_leaves : before.Leaves middle left) (right_leaves : middle.Leaves last right)
    (arithmetic : opcode.isArithmetic = true) (operand : Operand) :
    before.Leaves (foldOnto last (.core opcode operand)) (computed? opcode left right) := by
  rw [fold_onto_operands left_leaves right_leaves]
  cases computed? opcode left right with
  | some value => rfl
  | none =>
    refine pushed_eq_none rfl ?_
    rintro rfl
    cases arithmetic

end Block

/-! ### Calculations with literals -/

/-- The value of an operation on words: that of the integers, modulo the size of a word. A division
rounds toward zero, and a remainder has the sign of the dividend. -/
def Operator.word (operator : Operator) (left right : Int32) : Int32 :=
  Int32.ofInt <| match operator with
    | sub => left.toInt - right.toInt
    | mul => left.toInt * right.toInt
    | div => left.toInt.tdiv right.toInt
    | mod => left.toInt.tmod right.toInt
    | _ => left.toInt + right.toInt

namespace Expr

/-- A calculation whose operands are literals. -/
inductive Literal : Expr → Prop where
  | int (note : Note) (value : Int32) : Literal (.int note value)
  | calculation (note : Note) {inner : Expr} (literal : Literal inner) :
      Literal (.calculation note inner)
  | binary (note : Note) {operator : Operator} {left right : Expr}
      (arithmetic : operator.isArithmetic = true)
      (first : Literal left) (second : Literal right) : Literal (.binary note operator left right)

/-- The value of a calculation from the bottom up. -/
def word : Expr → Int32
  | .int _ value => value
  | .calculation _ inner => inner.word
  | .binary _ operator left right => operator.word left.word right.word
  | _ => 0

/-- Some divisor of a calculation is zero. -/
def DividesByZero : Expr → Prop
  | .calculation _ inner => inner.DividesByZero
  | .binary _ operator left right =>
    left.DividesByZero ∨ right.DividesByZero ∨ (operator = .div ∨ operator = .mod) ∧ right.word = 0
  | _ => False

end Expr

theorem Operator.fold_eq_word {operator : Operator} (arithmetic : operator.isArithmetic = true)
    (left right : Int32) :
    operator.arithmeticOpcode.fold? left right =
      if (operator = .div ∨ operator = .mod) ∧
      right = 0 then none else some (operator.word left right) := by
  rw [Opcode.fold_eq_arithmetic]
  cases operator with
  | add | sub | mul => rfl
  | div | mod => simp [arithmeticOpcode, Opcode.arithmetic?, word]
  | _ => cases arithmetic

namespace Expr

theorem Literal.emits (linkage : Linkage) {expr : Expr} (literal : expr.Literal) :
    ∃ (code : List Instruction) (left : Option Int32),
      (∀ emission, (expr.emit linkage .value).run emission =
        .ok ((), code.foldl Emission.add emission)) ∧
      (∀ before : Block.Folded, before.Leaves (code.foldl Block.foldOnto before) left) ∧
      (left = none ↔ expr.DividesByZero) ∧ ∀ value ∈ left, value = expr.word := by
  induction literal with
  | int note value =>
    refine ⟨[.core .pushIntConstant (.int value)], some value, fun _ => rfl, fun before => ?_,
      by simp [DividesByZero], by simp [word]⟩
    exact congrArg Prod.fst (Block.fold_onto_plain (Block.plain_push value) before)
  | calculation note literal ih => exact ih
  | @binary note operator left right arithmetic first second ih ih' =>
    obtain ⟨code, number, emitted, leaves, broken, sound⟩ := ih
    obtain ⟨code', number', emitted', leaves', broken', sound'⟩ := ih'
    refine ⟨code ++ code' ++ [.core operator.arithmeticOpcode (.int 0)],
      Block.computed? operator.arithmeticOpcode number number', fun emission => ?_, fun before =>
        ?_, ?_⟩
    · rw [emit, if_pos arithmetic, foldl_append, foldl_append]
      simp only [deliver, StateT.run_bind, emitted, emitted']
      rfl
    · rw [foldl_append, foldl_append]
      refine (leaves before).compute (leaves' _) ?_ _
      cases operator <;> rfl
    · rw [DividesByZero, ← broken, ← broken', word]
      cases number with
      | none => simp [Block.computed?]
      | some value =>
        cases number' with
        | none => simp [Block.computed?]
        | some value' =>
          rw [Block.computed?, Operator.fold_eq_word arithmetic, sound value rfl, sound' value' rfl]
          split
          · rename_i zero
            exact ⟨iff_of_true rfl (.inr (.inr zero)), by simp⟩
          · rename_i fine
            exact ⟨by simpa using fine, by simp⟩

/-- The code of a calculation with literals folds to the push of its value exactly if no divisor is
zero. -/
theorem emit_literal_folds (linkage : Linkage) {expr : Expr} (literal : expr.Literal) :
    ∃ code : List Instruction,
      (∀ emission, (expr.emit linkage .value).run emission =
        .ok ((), code.foldl Emission.add emission)) ∧
      ∀ value, (Block.foldConstants code).1 = [.core .pushIntConstant (.int value)] ↔
        ¬expr.DividesByZero ∧ value = expr.word := by
  obtain ⟨code, left, emitted, leaves, broken, sound⟩ := literal.emits linkage
  refine ⟨code, emitted, fun value => ?_⟩
  have folds := leaves ([], 0)
  rw [Block.foldConstants, reverse_eq_iff, ← broken]
  cases left with
  | none =>
    refine ⟨fun single => ?_, fun fine => absurd rfl fine.1⟩
    cases folds.symm.trans (congrArg (fun latest => latest.head?.bind pushed?) single)
  | some number =>
    rw [← sound number rfl, show (code.foldl Block.foldOnto ([], 0)).1 = _ from folds]
    simp [Instruction.core, eq_comm]

/-- The least word divided by minus one wraps around, and a remainder by zero deep inside stays. -/
theorem emit_literal_folds_wrapping : let note : Note := ⟨Span.empty, .undefined⟩
    let wrapped : Expr := .binary note .div (.int note Int32.minValue) (.int note (-1))
    let broken : Expr := .binary note .mul (.binary note .mod (.int note 7) (.int note 0))
      (.int note 2)
    (∃ code : List Instruction,
      (∀ emission, (wrapped.emit ⟨.empty, .builtin⟩ .value).run emission =
        .ok ((), code.foldl Emission.add emission)) ∧
      (Block.foldConstants code).1 = [.core .pushIntConstant (.int Int32.minValue)]) ∧
    ∃ code : List Instruction,
      (∀ emission, (broken.emit ⟨.empty, .builtin⟩ .value).run emission =
        .ok ((), code.foldl Emission.add emission)) ∧
      ∀ value, (Block.foldConstants code).1 ≠ [.core .pushIntConstant (.int value)] := by
  intro note wrapped broken
  have literal : wrapped.Literal := .binary _ rfl (.int ..) (.int ..)
  have literal' : broken.Literal := .binary _ rfl (.binary _ rfl (.int ..) (.int ..)) (.int ..)
  obtain ⟨code, emitted, folds⟩ := emit_literal_folds ⟨.empty, .builtin⟩ literal
  obtain ⟨code', emitted', folds'⟩ := emit_literal_folds ⟨.empty, .builtin⟩ literal'
  refine ⟨⟨code, emitted, (folds _).mpr ⟨?_, by decide⟩⟩, code', emitted',
    fun value => (folds' value).not.mpr ?_⟩
  · simp [wrapped, DividesByZero, word]
  · simp [broken, DividesByZero, word]

end Expr

end TriggerScript
