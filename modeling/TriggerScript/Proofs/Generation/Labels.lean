import TriggerScript.Proofs.Generation.Shape

/-!
Labels of generated code.

The code of a phrase binds every label that was made for it, and each of them once. Labels are made
in the order of their numbers, so the code binds exactly the numbers of a range, and parts that
stand one behind the other bind ranges that follow each other.
-/

namespace TriggerScript

open List Item

variable {low high : Nat}

namespace Item

variable {items : List Item}

/-- The labels of the items are the numbers of a range, each of them once. -/
def Numbers (low high : Nat) (items : List Item) : Prop :=
  low ≤ high ∧ ∀ id, (ids items).count id = if low ≤ id ∧ id < high then 1 else 0

theorem Numbers.nil (low : Nat) : Numbers low low [] := by
  refine ⟨Nat.le_refl low, fun id => ?_⟩
  rw [if_neg (by omega)]
  rfl

theorem Numbers.append (left : Numbers low mid first) (right : Numbers mid high second) :
    Numbers low high (first ++ second) := by
  obtain ⟨left_le, left_count⟩ := left
  obtain ⟨right_le, right_count⟩ := right
  refine ⟨Nat.le_trans left_le right_le, fun id => ?_⟩
  rw [ids_append, count_append, left_count, right_count]
  split_ifs <;> omega

theorem Numbers.op (numbers : Numbers low high items) (instruction : Instruction) :
    Numbers low high (.op instruction :: items) := numbers

theorem Numbers.mark (numbers : Numbers (low + 1) high items) (name : String) :
    Numbers low high (.mark ⟨low, name⟩ :: items) := by
  obtain ⟨le, count⟩ := numbers
  refine ⟨by omega, fun id => ?_⟩
  simp only [ids_mark, count_cons, count, beq_iff_eq]
  split_ifs <;> omega

/-- Labels that were made before the others may be bound anywhere among them. -/
theorem Numbers.among (numbers : Numbers (low + made) high rest)
    (count : ∀ id, (ids items).count id = (range' low made).count id + (ids rest).count id) :
    Numbers low high items := by
  obtain ⟨le, others⟩ := numbers
  refine ⟨by omega, fun id => ?_⟩
  rw [count, others, Nodup.count (nodup_range' ..)]
  simp only [mem_range'_1]
  split_ifs <;> omega

theorem Numbers.nodup (numbers : Numbers low high items) : (ids items).Nodup := by
  rw [nodup_iff_count_le_one]
  intro id
  rw [numbers.2 id]
  split_ifs <;> omega

@[simp] theorem ids_leaving (target : Label) (code : List Item) :
    ids (leaving target code) = [] := by
  unfold leaving
  split <;> rfl

end Item

theorem Laid.numbers (laid : Laid instructions low high code) : Numbers low high code := by
  induction laid with
  | nil => exact .nil _
  | here _ ih => exact ih.op _
  | apart _ ih => exact (ih.op _).mark _

theorem Coded.numbers (coded : Coded linkage tables locals phrase low high code) :
    Numbers low high code := by
  induction coded with
  | apply _ _ placed ih | tested _ _ placed ih | compared _ _ placed ih | «return» _ placed ih
  | declare _ _ _ placed ih | declareArray _ placed ih | assignElement _ placed ih
  | assign _ _ placed ih
  | discarded _ _ placed ih => exact ih.append placed.numbers
  | calculation _ ih => exact ih
  | hook _ number _ placed ih => exact (number.numbers.append ih).append placed.numbers
  | noValues | noStmts | noArms => exact .nil _
  | someValues _ _ ih ih' | someStmts _ _ ih ih' => exact ih.append ih'
  | block _ ih => exact ih
  | continueLoop placed | breakLoop placed | declareDefault _ _ _ placed => exact placed.numbers
  -- Where labels are made before the parts and bound between or behind them, they are counted.
  | decided _ _ ih =>
    refine ih.among fun id => ?_
    simp +arith [count_cons, range']
  | either _ _ ih ih' | both _ _ ih ih' | ifThen _ _ ih ih' | whileLoop _ _ ih ih'
  | someArms _ _ ih ih' =>
    refine (ih.append ih').among fun id => ?_
    simp +arith [count_cons, range']
  | ifElse _ _ _ ih ih' other =>
    refine (ih.append (ih'.append other)).among fun id => ?_
    simp +arith [count_cons, range']
  | switch _ chooses skips _ _ ih ih' =>
    rw [← append_assoc]
    refine (ih.append chooses.numbers).append ((skips.numbers.append ih').among fun id => ?_)
    simp +arith [count_cons, range']
  | switchDefault _ chooses skips _ _ _ ih ih' other =>
    rw [← append_assoc]
    refine (ih.append chooses.numbers).append
      ((skips.numbers.append (ih'.append other)).among fun id => ?_)
    simp +arith [count_cons, range']

end TriggerScript
