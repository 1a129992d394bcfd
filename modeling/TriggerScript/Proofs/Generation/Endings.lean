import TriggerScript.Proofs.Generation.Shape

/-!
How bodies end.

Whether the flow has ended behind the code of a body can be seen from its statements: it has if the
last statement that has code is a return or a word that leaves a loop. Only then does the code of a
script not go on with a return of the defaults.
-/

namespace TriggerScript

open Item

variable {code : List Item}

namespace Stmt

mutual

/-- Whether the flow has ended behind the statement, or nothing if the statement has no code. -/
def closes? : Stmt → Option Bool
  | .return _ _ | .continueLoop _ | .breakLoop _ => some true
  | .block _ _ body => closesAll? body
  | .assign _ [] [] => none
  | _ => some false

/-- Whether the flow has ended behind the last of the statements that has code. -/
def closesAll? : List Stmt → Option Bool
  | [] => none
  | stmt :: rest => (closesAll? rest).or stmt.closes?

end

end Stmt

/-- Code that is empty, or behind which the flow has ended or has not. -/
def Item.Ends (code : List Item) (ends : Option Bool) : Prop :=
  match ends with
  | none => code = []
  | some ended => code ≠ [] ∧ Item.endsFlow code = ended

namespace Item

theorem Ends.append (before : Ends first left) (behind : Ends second right) :
    Ends (first ++ second) (right.or left) := by
  cases right with
  | none =>
    obtain rfl : second = [] := behind
    rwa [List.append_nil]
  | some ended =>
    obtain ⟨nonempty, same⟩ := behind
    exact ⟨by simp [nonempty], by rw [ends_flow_append first nonempty, same]⟩

/-- What stands before does not matter. -/
theorem Ends.behind (ends : Ends code (some ended)) (before : List Item) :
    Ends (before ++ code) (some ended) :=
  ⟨by simp [ends.1], by rw [ends_flow_append before ends.1, ends.2]⟩

theorem Ends.cons {ended : Bool} (ends : Ends code (some ended)) (item : Item) :
    Ends (item :: code) (some ended) := ends.behind [item]

theorem ends_mark (label : Label) : Ends [.mark label] (some false) := ⟨nofun, rfl⟩

theorem Ends.flow (ending : Ends code ends) : endsFlow code = true ↔ ends = some true := by
  cases ends with
  | none =>
    obtain rfl : code = [] := ending
    simp [endsFlow]
  | some ended => simp [ending.2]

end Item

theorem Laid.last_eq (laid : Laid (instructions ++ [last]) low high code) :
    ∃ front, code = front ++ [.op last] := by
  induction instructions generalizing low code with
  | nil =>
    cases laid with
    | here later =>
      cases later
      exact ⟨[], rfl⟩
    | apart later =>
      cases later
      exact ⟨[_], rfl⟩
  | cons first rest ih =>
    cases laid with
    | here later =>
      obtain ⟨front, rfl⟩ := ih later
      exact ⟨.op first :: front, rfl⟩
    | apart later =>
      obtain ⟨front, rfl⟩ := ih later
      exact ⟨.mark _ :: .op first :: front, rfl⟩

theorem Laid.ends (laid : Laid (instructions ++ [last]) low high code) :
    Ends code (some last.endsFlow) := by
  obtain ⟨front, rfl⟩ := laid.last_eq
  exact ⟨by simp, ends_flow_append_op front last⟩

theorem Laid.ends_one (laid : Laid [instruction] low high code) :
    Ends code (some instruction.endsFlow) := by
  rw [← List.nil_append [instruction]] at laid
  exact laid.ends

theorem Stack.store_goes_on (stack : Stack) (target : Local) :
    (Instruction.core (.popLocal stack) (.localVar target)).endsFlow = false := by
  cases stack <;> rfl

theorem Value.goes_on (value : Value) : value.instruction.endsFlow = false := by
  cases value <;> rfl

theorem Expr.Applies.goes_on {expr : Expr} (applies : expr.Applies linkage args instruction) :
    instruction.endsFlow = false := by
  cases applies with
  | int | coordgrid | bool | long | text | null | constant | config | emptyHook =>
    exact Value.goes_on _
  | @localVar stack => cases stack <;> rfl
  | @global info => cases info.domain <;> rfl
  | @call _ _ kind => cases kind <;> rfl
  | @arithmetic operator => cases operator <;> rfl
  | arrayElement | bare | command | concat => rfl

theorem Expr.Stores.goes_on {target : Expr} (stores : target.Stores linkage instruction) :
    instruction.endsFlow = false := by
  cases stores with
  | localVar => exact Stack.store_goes_on _ _
  | @global info => cases info.domain <;> rfl

theorem Expr.stores_go_on (stores : List.Forall₂ (Expr.Stores linkage) targets instructions) :
    ∀ instruction ∈ instructions, instruction.endsFlow = false := by
  induction stores with
  | nil => exact fun _ member => nomatch member
  | cons stored _ ih => exact List.forall_mem_cons.mpr ⟨stored.goes_on, ih⟩

/-- How the code of a phrase ends: behind a value the flow goes on, and behind a statement as the
statement says. -/
def Phrase.Ends (code : List Item) : Phrase → Prop
  | .value _ => Item.Ends code (some false)
  | .values exprs => Item.Ends code (exprs.head?.map fun _ => false)
  | .stmt statement _ => Item.Ends code statement.closes?
  | .stmts body _ => Item.Ends code (Stmt.closesAll? body)
  | .truth _ _ _ | .arms _ _ _ _ => True

theorem Laid.ends_on (laid : Laid instructions low high code)
    (goes_on : ∀ instruction ∈ instructions, instruction.endsFlow = false)
    (ends : Ends before ended) :
    Ends (before ++ code) (if instructions.isEmpty then ended else some false) := by
  rcases List.eq_nil_or_concat instructions with rfl | ⟨front, last, rfl⟩
  · cases laid
    rwa [List.append_nil]
  · rw [List.concat_eq_append] at laid goes_on ⊢
    have ends := laid.ends.behind before
    rw [goes_on last (by simp)] at ends
    simpa using ends

theorem Coded.ends (coded : Coded linkage tables locals phrase low high code) :
    phrase.Ends code := by
  induction coded with
  | apply applies _ laid _ =>
    have ends := laid.ends_one.behind
    rw [applies.goes_on] at ends
    exact ends _
  | calculation _ ih => exact ih
  | hook _ _ _ laid =>
    have ends := laid.ends_one.behind
    rw [Value.goes_on] at ends
    exact ends _
  | noValues => rfl
  | @someValues _ _ _ _ rest _ _ _ _ ih ih' =>
    have first : Ends _ (some false) := ih
    have others : Ends _ (rest.head?.map fun _ => false) := ih'
    cases rest with
    | nil => exact first.append others
    | cons => exact others.behind _
  | tested | either | both | compared | noArms | someArms => trivial
  | noStmts => rfl
  | someStmts _ _ ih ih' => exact Ends.append ih ih'
  | block _ ih => exact ih
  | decided => exact ⟨by simp, by simp [endsFlow]⟩
  | ifThen => exact (((ends_mark _).behind _).cons _).behind _
  | ifElse => exact (((((ends_mark _).behind _).cons _).behind _).cons _).behind _
  | whileLoop => exact ((((ends_mark _).behind _).cons _).behind _).cons _
  | switch => exact ((((ends_mark _).behind _).behind _).behind _).behind _
  | switchDefault =>
    exact ((((((ends_mark _).behind _).cons _).behind _).behind _).behind _).behind _
  | continueLoop laid | breakLoop laid => exact laid.ends_one
  | «return» _ laid => exact laid.ends_one.behind _
  | @declare stack _ _ _ _ _ _ _ _ _ _ _ _ _ _ laid =>
    have ends := laid.ends_one.behind
    cases stack <;> exact ends _
  | @declareDefault stack _ _ _ _ _ _ _ _ _ _ _ _ laid =>
    rw [← List.singleton_append] at laid
    have ends := laid.ends
    cases stack <;> exact ends
  | declareArray _ laid | assignElement _ laid => exact laid.ends_one.behind _
  | @assign values _ _ _ instructions _ _ _ targets _ _ stores laid ih =>
    have ends := laid.ends_on (Expr.stores_go_on stores) (show Ends _ _ from ih)
    cases targets with
    | nil =>
      cases stores
      cases values <;> exact ends
    | cons target rest =>
      have some_store : instructions ≠ [] := by
        rintro rfl
        simpa using stores.length_eq
      rwa [if_neg (by simpa using some_store)] at ends
  | @discarded _ _ _ _ homes _ _ _ _ _ _ laid ih =>
    have goes_on : ∀ instruction ∈ homes.map fun stack =>
      Instruction.core (.discard stack) (.int 0),
        instruction.endsFlow = false := by
      intro instruction member
      obtain ⟨stack, -, rfl⟩ := List.mem_map.mp member
      cases stack <;> rfl
    have ends := laid.ends_on goes_on (show Ends _ (some false) from ih)
    rwa [ite_self] at ends

end TriggerScript
