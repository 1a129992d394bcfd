import Mathlib
import TriggerScript.Script.Tree

/-!
Parts of trees.

A property holds throughout a tree if it holds of the root and throughout the parts of the root. For
expressions the parts are their operands, for statements the statements inside them.
-/

namespace TriggerScript

/-- The property holds of a tree and of everything inside it. -/
inductive Throughout {α : Type} (parts : α → List α) (holds : α → Prop) : α → Prop where
  | intro {tree : α} (here : holds tree)
      (within : ∀ part ∈ parts tree, Throughout parts holds part) : Throughout parts holds tree

namespace Throughout

variable {α : Type} {parts : α → List α} {holds other : α → Prop} {tree : α}

theorem here (throughout : Throughout parts holds tree) : holds tree := by
  cases throughout with
  | intro here _ => exact here

theorem within (throughout : Throughout parts holds tree) :
    ∀ part ∈ parts tree, Throughout parts holds part := by
  cases throughout with
  | intro _ within => exact within

theorem leaf (here : holds tree) (empty : parts tree = []) : Throughout parts holds tree := by
  refine .intro here fun part member => ?_
  rw [empty] at member
  cases member

theorem and (left : Throughout parts holds tree) (right : Throughout parts other tree) :
    Throughout parts (fun tree => holds tree ∧ other tree) tree := by
  induction left with
  | intro here _ ih =>
    exact .intro ⟨here, right.here⟩ fun part member => ih part member (right.within part member)

theorem mono (throughout : Throughout parts holds tree) (weaker : ∀ tree, holds tree → other tree) :
    Throughout parts other tree := by
  induction throughout with
  | intro here _ ih => exact .intro (weaker _ here) ih

/-- What holds throughout a tree holds throughout each tree in it. -/
theorem each (throughout : Throughout parts holds tree) :
    Throughout parts (Throughout parts holds) tree := by
  induction throughout with
  | intro here within ih => exact .intro (.intro here within) ih

end Throughout

/-- The expressions directly inside an expression. -/
def Expr.parts : Expr → List Expr
  | .arrayElement _ _ index _ => [index]
  | .command _ _ _ args | .call _ _ _ args | .hook _ _ args => args
  | .concat _ parts => parts
  | .calculation _ inner => [inner]
  | .binary _ _ left right => [left, right]
  | _ => []

theorem Expr.part_smaller {expr part : Expr} (member : part ∈ expr.parts) :
    sizeOf part < sizeOf expr := by
  cases expr <;> simp only [parts, List.mem_cons, List.not_mem_nil, or_false] at member
  case command | call | hook | concat =>
    have smaller := List.sizeOf_lt_of_mem member
    simp
    omega
  case binary =>
    rw [binary.sizeOf_spec]
    rcases member with rfl | rfl <;> omega
  case arrayElement =>
    rw [member, arrayElement.sizeOf_spec]
    omega
  case calculation =>
    rw [member, calculation.sizeOf_spec]
    omega

/-- What holds of an expression whenever it holds of its parts. -/
theorem Expr.of_parts {holds : Expr → Prop}
    (step : ∀ expr, (∀ part ∈ parts expr, holds part) → holds expr) (expr : Expr) : holds expr :=
  step expr fun part _ => of_parts step part
termination_by expr
decreasing_by exact part_smaller ‹_›

/-- The property holds of the expression and of all expressions in it. -/
def Expr.Every (holds : Expr → Prop) (expr : Expr) : Prop := Throughout parts holds expr

def Arm.body : Arm → List Stmt
  | .mk _ _ _ _ body => body

namespace Stmt

/-- The expressions that a statement evaluates itself. The keys of cases are known beforehand. -/
def exprs : Stmt → List Expr
  | .ifThen _ condition _ | .ifElse _ condition _ _ | .whileLoop _ condition _
  | .switch _ _ condition _ _ => [condition]
  | .return _ values => values
  | .declare _ _ _ init _ => init.toList
  | .declareArray _ _ _ size _ => [size]
  | .assign _ targets values => targets ++ values
  | .expr _ value => [value]
  | _ => []

/-- The statements directly inside a statement. -/
def parts : Stmt → List Stmt
  | .block _ _ body => body
  | .ifThen _ _ body | .whileLoop _ _ body => [body]
  | .ifElse _ _ body otherwise => [body, otherwise]
  | .switch _ _ _ arms fallback => (arms ++ fallback.toList).flatMap Arm.body
  | _ => []

/-- One property holds of all statements in a statement, the other of all expressions. -/
def Every (holds : Stmt → Prop) (holdsOf : Expr → Prop) (stmt : Stmt) : Prop :=
  Throughout parts (fun stmt => holds stmt ∧ ∀ expr ∈ stmt.exprs, expr.Every holdsOf) stmt

theorem every_and {holds : Stmt → Prop} {holdsOf others : Expr → Prop} {stmt : Stmt}
    (left : stmt.Every holds holdsOf) (right : stmt.Every (fun _ => True) others) :
    stmt.Every holds fun expr => holdsOf expr ∧ others expr := by
  refine (left.and right).mono fun stmt here => ⟨here.1.1, fun expr member => ?_⟩
  exact (here.1.2 expr member).and (here.2.2 expr member)

end Stmt

def Script.Every (holds : Stmt → Prop) (holdsOf : Expr → Prop) (script : Script) : Prop :=
  ∀ stmt ∈ script.body, stmt.Every holds holdsOf

end TriggerScript
