import TriggerScript.Script.Operator
import TriggerScript.Text.Span
import TriggerScript.Value.Ty

/-!
Syntax trees of scripts.

The reader builds a tree without types and resolutions; the checker fills in the type of every
expression, the variable a name stands for, the slot of an array and the values of case keys.
-/

namespace TriggerScript

structure Ident where
  text : String
  span : Span
  deriving DecidableEq, Inhabited

/-- A local variable. Two variables of equal name and type are told apart by their numbers. -/
structure Local where
  id : Nat
  name : String
  prim : Prim
  deriving DecidableEq, Inhabited

/-- What every expression carries: its place and its type. -/
structure Note where
  span : Span
  ty : Ty
  deriving DecidableEq, Inhabited

def Note.ofSpan (span : Span) : Note := ⟨span, Ty.undefined⟩

inductive Expr where
  | int (note : Note) (value : Int32)
  | long (note : Note) (value : Int64)
  | text (note : Note) (value : String)
  | bool (note : Note) (value : Bool)
  | coordgrid (note : Note) (value : Int32)
  | null (note : Note)
  | localVar (note : Note) (name : Ident) (target : Option Local)
  | arrayElement (note : Note) (name : Ident) (index : Expr) (slot : Option Nat)
  | global (note : Note) (name : Ident)
  | constant (note : Note) (name : Ident)
  /-- A name on its own: a command without arguments or a configuration, whose number is filled in
  by the checker. -/
  | bare (note : Note) (name : Ident) (config : Option Nat)
  | command (note : Note) (name : Ident) (alternative : Bool) (args : List Expr)
  | call (note : Note) (trigger : String) (name : Ident) (args : List Expr)
  /-- A hook argument that names no script. -/
  | emptyHook (note : Note)
  | hook (note : Note) (name : Ident) (args : List Expr)
  | concat (note : Note) (parts : List Expr)
  | calculation (note : Note) (inner : Expr)
  | binary (note : Note) (operator : Operator) (left right : Expr)
  /-- Stands where an expression could not be read. -/
  | error (note : Note)

namespace Expr

def note : Expr → Note
  | .int here _ | .long here _ | .text here _ | .bool here _ | .coordgrid here _ | .null here
  | .localVar here _ _ | .arrayElement here _ _ _ | .global here _ | .constant here _
  | .bare here _ _ | .command here _ _ _ | .call here _ _ _ | .emptyHook here | .hook here _ _
  | .concat here _ | .calculation here _ | .binary here _ _ _ | .error here => here

def span (expr : Expr) : Span := expr.note.span

def ty (expr : Expr) : Ty := expr.note.ty

instance : Inhabited Expr := ⟨.error (Note.ofSpan Span.empty)⟩

end Expr

mutual

inductive Stmt where
  | block (span inner : Span) (body : List Stmt)
  | ifThen (span : Span) (condition : Expr) (body : Stmt)
  | ifElse (span : Span) (condition : Expr) (body otherwise : Stmt)
  | whileLoop (span : Span) (condition : Expr) (body : Stmt)
  | continueLoop (span : Span)
  | breakLoop (span : Span)
  | return (span : Span) (values : List Expr)
  | declare (span : Span) (prim : Prim) (name : Ident) (init : Option Expr) (target : Option Local)
  | declareArray (span : Span) (prim : Prim) (name : Ident) (size : Expr) (slot : Option Nat)
  | assign (span : Span) (targets values : List Expr)
  | switch (span : Span) (prim : Prim) (condition : Expr) (arms : List Arm) (fallback : Option Arm)
  | expr (span : Span) (value : Expr)

/-- One case of a switch. The default case has no keys. -/
inductive Arm where
  | mk (span inner : Span) (keys : List Expr) (values : List Int32) (body : List Stmt)

end

namespace Stmt

def span : Stmt → Span
  | .block here _ _ | .ifThen here _ _ | .ifElse here _ _ _ | .whileLoop here _ _
  | .continueLoop here | .breakLoop here | .return here _ | .declare here _ _ _ _
  | .declareArray here _ _ _ _ | .assign here _ _ | .switch here _ _ _ _ | .expr here _ => here

instance : Inhabited Stmt := ⟨.breakLoop Span.empty⟩

end Stmt

def Arm.span : Arm → Span
  | .mk here _ _ _ _ => here

def Arm.keys : Arm → List Expr
  | .mk _ _ keys _ _ => keys

/-- A number attached to a script by name. -/
structure Annotation where
  name : Ident
  value : Int32
  span : Span
  deriving DecidableEq

/-- A parameter; the checker fills in its variable. -/
structure Param where
  prim : Prim
  name : Ident
  span : Span
  target : Option Local
  deriving DecidableEq

/-- A script: what starts it, its name, what it takes and returns, and its statements. -/
structure Script where
  annotations : List Annotation
  trigger : Ident
  name : Ident
  params : List Param
  returns : Ty
  inner : Span
  body : List Stmt
  span : Span

/-- The name under which a script is known: its trigger and its own name. -/
def scriptKey (trigger name : String) : String := "[" ++ trigger ++ "," ++ name ++ "]"

def Script.key (script : Script) : String := scriptKey script.trigger.text script.name.text

def Script.paramTypes (script : Script) : List Prim := script.params.map Param.prim

end TriggerScript
