import TriggerScript.Value.Prim

/-!
Types of expressions.

An expression leaves the values of its type on the stacks: one for a primitive type, several for a
tuple, none for `void`.
-/

namespace TriggerScript

/-- A primitive type, or several in order. -/
inductive Ty where
  | single (prim : Prim)
  | tuple (items : List Prim)
  deriving DecidableEq, Inhabited

namespace Ty

def void : Ty := .single .void

def undefined : Ty := .single .undefined

def ofList : List Prim → Ty
  | [] => void
  | [prim] => .single prim
  | items => .tuple items

def flatten : Ty → List Prim
  | .single .void => []
  | .single prim => [prim]
  | .tuple items => items

def prim? : Ty → Option Prim
  | .single prim => some prim
  | .tuple _ => none

def isUndefined (ty : Ty) : Bool := ty = undefined

def displayList (separator : String) (items : List Prim) : String :=
  separator.intercalate (items.map Prim.display)

def display : Ty → String
  | .single prim => prim.display
  | .tuple items => displayList "," items

def listAgrees (left right : List Prim) : Bool :=
  left.length = right.length && (left.zip right).all fun (first, second) => first.agrees second

def agrees (left right : Ty) : Bool := listAgrees left.flatten right.flatten

end Ty

end TriggerScript
