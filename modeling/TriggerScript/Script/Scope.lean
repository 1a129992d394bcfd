import TriggerScript.Diagnostic
import TriggerScript.Script.Tree

/-!
Scopes of local variables and the array slots of a script.

A scope is a stack of frames, innermost first. A name that any frame has cannot be declared again;
it is forgotten with its frame. Arrays belong to the whole script and take numbered slots, of which
there are only so many.
-/

namespace TriggerScript

structure Scope where
  frame : List Local
  outer : List (List Local)
  deriving DecidableEq

namespace Scope

def empty : Scope := ⟨[], []⟩

def enter (scope : Scope) : Scope := ⟨[], scope.frame :: scope.outer⟩

def leave? (scope : Scope) : Option Scope :=
  match scope.outer with
  | [] => none
  | frame :: outer => some ⟨frame, outer⟩

def lookup (scope : Scope) (name : String) : Option Local :=
  (scope.frame :: scope.outer).findSome? fun frame => frame.find? fun entry => entry.name = name

/-- Declare a variable in the innermost frame, unless its name is visible. -/
def declare (scope : Scope) (target : Local) : Option Scope :=
  if (scope.lookup target.name).isSome then none
  else some { scope with frame := scope.frame ++ [target] }

end Scope

/-- The arrays of a script in the order of their slots. -/
structure ArrayTable where
  entries : List (String × Prim)
  capacity : Nat
  deriving DecidableEq

namespace ArrayTable

def slotLimit : Nat := 256

def empty (capacity : Nat) : ArrayTable := ⟨[], capacity⟩

def lookup (arrays : ArrayTable) (name : String) : Option (Nat × Prim) := do
  let index ← arrays.entries.findIdx? fun entry => entry.1 = name
  let entry ← arrays.entries[index]?
  return (index, entry.2)

/-- Give an array the next slot. There is no slot if the name is taken, and an error if there are
no slots left. -/
def define (arrays : ArrayTable) (name : String) (prim : Prim) :
    Except SemanticFault (Option Nat × ArrayTable) :=
  if (arrays.lookup name).isSome then .ok (none, arrays)
  else
    let index := arrays.entries.length
    if index < slotLimit && index < arrays.capacity then
      .ok (some index, { arrays with entries := arrays.entries ++ [(name, prim)] })
    else
      .error (.tooManyArrays arrays.capacity)

end ArrayTable

end TriggerScript
