/-!
Binary operators of expressions.

`levels` lists the operators from the loosest binding to the tightest; operators of one level
associate to the left.
-/

namespace TriggerScript

inductive Operator where
  | or
  | and
  | equals
  | notEquals
  | lessThan
  | greaterThan
  | lessThanOrEqual
  | greaterThanOrEqual
  | add
  | sub
  | mul
  | div
  | mod
  deriving DecidableEq, Inhabited

namespace Operator

def isArithmetic : Operator → Bool
  | add | sub | mul | div | mod => true
  | _ => false

def isRelational : Operator → Bool
  | lessThan | greaterThan | lessThanOrEqual | greaterThanOrEqual => true
  | _ => false

def isEquality : Operator → Bool
  | equals | notEquals => true
  | _ => false

def isLogical : Operator → Bool
  | and | or => true
  | _ => false

def symbol : Operator → String
  | or => "|"
  | and => "&"
  | equals => "="
  | notEquals => "!"
  | lessThan => "<"
  | greaterThan => ">"
  | lessThanOrEqual => "<="
  | greaterThanOrEqual => ">="
  | add => "+"
  | sub => "-"
  | mul => "*"
  | div => "/"
  | mod => "%"

def levels : List (List Operator) := [
  [or],
  [and],
  [equals, notEquals],
  [lessThan, greaterThan, lessThanOrEqual, greaterThanOrEqual],
  [add, sub],
  [mul, div, mod]]

end Operator

end TriggerScript
