import Mathlib
import TriggerScript.Script.Expression

/-!
Writing expressions.

`Expr.print` writes an expression as source text. An operand is put in parentheses if it binds
looser than the operator, or as loose on the right. `Expr.lexemes` lists the tokens of that text.
`Writable` says which trees have a text: those that the checker has not touched, with plain names,
and with arithmetic inside calculations only.
-/

namespace TriggerScript

/-- The level of an operator, counted from the loosest. -/
def Operator.level (operator : Operator) : Nat :=
  Operator.levels.findIdx fun level => level.contains operator

/-- A name that is not a word of the vocabulary. -/
def Ident.IsPlain (name : Ident) : Prop :=
  name.text.toList.head?.any Scanner.isNameStart ∧ name.text.toList.all Scanner.isNamePart ∧
    Vocabulary.scripts.keyword? name.text = none

instance (name : Ident) : Decidable name.IsPlain := inferInstanceAs (Decidable (_ ∧ _ ∧ _))

/-- How a character is written in a string. -/
def escaped : Char → List Char
  | '"' => ['\\', '"']
  | '\\' => ['\\', '\\']
  | '<' => ['\\', '<']
  | '\n' => ['\\', 'n']
  | char => [char]

/-- The kind of a token and its text. -/
abbrev Lexeme := TokenKind × String

namespace Expr

/-- How tightly an expression binds. Only binary operators can be torn apart. -/
def level : Expr → Nat
  | .binary _ operator _ _ => operator.level
  | _ => Operator.levels.length

/-- The token that calls scripts of a trigger. -/
def callMark (trigger : String) : Lexeme :=
  if trigger = "proc" then (.tilde, "~") else (.atSign, "@")

/-- Put parentheses around a text. -/
def enclosed (text : List Char) : List Char := '(' :: text ++ [')']

mutual

/-- The source text of an expression. -/
def print : Expr → List Char
  | .int _ value => value.toInt.repr.toList
  | .long _ value => value.toInt.repr.toList ++ ['L']
  | .text _ value => '"' :: value.toList.flatMap escaped ++ ['"']
  | .bool _ value => if value then "true".toList else "false".toList
  | .null _ => "null".toList
  | .localVar _ name _ => '$' :: name.text.toList
  | .arrayElement _ name index _ => '$' :: name.text.toList ++ enclosed index.print
  | .global _ name => '%' :: name.text.toList
  | .constant _ name => '^' :: name.text.toList
  | .bare _ name _ => name.text.toList
  | .command _ name alternative args =>
    (if alternative then ['.'] else []) ++ name.text.toList ++ enclosed (printAll args)
  | .call _ trigger name args =>
    (callMark trigger).2.toList ++ name.text.toList ++ enclosed (printAll args)
  | .calculation _ inner => "calc".toList ++ enclosed inner.print
  | .binary _ operator left right =>
    (if left.level < operator.level then enclosed left.print else left.print) ++ ' ' ::
      operator.symbol.toList ++
      ' ' :: (if right.level ≤ operator.level then enclosed right.print else right.print)
  | .coordgrid _ _ | .emptyHook _ | .hook _ _ _ | .concat _ _ | .error _ => []

/-- Arguments, divided by commas. -/
def printAll : List Expr → List Char
  | [] => []
  | [expr] => expr.print
  | expr :: rest => expr.print ++ ',' :: ' ' :: printAll rest

end

/-- Trees that have a source text, inside or outside of a calculation. -/
inductive Writable : Bool → Expr → Prop
  | int {inCalc : Bool} {span : Span} {value : Int32} : Writable inCalc (.int (.ofSpan span) value)
  | long {inCalc : Bool} {span : Span}
      {value : Int64} : Writable inCalc (.long (.ofSpan span) value)
  | text {inCalc : Bool} {span : Span} {value : String} (unreturned : '\r' ∉ value.toList) :
    Writable inCalc (.text (.ofSpan span) value)
  | bool {inCalc : Bool} {span : Span} {value : Bool} : Writable inCalc (.bool (.ofSpan span) value)
  | null {inCalc : Bool} {span : Span} : Writable inCalc (.null (.ofSpan span))
  | localVar {inCalc : Bool} {span : Span} {name : Ident} (plain : name.IsPlain) :
    Writable inCalc (.localVar (.ofSpan span) name none)
  | arrayElement {inCalc : Bool} {span : Span} {name : Ident} {index : Expr} (plain : name.IsPlain)
    (inner : Writable inCalc index) : Writable inCalc (.arrayElement (.ofSpan span) name index none)
  | global {inCalc : Bool} {span : Span} {name : Ident} (plain : name.IsPlain) :
    Writable inCalc (.global (.ofSpan span) name)
  | constant {inCalc : Bool} {span : Span} {name : Ident} (plain : name.IsPlain) :
    Writable inCalc (.constant (.ofSpan span) name)
  | bare {inCalc : Bool} {span : Span} {name : Ident} (plain : name.IsPlain) :
    Writable inCalc (.bare (.ofSpan span) name none)
  | command {inCalc : Bool} {span : Span} {name : Ident} {alternative : Bool} {args : List Expr}
    (plain : name.IsPlain) (inner : ∀ arg ∈ args, Writable inCalc arg) :
    Writable inCalc (.command (.ofSpan span) name alternative args)
  | call {inCalc : Bool} {span : Span} {trigger : String} {name : Ident} {args : List Expr}
    (called : trigger = "proc" ∨ trigger = "label") (plain : name.IsPlain)
    (inner : ∀ arg ∈ args, Writable inCalc arg) :
    Writable inCalc (.call (.ofSpan span) trigger name args)
  | calculation {inCalc : Bool} {span : Span} {inner : Expr} (inside : Writable true inner) :
    Writable inCalc (.calculation (.ofSpan span) inner)
  | binary {inCalc : Bool} {span : Span} {operator : Operator} {left right : Expr}
    (allowed : operator.isArithmetic → inCalc) (first : Writable inCalc left)
    (second : Writable inCalc right) :
    Writable inCalc (.binary (.ofSpan span) operator left right)

/-! ### Tokens -/

/-- Put parentheses around tokens. -/
def parens (given : List Lexeme) : List Lexeme := (.leftParen, "(") :: given ++ [(.rightParen, ")")]

mutual

/-- The tokens of the source text of an expression. -/
def lexemes : Expr → List Lexeme
  | .int _ value => [(.integer, value.toInt.repr)]
  | .long _ value => [(.long, value.toInt.repr)]
  | .text _ value => [(.string, value)]
  | .bool _ value => [(.bool, if value then "true" else "false")]
  | .null _ => [(.nullWord, "null")]
  | .localVar _ name _ => [(.dollar, "$"), (.identifier, name.text)]
  | .arrayElement _ name index _ =>
    (.dollar, "$") :: (.identifier, name.text) :: parens index.lexemes
  | .global _ name => [(.mod, "%"), (.identifier, name.text)]
  | .constant _ name => [(.caret, "^"), (.identifier, name.text)]
  | .bare _ name _ => [(.identifier, name.text)]
  | .command _ name alternative args =>
    (if alternative then [(.dot, ".")] else []) ++ (.identifier, name.text) :: parens
      (lexemesAll args)
  | .call _ trigger name args =>
    callMark trigger :: (.identifier, name.text) :: parens (lexemesAll args)
  | .calculation _ inner => (.calcWord, "calc") :: parens inner.lexemes
  | .binary _ operator left right =>
    (if left.level < operator.level then parens left.lexemes else left.lexemes) ++
      (operator.token, operator.symbol) ::
        (if right.level ≤ operator.level then parens right.lexemes else right.lexemes)
  | .coordgrid _ _ | .emptyHook _ | .hook _ _ _ | .concat _ _ | .error _ => []

def lexemesAll : List Expr → List Lexeme
  | [] => []
  | [expr] => expr.lexemes
  | expr :: rest => expr.lexemes ++ (.comma, ",") :: lexemesAll rest

end

end Expr

end TriggerScript
