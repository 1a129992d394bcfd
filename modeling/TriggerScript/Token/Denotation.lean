import TriggerScript.Token.Coordinate

/-!
What the tokens of literals denote.
-/

namespace TriggerScript

namespace Token

/-- A value that a token denotes, unless the type of the literal has no such value. -/
def orOutOfRange {α : Type} (token : Token) (sort : LiteralType) (value : Option α) :
    Except GrammarFault α :=
  match value with
  | some value => .ok value
  | none => .error (.literalOutOfRange token.text sort)

def int32 (token : Token) : Except GrammarFault Int32 :=
  token.orOutOfRange .int (int32? token.text.toList)

def int64 (token : Token) : Except GrammarFault Int64 :=
  token.orOutOfRange .long (int64? token.text.toList)

def coordinate (token : Token) : Except GrammarFault Int32 := Coordinate.ofLiteral token.text

def prim (token : Token) : Except GrammarFault Prim :=
  token.orOutOfRange .type (Prim.ofSource? token.text)

end Token

end TriggerScript
