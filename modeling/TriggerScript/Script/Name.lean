import TriggerScript.Parse
import TriggerScript.Script.Tree

/-!
Names.

Where no other phrase can stand, a name may be spelled like a keyword, a type or a number.
-/

namespace TriggerScript

namespace Ident

def ofToken (token : Token) : Ident := ⟨token.text, token.span⟩

def isSpelledBy : TokenKind → Bool
  | .ifWord | .elseWord | .whileWord | .returnWord | .switch | .caseWord | .defaultWord | .calcWord
  | .identifier | .bool | .integer | .long | .type => true
  | _ => false

def parse : Parse Ident := do return ofToken (← .expect .identifier)

def parseAny : Parse Ident := do
  let found ← Parse.kind
  if isSpelledBy found then return ofToken (← .take)
  else Parse.rejectNext (.expectedIdentifier found)

end Ident

def Prim.ofMarked? (mark : String) (token : Token) : Option Prim := do
  let name ← mark.toList.isPrefixOf? token.text.toList
  ofSource? (String.ofList name)

/-- A token of a kind that names a type behind a mark, and the type. -/
def Prim.parseMarked (kind : TokenKind) (mark : String) : Parse (Prim × Span) := do
  let token ← .expect kind
  match ofMarked? mark token with
  | some prim => return (prim, token.span)
  | none => Parse.reject (.unknownType token.text) token.span

end TriggerScript
