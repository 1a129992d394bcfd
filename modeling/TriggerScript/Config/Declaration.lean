import TriggerScript.Config.Tree
import TriggerScript.Script.Name
import TriggerScript.Token.Denotation

/-!
Reading configurations and constants.

A value that cannot be read is reported and keeps its place in the list, so that the list keeps its
length. A declaration that cannot be read is reported, and reading goes on at the next bracket, or
at the next caret in a file of constants.
-/

namespace TriggerScript

namespace ConfigValue

/-- Report that no value is here. The start of the next declaration is left alone. -/
def parseMissing : Parse ValueForm := do
  let token ←
    match ← .kind with
    | .leftBracket | .eof => Parse.peek
    | _ => Parse.take
  .report .expectingPropertyValue token.span
  return .error

def parseForm : Parse ValueForm := do
  match ← .kind with
  | .string =>
    let token ← .take
    return .text token.text
  | .integer =>
    let token ← .take
    .orReport token.int32 .int .error token.span
  | .long =>
    let token ← .take
    .orReport token.int64 .long .error token.span
  | .bool =>
    let token ← .take
    return .bool (token.text = "yes" || token.text = "true")
  | .type =>
    let token ← .take
    .orReport token.prim .type .error token.span
  | .coordgrid =>
    let token ← .take
    .orReport token.coordinate .coordgrid .error token.span
  | .caret =>
    if (← .kindAhead 1) = .identifier then
      let _ ← Parse.take
      return .constant (Ident.ofToken (← .take))
    else
      parseMissing
  | .identifier => return .reference (Ident.ofToken (← .take))
  | .error =>
    let _ ← Parse.take
    return .error
  | _ => parseMissing

def parse : Parse ConfigValue := do
  let (form, span) ← parseForm.ranged
  return ⟨form, span⟩

end ConfigValue

namespace Config

def isNameToken : TokenKind → Bool
  | .identifier | .type => true
  | _ => false

def nameAhead : Parse Bool := do return isNameToken (← .kind)

def parseName : Parse Ident := do
  let found ← Parse.kind
  if isNameToken found then return Ident.ofToken (← .take)
  else Parse.rejectNext (.expectedIdentifier found)

def parseProperty (bound : Nat) : Parse Property := do
  let ((key, values), span) ← Parse.ranged do
    let key ← parseName
    let _ ← Parse.expect .equals
    let values ← Parse.separated (fun _ => ConfigValue.parse) 0 bound
    return (key, values)
  return ⟨key, values, span⟩

def parse (bound : Nat) : Parse Config := do
  let ((name, properties), span) ← Parse.ranged do
    let _ ← Parse.expect .leftBracket
    let name ← parseName
    let _ ← Parse.expect .rightBracket
    let properties ← Parse.many nameAhead (parseProperty bound) bound
    return (name, properties)
  return ⟨name, properties, span⟩

def parseFile (bound : Nat) : Parse (List Config) :=
  Parse.declarations (parse bound) (Parse.skipUntil [.leftBracket] bound) bound

end Config

namespace Constant

def parse : Parse Constant := do
  let ((name, value), span) ← Parse.ranged do
    let _ ← Parse.expect .caret
    let name ← Config.parseName
    let _ ← Parse.expect .equals
    let value ← ConfigValue.parse
    return (name, value)
  return ⟨name, value, span⟩

def recover (bound : Nat) : Parse Unit := do
  let _ ← Parse.accept .caret
  Parse.skipUntil [.caret] bound

def parseFile (bound : Nat) : Parse (List Constant) :=
  Parse.declarations parse (recover bound) bound

end Constant

/-- The declarations of a text in the language of configurations, and the faults found in it. -/
def readDeclarations {α : Type} (source : String) (phrase : Nat → Parse (List α)) :
    List α × List Diagnostic :=
  let start := Cursor.start (TokenStream.ofText Vocabulary.configs source)
  match phrase (enoughRounds source) start with
  | (.found declarations, behind) => (declarations, behind.finish)
  | (_, behind) => ([], behind.finish)

end TriggerScript
