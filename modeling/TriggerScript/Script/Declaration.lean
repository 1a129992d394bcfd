import TriggerScript.Script.Statement

/-!
Reading scripts.

A script is written `[trigger,name]`, then its parameters and the types that it returns, each in
parentheses and either of them left out, then its statements. Annotations stand before it. Behind a
script that cannot be read the file is read on from the next bracket or annotation.
-/

namespace TriggerScript

namespace Script

def parseAnnotation : Parse Annotation := do
  let ((name, value), span) ← Parse.ranged do
    let _ ← Parse.expect .hash
    let name ← Ident.parse
    let _ ← Parse.expect .colon
    let token ← .expect .integer
    match token.int32 with
    | .ok value => return (name, value)
    | .error fault => Parse.reject fault token.span
  return ⟨name, value, span⟩

def parameterAhead : Parse Bool := do
  match ← .kind with
  | .type | .arrayType => return (← .kindAhead 1) = .dollar
  | _ => return false

def parseParameter : Parse Param := do
  let ((prim, name), span) ← Parse.ranged do
    if (← .kind) = .arrayType then
      let token ← .take
      Parse.reject .arrayParameter token.span
    else
      let (prim, place) ← Prim.parseMarked .type ""
      if !prim.isDeclarable then Parse.reject (.illegalParameterType prim) place
      else
        let _ ← Parse.expect .dollar
        let name ← Ident.parse
        return (prim, name)
  return ⟨prim, name, span, none⟩

def parseParameters (bound : Nat) : Parse (List Param) :=
  Parse.separated (fun _ => parseParameter) 0 bound

def parseTypes (bound : Nat) : Parse Ty := do
  let types ← Parse.separated (fun _ => Prim.parseMarked .type "") 0 bound
  return Ty.ofList (types.map Prod.fst)

/-- A phrase in parentheses, if there are parentheses with something between them. -/
def parseGroup {α : Type} (phrase : Parse α) : Parse (Option α) := do
  if ← .accept .leftParen then
    if ← .accept .rightParen then return none
    else
      let inner ← phrase
      let _ ← Parse.expect .rightParen
      return some inner
  else
    return none

/-- The parameters and the returned types. Types alone may stand first; the parameters are then
looked for behind them. -/
def parseSignature (bound : Nat) : Parse (List Param × Ty) := do
  let first ← parseGroup do
    if ← parameterAhead then Sum.inl <$> parseParameters bound else Sum.inr <$> parseTypes bound
  match first with
  | some (.inr returns) =>
    let params ← parseGroup (parseParameters bound)
    return (params.getD [], returns)
  | some (.inl params) =>
    let returns ← parseGroup (parseTypes bound)
    return (params, returns.getD Ty.void)
  | none =>
    let returns ← parseGroup (parseTypes bound)
    return ([], returns.getD Ty.void)

def annotationAhead : Parse Bool := do return (← .kind) = .hash

def parse (grammar : Grammar) (bound : Nat) : Parse Script := do
  let (build, span) ← Parse.ranged do
    let annotations ← Parse.many annotationAhead parseAnnotation bound
    let _ ← Parse.expect .leftBracket
    let trigger ← Ident.parseAny
    let _ ← Parse.expect .comma
    let name ← Ident.parseAny
    let _ ← Parse.expect .rightBracket
    let (params, returns) ← parseSignature bound
    let (body, inner) ← Stmt.parseSequence grammar (Stmt.parse grammar bound) bound
    return fun span => (⟨annotations, trigger, name, params, returns, inner, body, span⟩ : Script)
  return build span

def parseFile (grammar : Grammar) (bound : Nat) : Parse (List Script) :=
  Parse.declarations (parse grammar bound) (Parse.skipUntil [.leftBracket, .hash] bound) bound

end Script

def Grammar.start (grammar : Grammar) : Cursor :=
  Cursor.start (TokenStream.ofText grammar.vocabulary grammar.source)

def Grammar.scripts (grammar : Grammar) : List Script × List Diagnostic :=
  match Script.parseFile grammar (enoughRounds grammar.source) grammar.start with
  | (.found scripts, behind) => (scripts, behind.finish)
  | (_, behind) => ([], behind.finish)

end TriggerScript
