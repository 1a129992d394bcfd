import TriggerScript.Script.Expression

/-!
Reading statements.

A block ends where no statement can begin. A switch keeps its first default case apart from the
other cases; a second one is reported and dropped.
-/

namespace TriggerScript

namespace Stmt

def isStart (grammar : Grammar) : TokenKind → Bool
  | .ifWord | .whileWord | .leftBrace | .returnWord | .define | .dollar | .mod | .switch
  | .continueWord | .breakWord => true
  | kind => Expr.isStart grammar kind

def ahead (grammar : Grammar) : Parse Bool := do return isStart grammar (← .kind)

def parseWord (build : Span → Stmt) : Parse (Span → Stmt) := do
  let _ ← Parse.take
  let _ ← Parse.expect .semicolon
  return build

def parseReturn (grammar : Grammar) (expression : Parse Expr) (bound : Nat) :
    Parse (Span → Stmt) := do
  let _ ← Parse.expect .returnWord
  let values ← Expr.arguments grammar (fun _ => expression) bound
  let _ ← Parse.expect .semicolon
  return fun span => .return span values

def defineMark : String := "def_"

/-- The mark before the type of the values that a switch compares. -/
def switchMark : String := "switch_"

/-- A variable without a value, or with `null` for one, starts with the default of its type. -/
def parseDeclare (expression : Parse Expr) : Parse (Span → Stmt) := do
  let (prim, _) ← Prim.parseMarked .define defineMark
  if !(← Parse.accept .dollar) then Parse.rejectNext .expectingLocalName
  else
    let name ← Ident.parse
    let init ←
      if ← .accept .equals then
        if ← .accept .nullWord then pure none else some <$> expression
      else pure none
    let _ ← Parse.expect .semicolon
    return fun span => .declare span prim name init none

def parseDeclareArray (expression : Parse Expr) : Parse (Span → Stmt) := do
  let (prim, _) ← Prim.parseMarked .define defineMark
  if !(← Parse.accept .dollar) then Parse.rejectNext .expectingArrayName
  else
    let name ← Ident.parse
    let size ← Expr.parenthesized expression
    let _ ← Parse.expect .semicolon
    return fun span => .declareArray span prim name size none

def parseTarget (expression : Parse Expr) : Parse Expr :=
  Expr.noted do
    let token ← .take
    match token.kind with
    | .dollar => Expr.variableName expression
    | .mod =>
      let name ← Ident.parse
      if (← .kind) = .leftParen then Parse.reject .globalArray token.span
      else return fun note => .global note name
    | _ => Parse.reject .expectingVariable token.span

def parseAssign (expression : Parse Expr) (bound : Nat) : Parse (Span → Stmt) := do
  let targets ← Parse.separated (fun _ => parseTarget expression) 0 bound
  let _ ← Parse.expect .equals
  let values ← Parse.separated (fun _ => expression) 0 bound
  let _ ← Parse.expect .semicolon
  return fun span => .assign span targets values

def parseIf (expression : Parse Expr) (statement : Parse Stmt) : Parse (Span → Stmt) := do
  let _ ← Parse.expect .ifWord
  let condition ← Expr.parenthesized expression
  let body ← statement
  if ← .accept .elseWord then
    let otherwise ← statement
    return fun span => .ifElse span condition body otherwise
  else
    return fun span => .ifThen span condition body

def parseWhile (expression : Parse Expr) (statement : Parse Stmt) : Parse (Span → Stmt) := do
  let _ ← Parse.expect .whileWord
  let condition ← Expr.parenthesized expression
  let body ← statement
  return fun span => .whileLoop span condition body

def parseSequence (grammar : Grammar) (statement : Parse Stmt) (bound : Nat) :
    Parse (List Stmt × Span) :=
  (Parse.many (ahead grammar) statement bound).ranged

def parseBlock (grammar : Grammar) (statement : Parse Stmt) (bound : Nat) :
    Parse (Span → Stmt) := do
  let _ ← Parse.take
  let (body, inner) ← parseSequence grammar statement bound
  let _ ← Parse.expect .rightBrace
  return fun span => .block span inner body

def parseArm (grammar : Grammar) (expression : Parse Expr) (statement : Parse Stmt) (bound : Nat) :
    Parse Arm := do
  let ((keys, inner, body), span) ← Parse.ranged do
    let _ ← Parse.expect .caseWord
    let keys ←
      if ← .accept .defaultWord then pure []
      else Parse.separated (fun _ => expression) 0 bound
    let _ ← Parse.expect .colon
    let (body, inner) ← parseSequence grammar statement bound
    return (keys, inner, body)
  return .mk span inner keys [] body

/-- The cases up to the closing brace and the default case among them. -/
def parseArms (arm : Parse Arm) (fallback : Option Arm) : Nat → Parse (List Arm × Option Arm)
  | 0 => .exhaust
  | bound + 1 => do
    if ← .accept .rightBrace then return ([], fallback)
    else
      let next ← arm
      if !next.keys.isEmpty then
        let (arms, fallback) ← parseArms arm fallback bound
        return (next :: arms, fallback)
      else if fallback.isSome then
        .report .secondDefault next.span
        parseArms arm fallback bound
      else
        parseArms arm (some next) bound

def parseSwitch (grammar : Grammar) (expression : Parse Expr) (statement : Parse Stmt)
    (bound : Nat) :
    Parse (Span → Stmt) := do
  let (prim, _) ← Prim.parseMarked .switch switchMark
  let condition ← Expr.parenthesized expression
  let _ ← Parse.expect .leftBrace
  let (arms, fallback) ← parseArms (parseArm grammar expression statement bound) none bound
  return fun span => .switch span prim condition arms fallback

def parseForm (grammar : Grammar) (expression : Parse Expr) (statement : Parse Stmt) (bound : Nat) :
    Parse (Span → Stmt) := do
  match ← .kind with
  | .ifWord => parseIf expression statement
  | .whileWord => parseWhile expression statement
  | .continueWord => parseWord .continueLoop
  | .breakWord => parseWord .breakLoop
  | .leftBrace => parseBlock grammar statement bound
  | .returnWord => parseReturn grammar expression bound
  | .define =>
    if (← Parse.kindAhead 3) = .leftParen then parseDeclareArray expression
    else parseDeclare expression
  | .dollar | .mod => parseAssign expression bound
  | .switch => parseSwitch grammar expression statement bound
  | kind =>
    if Expr.isStart grammar kind then
      let value ← expression
      let _ ← Parse.expect .semicolon
      return fun span => .expr span value
    else
      Parse.rejectNext .expectingStatement

def parse (grammar : Grammar) : Nat → Parse Stmt
  | 0 => .exhaust
  | bound + 1 => do
    let (build, span) ←
      (parseForm grammar (Expr.parse grammar bound false) (parse grammar bound) bound).ranged
    return build span

end Stmt

end TriggerScript
