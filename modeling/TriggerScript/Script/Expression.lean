import TriggerScript.Data.Total
import TriggerScript.Script.Name
import TriggerScript.Token.Denotation

/-!
Reading expressions.

Binary operators are read level by level, the loosest first, and group to the left; arithmetic
operators are operators inside a calculation only. An argument that a command declares as a hook may
be a string, which is read as a text of its own: a script name with arguments.
-/

namespace TriggerScript

/-- What reading a script depends on besides its tokens. -/
structure Grammar where
  source : String
  vocabulary : Vocabulary
  /-- The trigger whose scripts a token calls. -/
  callTrigger? : TokenKind → Option String
  /-- Whether an argument of a command, counted from zero, is a hook. -/
  isHookArgument : String → Nat → Bool

def Operator.token : Operator → TokenKind
  | or => .or
  | and => .and
  | equals => .equals
  | notEquals => .notEquals
  | lessThan => .lessThan
  | greaterThan => .greaterThan
  | lessThanOrEqual => .lessThanOrEqual
  | greaterThanOrEqual => .greaterThanOrEqual
  | add => .plus
  | sub => .minus
  | mul => .mul
  | div => .div
  | mod => .mod

def Operator.ofToken? (inCalc : Bool) (level : List Operator) (kind : TokenKind) :
    Option Operator :=
  level.find? fun operator => operator.token = kind && (inCalc || !operator.isArithmetic)

namespace Expr

def isStart (grammar : Grammar) : TokenKind → Bool
  | .integer | .long | .coordgrid | .string | .concatBegin | .bool | .nullWord | .identifier
  | .dollar | .mod | .caret | .leftParen | .dot | .calcWord | .error => true
  | kind => (grammar.callTrigger? kind).isSome

def ahead (grammar : Grammar) : Parse Bool := do return isStart grammar (← .kind)

def noted (phrase : Parse (Note → Expr)) : Parse Expr := do
  let (build, span) ← phrase.ranged
  return build (Note.ofSpan span)

/-! ### Phrases inside expressions

Each takes a way to read a whole expression and a bound on the length of lists. -/

def arguments (grammar : Grammar) (argument : Nat → Parse Expr) (bound : Nat) :
    Parse (List Expr) := do
  if ← .accept .leftParen then
    let args ← if ← ahead grammar then Parse.separated argument 0 bound else pure []
    let _ ← Parse.expect .rightParen
    return args
  else
    return []

def parenthesized (expression : Parse Expr) : Parse Expr := do
  let _ ← Parse.expect .leftParen
  let inner ← expression
  let _ ← Parse.expect .rightParen
  return inner

/-- A local variable or an element of an array, behind the dollar sign. -/
def variableName (expression : Parse Expr) : Parse (Note → Expr) := do
  let name ← Ident.parse
  if ← .accept .leftParen then
    let index ← expression
    let _ ← Parse.expect .rightParen
    return fun note => .arrayElement note name index none
  else
    return fun note => .localVar note name none

def callPhrase (grammar : Grammar) (expression : Parse Expr) (bound : Nat) :
    Parse (Note → Expr) := do
  let operator ← .take
  match grammar.callTrigger? operator.kind with
  | none => Parse.reject .expectingCallOperator operator.span
  | some trigger =>
    let name ← Ident.parseAny
    let args ← arguments grammar (fun _ => expression) bound
    return fun note => .call note trigger name args

def hookBody (grammar : Grammar) (expression : Parse Expr) (bound : Nat) : Parse (Note → Expr) := do
  let name ← Ident.parse
  let args ← arguments grammar (fun _ => expression) bound
  if ← .isFinished then
    return fun note => .hook note name args
  else
    Parse.rejectNext .contentAfterHook

/-- The characters written in a string token, at their places in the source. -/
def hookText (grammar : Grammar) (token : Token) : Scanner :=
  let start := token.span.start + 1
  let raw := (slice grammar.source ⟨start, token.span.stop⟩).getD []
  let raw := if (raw.getLast?.map Placed.char) = some '"' then raw.dropLast else raw
  let size := total (fun placed => placed.char.utf8Size) raw
  Scanner.ofPlaced grammar.vocabulary (decodeBody raw) (start + size)

def hookPhrase (grammar : Grammar) (expression : Parse Expr) (bound : Nat) : Parse Expr :=
  noted do
    if ← .accept .nullWord then return emptyHook
    else
      let token ← .expect .string
      if token.text.isEmpty then return emptyHook
      else Parse.embedded (hookText grammar token) (hookBody grammar expression bound)

def commandArgument (grammar : Grammar) (expression : Parse Expr) (bound : Nat) (name : Ident)
    (index : Nat) : Parse Expr := do
  if grammar.isHookArgument name.text index then
    match ← .kind with
    | .string | .nullWord => hookPhrase grammar expression bound
    | _ => expression
  else
    expression

/-- A command, perhaps in its alternative form, which a dot marks. -/
def commandPhrase (grammar : Grammar) (expression : Parse Expr) (bound : Nat) :
    Parse (Note → Expr) := do
  let alternative ← Parse.accept .dot
  let name ← Ident.parseAny
  let args ← arguments grammar (commandArgument grammar expression bound name) bound
  return fun note => .command note name alternative args

/-- An expression without operators and parentheses around it. `expression` reads an expression
inside it; its argument says whether that stands in a calculation. -/
def atom (grammar : Grammar) (expression : Bool → Parse Expr) (inCalc : Bool) (bound : Nat) :
    Parse (Note → Expr) := do
  match ← .kind with
  | .integer =>
    let token ← .take
    .orReport token.int32 (fun value note => .int note value) error token.span
  | .long =>
    let token ← .take
    .orReport token.int64 (fun value note => .long note value) error token.span
  | .coordgrid =>
    let token ← .take
    .orReport token.coordinate (fun value note => .coordgrid note value) error token.span
  | .string =>
    let token ← .take
    return fun note => .text note token.text
  | .bool =>
    let token ← .take
    return fun note => .bool note (token.text = "true")
  | .nullWord =>
    let _ ← Parse.take
    return null
  | .concatBegin =>
    let _ ← Parse.take
    let parts ← Parse.many (ahead grammar) (expression inCalc) bound
    let _ ← Parse.expect .concatEnd
    return fun note => .concat note parts
  | .dollar =>
    let _ ← Parse.take
    variableName (expression inCalc)
  | .mod =>
    let _ ← Parse.take
    let name ← Ident.parse
    return fun note => .global note name
  | .caret =>
    let _ ← Parse.take
    let name ← Ident.parse
    return fun note => .constant note name
  | .calcWord =>
    let _ ← Parse.take
    let inner ← parenthesized (expression true)
    return fun note => .calculation note inner
  | .dot => commandPhrase grammar (expression inCalc) bound
  | .error =>
    let _ ← Parse.take
    return error
  | kind =>
    if Ident.isSpelledBy kind then
      if (← Parse.kindAhead 1) = .leftParen then commandPhrase grammar (expression inCalc) bound
      else
        let name ← Ident.parseAny
        return fun note => .bare note name none
    else if (grammar.callTrigger? kind).isSome then callPhrase grammar (expression inCalc) bound
    else Parse.rejectNext .expectingExpression

def primary (grammar : Grammar) (expression : Bool → Parse Expr) (inCalc : Bool) (bound : Nat) :
    Parse Expr := do
  if (← Parse.kind) = .leftParen then parenthesized (expression inCalc)
  else noted (atom grammar expression inCalc bound)

def combine (operator : Operator) (left right : Expr) : Expr :=
  .binary (Note.ofSpan (left.span.merge right.span)) operator left right

def operands (inCalc : Bool) (level : List Operator) (operand : Parse Expr) (left : Expr) :
    Nat → Parse Expr
  | 0 => .exhaust
  | bound + 1 => do
    match Operator.ofToken? inCalc level (← .kind) with
    | none => return left
    | some operator =>
      let _ ← Parse.take
      let right ← operand
      operands inCalc level operand (combine operator left right) bound

def operation (inCalc : Bool) (bound : Nat) (tightest : Parse Expr) :
    List (List Operator) → Parse Expr
  | [] => tightest
  | level :: tighter => do
    let operand := operation inCalc bound tightest tighter
    let left ← operand
    operands inCalc level operand left bound

def parse (grammar : Grammar) : Nat → Bool → Parse Expr
  | 0, _ => .exhaust
  | bound + 1, inCalc =>
    operation inCalc bound (primary grammar (parse grammar bound) inCalc bound) Operator.levels

end Expr

end TriggerScript
