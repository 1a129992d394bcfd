import TriggerScript.Script.Scope
import TriggerScript.Symbol

/-!
Types of expressions.

Checking an expression fills in its types and resolutions and gives the faults in the order in which
they were found, operands first. What cannot be resolved has the undefined type, and a mismatch with
that type is no further fault. A hint is the type that the surroundings expect: it gives `null` its
type and prefers a configuration of the type to a command of the same name.
-/

namespace TriggerScript

/-- What an expression may refer to. -/
structure Names where
  symbols : SymbolTable
  scope : Scope
  arrays : ArrayTable

/-- A value of the actual type may stand where the expected one is wanted, and both are known. -/
def Ty.accepts (expected actual : Ty) : Bool :=
  !expected.isUndefined && !actual.isUndefined && expected.agrees actual

def Ty.mismatch (expected actual : Ty) (span : Span) : List Diagnostic :=
  if expected.isUndefined || actual.isUndefined || expected.agrees actual then []
  else [⟨.semantic (.typeMismatch actual expected), span⟩]

namespace Expr

def fault (cause : SemanticFault) (span : Span) : List Diagnostic := [⟨.semantic cause, span⟩]

def mismatch (expected : Prim) (expr : Expr) : List Diagnostic :=
  (Ty.single expected).mismatch expr.ty expr.span

/-- The hints for a list of values: none unless there is one for each. -/
def hintsFor (hints : List Prim) (values : List Expr) : List Prim :=
  if values.length = hints.length then hints else []

/-- The types of the values that checked expressions leave together, if all are known. -/
def leftTypes? (values : List Expr) : Option (List Prim) :=
  if values.any fun value => value.ty.isUndefined then none
  else some (values.flatMap fun value => value.ty.flatten)

def listFault (expected : List Prim) (values : List Expr) (cause : List Prim → SemanticFault)
    (span : Span) : List Diagnostic :=
  match leftTypes? values with
  | none => []
  | some actual => if Ty.listAgrees expected actual then [] else fault (cause actual) span

def comparable (operator : Operator) (left right : Prim) : Bool :=
  if operator.isRelational then
    left.agrees .int && right.agrees .int || left = .long && right = .long
  else
    left.agrees right && (left.stack? = some .int || left.stack? = some .long)

def comparisonFault (operator : Operator) (left right : Expr) : List Diagnostic :=
  if left.ty.isUndefined || right.ty.isUndefined then []
  else
    let comparable :=
      match left.ty.prim?, right.ty.prim? with
      | some first, some second => comparable operator first second
      | _, _ => false
    if comparable then []
    else fault (.undefinedOperator operator left.ty right.ty) (left.span.merge right.span)

/-- What a name on its own stands for: its type and the number of the configuration it is. -/
def resolveBare (symbols : SymbolTable) (hint : Option Prim) (name : Ident) :
    Option (Ty × Option Nat) :=
  let asCommand : Option (Ty × Option Nat) :=
    ((symbols.command? name.text).filter fun info => info.args.isEmpty).map fun info =>
      (info.returns, none)
  match symbols.config? name.text with
  | none => asCommand
  | some info =>
    let asConfig := (Ty.single info.prim, some info.id)
    if hint = some info.prim then some asConfig else some (asCommand.getD asConfig)

def hookTrigger : String := "clientscript"

mutual

def check (names : Names) (hint : Option Prim) : Expr → Expr × List Diagnostic
  | .int note value => (.int { note with ty := .single .int } value, [])
  | .long note value => (.long { note with ty := .single .long } value, [])
  | .text note value => (.text { note with ty := .single .string } value, [])
  | .bool note value => (.bool { note with ty := .single .boolean } value, [])
  | .coordgrid note value => (.coordgrid { note with ty := .single .coordgrid } value, [])
  | .null note =>
    match hint.filter Prim.isDeclarable with
    | some prim => (.null { note with ty := .single prim }, [])
    | none => (.null { note with ty := Ty.undefined }, fault .untypedNull note.span)
  | .localVar note name target =>
    match names.scope.lookup name.text with
    | some found => (.localVar { note with ty := .single found.prim } name (some found), [])
    | none =>
      (.localVar { note with ty := Ty.undefined } name target,
        fault (.unresolvedVariable name.text) name.span)
  | .arrayElement note name index slot =>
    let (index, faults) := index.check names (some .int)
    let faults := faults ++ mismatch .int index
    match names.arrays.lookup name.text with
    | some (slot, prim) =>
      (.arrayElement { note with ty := .single prim } name index (some slot), faults)
    | none =>
      (.arrayElement { note with ty := Ty.undefined } name index slot,
        faults ++ fault (.unresolvedVariable name.text) name.span)
  | .global note name =>
    match names.symbols.global? name.text with
    | some info => (.global { note with ty := .single info.prim } name, [])
    | none =>
      (.global { note with ty := Ty.undefined } name,
        fault (.unresolvedVariable name.text) name.span)
  | .constant note name =>
    match names.symbols.constant? name.text with
    | some info =>
      if info.prim.isDeclarable then (.constant { note with ty := .single info.prim } name, [])
      else
        (.constant { note with ty := Ty.undefined } name, fault (.illegalType info.prim) name.span)
    | none =>
      (.constant { note with ty := Ty.undefined } name,
        fault (.unresolvedConstant name.text) name.span)
  | .bare note name config =>
    match resolveBare names.symbols hint name with
    | some (ty, found) => (.bare { note with ty } name (found <|> config), [])
    | none =>
      (.bare { note with ty := Ty.undefined } name config,
        fault (.unresolvedSymbol name.text) name.span)
  | .command note name alternative args =>
    match names.symbols.command? name.text with
    | none =>
      let (args, faults) := checkAll names [] args
      (.command { note with ty := Ty.undefined } name alternative args,
        faults ++ fault (.unresolvedSymbol name.text) name.span)
    | some info =>
      let missing :=
        if alternative && !info.alternative then fault (.noAlternative name.text) name.span else []
      let (args, faults) := checkAll names (hintsFor info.args args) args
      (.command { note with ty := info.returns } name alternative args,
        missing ++ faults
          ++ listFault info.args args (.commandArguments name.text info.args) note.span)
  | .call note trigger name args =>
    match names.symbols.script? trigger name.text with
    | none =>
      let (args, faults) := checkAll names [] args
      (.call { note with ty := Ty.undefined } trigger name args,
        faults ++ fault (.unresolvedScript trigger name.text) name.span)
    | some info =>
      let (args, faults) := checkAll names (hintsFor info.params args) args
      (.call { note with ty := info.returns } trigger name args,
        faults ++
          listFault info.params args (.scriptArguments trigger name.text info.params) note.span)
  | .emptyHook note => (.emptyHook { note with ty := .single .hook }, [])
  | .hook note name args =>
    match names.symbols.script? hookTrigger name.text with
    | none =>
      let (args, faults) := checkAll names [] args
      (.hook { note with ty := Ty.undefined } name args,
        faults ++ fault (.unresolvedScript hookTrigger name.text) name.span)
    | some info =>
      let (args, faults) := checkAll names (hintsFor info.params args) args
      (.hook { note with ty := .single .hook } name args,
        faults ++
          listFault info.params args (.scriptArguments hookTrigger name.text info.params) note.span)
  | .concat note parts =>
    let (parts, faults) := checkEach names .string parts
    (.concat { note with ty := .single .string } parts, faults)
  | .calculation note inner =>
    let (inner, faults) := inner.check names (some .int)
    (.calculation { note with ty := .single .int } inner, faults ++ mismatch .int inner)
  | .binary note operator left right =>
    if operator.isArithmetic || operator.isLogical then
      let operand : Prim := if operator.isArithmetic then .int else .boolean
      let (left, leftFaults) := left.check names (some operand)
      let (right, rightFaults) := right.check names (some operand)
      (.binary { note with ty := .single operand } operator left right,
        leftFaults ++ mismatch operand left ++ rightFaults ++ mismatch operand right)
    else
      let (left, leftFaults) := left.check names none
      let (right, rightFaults) := right.check names left.ty.prim?
      (.binary { note with ty := .single .boolean } operator left right,
        leftFaults ++ rightFaults ++ comparisonFault operator left right)
  | .error note => (.error { note with ty := Ty.undefined }, [])

def checkAll (names : Names) (hints : List Prim) : List Expr → List Expr × List Diagnostic
  | [] => ([], [])
  | expr :: rest =>
    let (expr, faults) := expr.check names hints.head?
    let (rest, others) := checkAll names hints.tail rest
    (expr :: rest, faults ++ others)

def checkEach (names : Names) (expected : Prim) : List Expr → List Expr × List Diagnostic
  | [] => ([], [])
  | expr :: rest =>
    let (expr, faults) := expr.check names (some expected)
    let (rest, others) := checkEach names expected rest
    (expr :: rest, faults ++ mismatch expected expr ++ others)

end

def checkAs (names : Names) (expected : Prim) (expr : Expr) : Expr × List Diagnostic :=
  let (expr, faults) := expr.check names (some expected)
  (expr, faults ++ mismatch expected expr)

/-- The number that a checked expression denotes before any script runs. -/
def constant? (symbols : SymbolTable) : Expr → Option Int32
  | .int _ value | .coordgrid _ value => some value
  | .bool _ value => some (Value.ofBool value)
  | .null _ => some (-1)
  | .constant _ name => do (← symbols.constant? name.text).value.asInt?
  | .bare _ _ config => config.map Int32.ofNat
  | _ => none

end Expr

end TriggerScript
