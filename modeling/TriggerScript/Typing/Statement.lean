import TriggerScript.Typing.Expression

/-!
Types of statements.

Checking goes through the statements of a script in their order and carries what was declared so
far. Bodies of blocks, branches, loops and cases have frames of their own. When a script runs out of
array slots, nothing behind that declaration is checked.
-/

namespace TriggerScript

/-- What stays the same for all statements of a body. -/
structure Surroundings where
  symbols : SymbolTable
  returns : List Prim
  inLoop : Bool

/-- What was declared and found so far. -/
structure Checking where
  scope : Scope
  arrays : ArrayTable
  nextLocal : Nat
  faults : List Diagnostic
  halted : Bool

namespace Checking

def start (capacity : Nat) : Checking := ⟨Scope.empty, ArrayTable.empty capacity, 0, [], false⟩

def note (state : Checking) (faults : List Diagnostic) : Checking :=
  { state with faults := state.faults ++ faults }

def names (state : Checking) (symbols : SymbolTable) : Names := ⟨symbols, state.scope, state.arrays⟩

/-- Declare a variable. It gets a number of its own even if its name is taken. -/
def declare (state : Checking) (name : Ident) (prim : Prim) : Local × Checking :=
  let target : Local := ⟨state.nextLocal, name.text, prim⟩
  let state := { state with nextLocal := state.nextLocal + 1 }
  match state.scope.declare target with
  | some scope => (target, { state with scope })
  | none => (target, state.note (Expr.fault (.duplicateLocal name.text) name.span))

def declareArray (state : Checking) (name : Ident) (prim : Prim) : Option Nat × Checking :=
  match state.arrays.define name.text prim with
  | .ok (some slot, arrays) => (some slot, { state with arrays })
  | .ok (none, _) => (none, state.note (Expr.fault (.duplicateArray name.text) name.span))
  | .error cause => (none, { state.note (Expr.fault cause name.span) with halted := true })

def enter (state : Checking) : Checking := { state with scope := state.scope.enter }

def leaveTo (scope : Scope) (state : Checking) : Checking := { state with scope }

end Checking

/-- Check the keys of a case against those seen before. The values of new keys are kept. -/
def Arm.checkKeys (names : Names) (prim : Prim) :
    List Expr → List Int32 → List Expr × List Int32 × List Diagnostic
  | [], _ => ([], [], [])
  | key :: rest, seen =>
    let (key, faults) := key.checkAs names prim
    let (value, faults) :=
      if (Ty.single prim).accepts key.ty then
        match key.constant? names.symbols with
        | some value =>
          if seen.contains value then (none, faults ++ Expr.fault .duplicateCase key.span)
          else (some value, faults)
        | none => (none, faults ++ Expr.fault .caseNotConstant key.span)
      else (none, faults)
    let (rest, values, others) := checkKeys names prim rest (seen ++ value.toList)
    (key :: rest, value.toList ++ values, faults ++ others)

namespace Stmt

def loopFault (surroundings : Surroundings) (control : LoopControl) (span : Span) :
    List Diagnostic :=
  if surroundings.inLoop then [] else Expr.fault (.outsideLoop control) span

def valuesFault (expected : List Prim) (values : List Expr) (span : Span) : List Diagnostic :=
  Expr.listFault expected values
    (fun actual => .typeMismatch (Ty.ofList actual) (Ty.ofList expected)) span

def isArrayElement : Expr → Bool
  | .arrayElement _ _ _ _ => true
  | _ => false

def targetType? (target : Expr) : Option Prim :=
  target.ty.prim?.filter fun prim => prim ≠ .undefined

def checkAssign (names : Names) (span : Span) (targets values : List Expr) :
    Stmt × List Diagnostic :=
  let alone :=
    if targets.length > 1 && targets.any isArrayElement then
      Expr.fault .arrayElementAmongTargets span
    else []
  let (targets, targetFaults) := Expr.checkAll names [] targets
  let expected := targets.filterMap targetType?
  let (values, valueFaults) := Expr.checkAll names (Expr.hintsFor expected values) values
  let differing :=
    if expected.length = targets.length then valuesFault expected values span else []
  (.assign span targets values, alone ++ targetFaults ++ valueFaults ++ differing)

/-- Check a part in a frame of its own, unless checking has stopped. -/
def framed {α : Type} (part : α) (run : Checking → α × Checking) (state : Checking) :
    α × Checking :=
  if state.halted then (part, state)
  else
    let (part, behind) := run state.enter
    (part, behind.leaveTo state.scope)

mutual

def check (surroundings : Surroundings) : Stmt → Checking → Stmt × Checking
  | .block span inner body, state =>
    let (body, state) := framed body (checkAll surroundings body) state
    (.block span inner body, state)
  | .ifThen span condition body, state =>
    let (condition, faults) := condition.checkAs (state.names surroundings.symbols) .boolean
    let (body, state) := framed body (check surroundings body) (state.note faults)
    (.ifThen span condition body, state)
  | .ifElse span condition body otherwise, state =>
    let (condition, faults) := condition.checkAs (state.names surroundings.symbols) .boolean
    let (body, state) := framed body (check surroundings body) (state.note faults)
    let (otherwise, state) := framed otherwise (check surroundings otherwise) state
    (.ifElse span condition body otherwise, state)
  | .whileLoop span condition body, state =>
    let (condition, faults) := condition.checkAs (state.names surroundings.symbols) .boolean
    let (body, state) :=
      framed body (check { surroundings with inLoop := true } body) (state.note faults)
    (.whileLoop span condition body, state)
  | .continueLoop span, state =>
    (.continueLoop span, state.note (loopFault surroundings .again span))
  | .breakLoop span, state => (.breakLoop span, state.note (loopFault surroundings .leave span))
  | .return span values, state =>
    let names := state.names surroundings.symbols
    let (values, faults) := Expr.checkAll names (Expr.hintsFor surroundings.returns values) values
    (.return span values, state.note (faults ++ valuesFault surroundings.returns values span))
  | .declare span prim name init _, state =>
    let illegal := if prim.isDeclarable then [] else Expr.fault (.illegalType prim) span
    let state := state.note illegal
    let (init, state) :=
      match init with
      | none => (none, state)
      | some init =>
        let (init, faults) := init.checkAs (state.names surroundings.symbols) prim
        (some init, state.note faults)
    let (target, state) := state.declare name prim
    (.declare span prim name init (some target), state)
  | .declareArray span prim name size given, state =>
    let illegal := if prim.isArrayable then [] else Expr.fault (.illegalArrayType prim) span
    let (size, faults) := size.checkAs (state.names surroundings.symbols) .int
    let (slot, state) := (state.note (illegal ++ faults)).declareArray name prim
    (.declareArray span prim name size (slot <|> given), state)
  | .assign span targets values, state =>
    let (stmt, faults) := checkAssign (state.names surroundings.symbols) span targets values
    (stmt, state.note faults)
  | .switch span prim condition arms fallback, state =>
    let illegal :=
      if prim.stack? = some .int then [] else Expr.fault (.illegalSwitchType prim) condition.span
    let (condition, faults) := condition.checkAs (state.names surroundings.symbols) prim
    let (arms, state) := checkArms surroundings prim arms [] (state.note (illegal ++ faults))
    let (fallback, state) := checkFallback surroundings fallback state
    (.switch span prim condition arms fallback, state)
  | .expr span value, state =>
    let (value, faults) := value.check (state.names surroundings.symbols) none
    (.expr span value, state.note faults)

def checkAll (surroundings : Surroundings) : List Stmt → Checking → List Stmt × Checking
  | [], state => ([], state)
  | stmt :: rest, state =>
    if state.halted then (stmt :: rest, state)
    else
      let (stmt, state) := stmt.check surroundings state
      let (rest, state) := checkAll surroundings rest state
      (stmt :: rest, state)

/-- Check the cases of a switch. No two keys have the same value. -/
def checkArms (surroundings : Surroundings) (prim : Prim) :
    List Arm → List Int32 → Checking → List Arm × Checking
  | [], _, state => ([], state)
  | .mk span inner keys given body :: rest, seen, state =>
    if state.halted then (.mk span inner keys given body :: rest, state)
    else
      let (keys, values, faults) := Arm.checkKeys (state.names surroundings.symbols) prim keys seen
      let (body, state) := framed body (checkAll surroundings body) (state.note faults)
      let (rest, state) := checkArms surroundings prim rest (seen ++ values) state
      (.mk span inner keys values body :: rest, state)

def checkFallback (surroundings : Surroundings) : Option Arm → Checking → Option Arm × Checking
  | none, state => (none, state)
  | some (.mk span inner keys values body), state =>
    let (body, state) := framed body (checkAll surroundings body) state
    (some (.mk span inner keys values body), state)

end

end Stmt

namespace Script

/-- The faults of annotations that repeat the name of an earlier one. -/
def annotationFaults (seen : List String) : List Annotation → List Diagnostic
  | [] => []
  | entry :: rest =>
    if seen.contains entry.name.text then
      Expr.fault (.annotationTwice entry.name.text) entry.span ++ annotationFaults seen rest
    else
      annotationFaults (seen ++ [entry.name.text]) rest

def declareParams : List Param → Checking → List Param × Checking
  | [], state => ([], state)
  | param :: rest, state =>
    let (target, state) := state.declare param.name param.prim
    let (rest, state) := declareParams rest state
    ({ param with target := some target } :: rest, state)

def check (symbols : SymbolTable) (capacity : Nat) (script : Script) : Script × List Diagnostic :=
  let state := (Checking.start capacity).note (annotationFaults [] script.annotations)
  let (params, state) := declareParams script.params state
  let surroundings : Surroundings := ⟨symbols, script.returns.flatten, false⟩
  let (body, state) := Stmt.checkAll surroundings script.body state
  ({ script with params, body }, state.faults)

end Script

end TriggerScript
