import TriggerScript.Code.Emission
import TriggerScript.Trigger
import TriggerScript.Typing.Expression

/-!
Code for checked scripts.

Every expression leaves its values on the stacks of their types, in order. Emitted for control, it
leaves nothing and jumps to one of two labels. A comparison is always emitted for control and, where
its value is wanted, pushes one or zero behind the jumps. Logical operators evaluate their right
operand only if it decides.
-/

namespace TriggerScript

/-- What code refers to outside a script. -/
structure Linkage where
  symbols : SymbolTable
  triggers : Triggers

/-- What the value of an expression is wanted for. -/
inductive Purpose where
  | value
  | control (ifTrue ifFalse : Label)

def Domain.pushOpcode : Domain → Opcode
  | player => .pushVarp
  | playerBit => .pushVarpBit
  | clientInt => .pushVarcInt
  | clientString => .pushVarcString

def Domain.popOpcode : Domain → Opcode
  | player => .popVarp
  | playerBit => .popVarpBit
  | clientInt => .popVarcInt
  | clientString => .popVarcString

def Operator.arithmeticOpcode : Operator → Opcode
  | sub => .sub
  | mul => .mul
  | div => .div
  | mod => .mod
  | _ => .add

def Operator.branchOpcode (long : Bool) : Operator → Opcode
  | equals => if long then .longBranchEquals else .branchEquals
  | notEquals => if long then .longBranchNot else .branchNot
  | lessThan => if long then .longBranchLessThan else .branchLessThan
  | greaterThan => if long then .longBranchGreaterThan else .branchGreaterThan
  | lessThanOrEqual => if long then .longBranchLessThanOrEquals else .branchLessThanOrEquals
  | _ => if long then .longBranchGreaterThanOrEquals else .branchGreaterThanOrEquals

namespace Expr

def deliver (push : Emit Unit) : Purpose → Emit Unit
  | .value => push
  | .control ifTrue ifFalse => do
    push
    .jump .branchIfTrue ifTrue
    .jump .branch ifFalse

def decideFor (jump : Label → Label → Emit Unit) : Purpose → Emit Unit
  | .control ifTrue ifFalse => jump ifTrue ifFalse
  | .value => do
    let ifTrue ← Emit.freshLabel "cond_true"
    let ifFalse ← Emit.freshLabel "cond_false"
    let done ← Emit.freshLabel "cond_end"
    jump ifTrue ifFalse
    .bindLabel ifTrue
    .pushInt 1
    .jump .branch done
    .bindLabel ifFalse
    .pushInt 0
    .bindLabel done

def emitNull (note : Note) : Emit Unit := do
  let prim ← Emit.demand note.ty.prim? .untypedNull note.span
  match ← Emit.stackOf prim note.span with
  | .int => .pushInt (-1)
  | .string => .core .pushStringConstant (.text "")
  | .long => .core .pushLongConstant (.long (-1))

def emitLocal (target : Option Local) (span : Span) : Emit Unit := do
  let target ← Emit.demand target .unresolvedLocal span
  let stack ← Emit.stackOf target.prim span
  .core (.pushLocal stack) (.localVar target)

def emitGlobal (linkage : Linkage) (name : Ident) (span : Span) : Emit Unit := do
  let info ← Emit.demand (linkage.symbols.global? name.text) (.unknownGlobal name.text) span
  .core info.domain.pushOpcode (.int info.id)

def emitConstant (linkage : Linkage) (name : Ident) (span : Span) : Emit Unit := do
  let info ← Emit.demand (linkage.symbols.constant? name.text) (.unknownConstant name.text) span
  .pushValue info.value

def emitCommand (linkage : Linkage) (name : Ident) (alternative : Bool) (args : Emit Unit)
    (span : Span) : Emit Unit := do
  let info ← Emit.demand (linkage.symbols.command? name.text) (.unknownCommand name.text) span
  args
  .instruction ⟨.command info.name info.opcode, .int (Value.ofBool alternative)⟩

def emitCall (linkage : Linkage) (trigger : String) (name : Ident) (args : Emit Unit)
    (span : Span) :
    Emit Unit := do
  let info ←
    Emit.demand (linkage.symbols.script? trigger name.text) (.unknownScript trigger name.text) span
  let call ←
    Emit.demand ((linkage.triggers.named? trigger).bind Trigger.call) (.uncallableTrigger trigger)
      span
  args
  .core call.opcode (.script trigger name.text (Int32.ofNat info.id))

def hookSignature (args : List Expr) : String :=
  String.ofList ((args.flatMap fun arg => arg.ty.flatten).map Prim.code)

def emitHook (linkage : Linkage) (name : Ident) (args : Emit Unit) (signature : String)
    (span : Span) : Emit Unit := do
  let info ←
    Emit.demand (linkage.symbols.script? hookTrigger name.text) (.unknownHookTarget name.text) span
  .pushInt (Int32.ofNat info.id)
  args
  .core .pushStringConstant (.text signature)

/-- A number of parts as an operand, which has to fit a word. -/
def partCount? (parts : List Expr) : Option Int32 :=
  if parts.length ≤ Int32.maxValue.toInt then some (Int32.ofNat parts.length) else none

def isLong (expr : Expr) : Bool := expr.ty.prim? = some .long

mutual

def emit (linkage : Linkage) : Expr → Purpose → Emit Unit
  | .int _ value, purpose | .coordgrid _ value, purpose => deliver (.pushInt value) purpose
  | .bool _ value, purpose => deliver (.core .pushIntConstant (.bool value)) purpose
  | .long _ value, purpose => deliver (.core .pushLongConstant (.long value)) purpose
  | .text _ value, purpose => deliver (.core .pushStringConstant (.text value)) purpose
  | .null note, purpose => deliver (emitNull note) purpose
  | .localVar note _ target, purpose => deliver (emitLocal target note.span) purpose
  | .arrayElement note _ index slot, purpose =>
    let element : Emit Unit := do
      let slot ← Emit.demand slot .unassignedArray note.span
      index.emit linkage .value
      .core .pushArrayInt (.int (Int32.ofNat slot))
    deliver element purpose
  | .global note name, purpose => deliver (emitGlobal linkage name note.span) purpose
  | .constant note name, purpose => deliver (emitConstant linkage name note.span) purpose
  | .bare _ _ (some id), purpose => deliver (.pushInt (Int32.ofNat id)) purpose
  | .bare note name none, purpose =>
    deliver (emitCommand linkage name false (pure ()) note.span) purpose
  | .command note name alternative args, purpose =>
    deliver (emitCommand linkage name alternative (emitAll linkage args) note.span) purpose
  | .call note trigger name args, purpose =>
    deliver (emitCall linkage trigger name (emitAll linkage args) note.span) purpose
  | .emptyHook _, purpose => deliver (.core .pushStringConstant (.text "")) purpose
  | .hook note name args, purpose =>
    deliver (emitHook linkage name (emitAll linkage args) (hookSignature args) note.span) purpose
  | .concat note parts, purpose =>
    let joined : Emit Unit := do
      emitAll linkage parts
      let count ← Emit.demand (partCount? parts) .tooManyParts note.span
      .core .joinString (.int count)
    deliver joined purpose
  | .calculation _ inner, purpose => deliver (inner.emit linkage .value) purpose
  | .binary _ operator left right, purpose =>
    if operator.isArithmetic then
      let computed : Emit Unit := do
        left.emit linkage .value
        right.emit linkage .value
        .core operator.arithmeticOpcode (.int 0)
      deliver computed purpose
    else
      let jump (ifTrue ifFalse : Label) : Emit Unit := do
        match operator with
        | .or =>
          let next ← Emit.freshLabel "or_else"
          left.emit linkage (.control ifTrue next)
          .bindLabel next
          right.emit linkage (.control ifTrue ifFalse)
        | .and =>
          let next ← Emit.freshLabel "and_next"
          left.emit linkage (.control next ifFalse)
          .bindLabel next
          right.emit linkage (.control ifTrue ifFalse)
        | _ =>
          left.emit linkage .value
          right.emit linkage .value
          .jump (operator.branchOpcode left.isLong) ifTrue
          .jump .branch ifFalse
      decideFor jump purpose
  | .error note, _ => Emit.fail .errorNode note.span

def emitAll (linkage : Linkage) : List Expr → Emit Unit
  | [] => pure ()
  | expr :: rest => do
    expr.emit linkage .value
    emitAll linkage rest

end

def emitStore (linkage : Linkage) : Expr → Emit Unit
  | .localVar note _ target => do
    let target ← Emit.demand target .unresolvedLocal note.span
    let stack ← Emit.stackOf target.prim note.span
    .core (.popLocal stack) (.localVar target)
  | .global note name => do
    let info ← Emit.demand (linkage.symbols.global? name.text) (.unknownGlobal name.text) note.span
    .core info.domain.popOpcode (.int info.id)
  | target => Emit.fail .notAssignable target.span

end Expr

/-- Where the loop words of a body go. -/
structure LoopTargets where
  again : Label
  leave : Label

namespace Stmt

/-- Pop and forget the values that an expression leaves, the last one first. -/
def emitDiscards (span : Span) : List Prim → Emit Unit
  | [] => pure ()
  | prim :: rest => do
    let stack ← Emit.stackOf prim span
    .core (.discard stack) (.int 0)
    emitDiscards span rest

/-- An element of an array is stored on its own, its index before its value; other targets are
stored from the last to the first. -/
def emitAssign (linkage : Linkage) (targets values : List Expr) : Emit Unit := do
  match targets with
  | [.arrayElement note _ index slot] =>
    let slot ← Emit.demand slot .unassignedArray note.span
    index.emit linkage .value
    Expr.emitAll linkage values
    .core .popArrayInt (.int (Int32.ofNat slot))
  | targets =>
    Expr.emitAll linkage values
    targets.reverse.forM (Expr.emitStore linkage)

def emitDeclare (linkage : Linkage) (span : Span) (prim : Prim) (init : Option Expr)
    (target : Option Local) : Emit Unit := do
  let target ← Emit.demand target .unresolvedLocal span
  let stack ← Emit.stackOf prim span
  match init with
  | some init => init.emit linkage .value
  | none => .pushDefault prim span
  .addVariable stack target
  .core (.popLocal stack) (.localVar target)

/-- Define an array. The operand holds its slot and the letter of its type. -/
def emitDeclareArray (linkage : Linkage) (span : Span) (prim : Prim) (size : Expr)
    (slot : Option Nat) : Emit Unit := do
  let slot ← Emit.demand slot .unassignedArray span
  size.emit linkage .value
  .core .defineArray (.int (Int32.ofNat (slot <<< 16 ||| prim.code.toNat)))

mutual

def emit (linkage : Linkage) : Stmt → Option LoopTargets → Emit Unit
  | .block _ _ body, loop => emitAll linkage body loop
  | .ifThen _ condition body, loop => do
    let ifTrue ← Emit.freshLabel "if_true"
    let done ← Emit.freshLabel "if_end"
    condition.emit linkage (.control ifTrue done)
    .bindLabel ifTrue
    body.emit linkage loop
    .bindLabel done
  | .ifElse _ condition body otherwise, loop => do
    let ifTrue ← Emit.freshLabel "if_true"
    let ifElse ← Emit.freshLabel "if_else"
    let done ← Emit.freshLabel "if_end"
    condition.emit linkage (.control ifTrue ifElse)
    .bindLabel ifTrue
    body.emit linkage loop
    .jumpIfOpen done
    .bindLabel ifElse
    otherwise.emit linkage loop
    .bindLabel done
  | .whileLoop _ condition body, _ => do
    let again ← Emit.freshLabel "while_start"
    let inner ← Emit.freshLabel "while_body"
    let done ← Emit.freshLabel "while_end"
    .bindLabel again
    condition.emit linkage (.control inner done)
    .bindLabel inner
    body.emit linkage (some ⟨again, done⟩)
    .jumpIfOpen again
    .bindLabel done
  | .continueLoop span, loop => do
    let targets ← Emit.demand loop .strayLoopControl span
    .jump .branch targets.again
  | .breakLoop span, loop => do
    let targets ← Emit.demand loop .strayLoopControl span
    .jump .branch targets.leave
  | .return _ values, _ => do
    Expr.emitAll linkage values
    .core .returnFlow (.int 0)
  | .declare span prim _ init target, _ => emitDeclare linkage span prim init target
  | .declareArray span prim _ size slot, _ => emitDeclareArray linkage span prim size slot
  | .assign _ targets values, _ => emitAssign linkage targets values
  | .switch _ _ condition arms fallback, loop => do
    condition.emit linkage .value
    let index ← Emit.reserveTable
    .core .switch (.switch index)
    let done ← Emit.freshLabel "switch_end"
    match fallback with
    | none =>
      .jump .branch done
      let cases ← emitArms linkage arms loop done
      .bindLabel done
      .setTable index ⟨cases⟩
    | some arm =>
      let otherwise ← Emit.freshLabel "switch_default"
      .jump .branch otherwise
      let cases ← emitArms linkage arms loop done
      .bindLabel otherwise
      emitArm linkage arm loop
      .bindLabel done
      .setTable index ⟨cases ++ [⟨[], otherwise⟩]⟩
  | .expr _ value, _ => do
    value.emit linkage .value
    emitDiscards value.span value.ty.flatten.reverse

def emitAll (linkage : Linkage) : List Stmt → Option LoopTargets → Emit Unit
  | [], _ => pure ()
  | stmt :: rest, loop => do
    stmt.emit linkage loop
    emitAll linkage rest loop

def emitArm (linkage : Linkage) : Arm → Option LoopTargets → Emit Unit
  | .mk _ _ _ _ body, loop => emitAll linkage body loop

/-- Emit the cases of a switch, each in a block of its own that ends by leaving the switch. -/
def emitArms (linkage : Linkage) : List Arm → Option LoopTargets → Label → Emit (List SwitchCase)
  | [], _, _ => pure []
  | .mk _ _ _ values body :: rest, loop, done => do
    let label ← Emit.freshLabel "switch_case"
    .bindLabel label
    emitAll linkage body loop
    .jumpIfOpen done
    return ⟨values, label⟩ :: (← emitArms linkage rest loop done)

end

end Stmt

namespace Script

def emitParams : List Param → Emit Unit
  | [] => pure ()
  | param :: rest => do
    let target ← Emit.demand param.target .unresolvedLocal param.span
    let stack ← Emit.stackOf target.prim param.span
    .addParam stack target
    emitParams rest

/-- Emit a script. One that does not end in a return gives the defaults of what it returns. -/
def emit (linkage : Linkage) (script : Script) : Emit Unit := do
  emitParams script.params
  Stmt.emitAll linkage script.body none
  if !(← get).current.endsFlow then
    script.returns.flatten.forM fun prim => .pushDefault prim script.span
    .core .returnFlow (.int 0)

def generate (linkage : Linkage) (script : Script) : Except Diagnostic Routine := do
  let (_, emission) ← (script.emit linkage).run Emission.start
  return ⟨script.key, emission.blocks, emission.tables, emission.locals⟩

end Script

end TriggerScript
