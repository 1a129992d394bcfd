import TriggerScript.Code.Generation
import TriggerScript.Proofs.Execution.Memory

/-!
Evaluation of checked scripts.

The meaning of a script is given on its tree, without code. An expression leaves its values on the
stacks, from left to right, or decides a condition. A statement says how control leaves it. Loops
are limited to a number of rounds, so that evaluation always ends; a script returns if it does so
within some limit.
-/

namespace TriggerScript

/-- The values of the local variables that have one, by stack and number. -/
abbrev Bindings := (stack : Stack) → Nat → Option stack.Word

def Bindings.set (bindings : Bindings) (stack : Stack) (id : Nat) (word : stack.Word) : Bindings :=
  Function.update bindings stack (Function.update (bindings stack) id (some word))

/-- Arithmetic modulo the size of a word. A division rounds toward zero; there is none by zero. -/
def Operator.calculate? (operator : Operator) (left right : Int32) : Option Int32 :=
  match operator with
  | add => some (Int32.ofInt (left.toInt + right.toInt))
  | sub => some (Int32.ofInt (left.toInt - right.toInt))
  | mul => some (Int32.ofInt (left.toInt * right.toInt))
  | div => if right = 0 then none else some (Int32.ofInt (left.toInt.tdiv right.toInt))
  | mod => if right = 0 then none else some (Int32.ofInt (left.toInt.tmod right.toInt))
  | _ => none

namespace World

variable {ρ : Type}

/-- Replace two numbers by what an operator makes of them. -/
def calculate (operator : Operator) (world : World ρ) : Option (World ρ) := do
  let (right, world) ← world.pop .int
  let (left, world) ← world.pop .int
  return world.push .int (← operator.calculate? left right)

/-- Pop a value of each type, if it lives on a stack. -/
def discard (world : World ρ) : List Prim → Option (World ρ)
  | [] => some world
  | prim :: rest => do
    let (_, world) ← world.pop (← prim.stack?)
    world.discard rest

/-- Push the value with which a variable of each type starts. -/
def pushDefaults (world : World ρ) : List Prim → Option (World ρ)
  | [] => some world
  | prim :: rest => do (world.pushValue (← prim.default?)).pushDefaults rest

end World

/-- What an expression does where its value is wanted, and where it decides. -/
structure Meaning (ρ : Type) where
  value : World ρ → Option (World ρ)
  truth : World ρ → Option (Bool × World ρ)

/-- The truth of the topmost number. -/
def Runtime.popTruth {ρ : Type} (runtime : Runtime ρ) (world : World ρ) : Option (Bool × World ρ) :=
  (world.pop .int).map fun (word, world) => (runtime.isTrue word, world)

namespace Meaning

variable {ρ : Type}

/-- An expression that leaves a value decides by it. -/
def ofValue (runtime : Runtime ρ) (value : World ρ → Option (World ρ)) : Meaning ρ where
  value := value
  truth world := do
    let (word, world) ← (← value world).pop .int
    return (runtime.isTrue word, world)

/-- A decision leaves one or zero. -/
def ofTruth (truth : World ρ → Option (Bool × World ρ)) : Meaning ρ where
  value world := do
    let (decision, world) ← truth world
    return world.push .int (Value.ofBool decision)
  truth := truth

end Meaning

namespace Expr

variable {ρ : Type} (linkage : Linkage) (runtime : Runtime ρ) (bindings : Bindings)

mutual

/-- The meaning of an expression while the local variables have given values. -/
def meaning : Expr → Meaning ρ
  | .int _ value | .coordgrid _ value => .ofValue runtime fun world => some (world.push .int value)
  | .bool _ value => .ofValue runtime fun world => some (world.push .int (Value.ofBool value))
  | .long _ value => .ofValue runtime fun world => some (world.push .long value)
  | .text _ value => .ofValue runtime fun world => some (world.push .string value)
  | .null note => .ofValue runtime fun world => do
    match ← note.ty.prim?.bind Prim.stack? with
    | .int => return world.push .int (-1)
    | .string => return world.push .string ""
    | .long => return world.push .long (-1)
  | .localVar _ _ target => .ofValue runtime fun world => do
    let source ← target
    let stack ← source.prim.stack?
    return world.push stack (← bindings stack source.id)
  | .arrayElement _ _ index slot => .ofValue runtime fun world => do
    runtime.act (.readArray (Int32.ofNat (← slot))) (← index.meaning.value world)
  | .global _ name => .ofValue runtime fun world => do
    let info ← linkage.symbols.global? name.text
    runtime.act (.readGlobal info.domain info.id) world
  | .constant _ name => .ofValue runtime fun world => do
    return world.pushValue (← linkage.symbols.constant? name.text).value
  | .bare _ _ (some id) => .ofValue runtime fun world => some (world.push .int (Int32.ofNat id))
  | .bare _ name none => .ofValue runtime fun world => do
    let info ← linkage.symbols.command? name.text
    runtime.act (.command info.name info.opcode false) world
  | .command _ name alternative args => .ofValue runtime fun world => do
    let info ← linkage.symbols.command? name.text
    runtime.act (.command info.name info.opcode alternative) (← values args world)
  | .call _ trigger name args => .ofValue runtime fun world => do
    let info ← linkage.symbols.script? trigger name.text
    let kind ← (linkage.triggers.named? trigger).bind Trigger.call
    runtime.act (.call kind trigger name.text (Int32.ofNat info.id)) (← values args world)
  | .emptyHook _ => .ofValue runtime fun world => some (world.push .string "")
  | .hook _ name args => .ofValue runtime fun world => do
    let info ← linkage.symbols.script? hookTrigger name.text
    let world ← values args (world.push .int (Int32.ofNat info.id))
    return world.push .string (hookSignature args)
  | .concat _ parts => .ofValue runtime fun world => do (← values parts world).join parts.length
  | .calculation _ inner => .ofValue runtime inner.meaning.value
  | .binary _ operator left right =>
    if operator.isArithmetic then
      .ofValue runtime fun world => do
        (← right.meaning.value (← left.meaning.value world)).calculate operator
    else
      .ofTruth fun world =>
        match operator with
        | .or => do
          let (decision, world) ← left.meaning.truth world
          if decision then return (true, world) else right.meaning.truth world
        | .and => do
          let (decision, world) ← left.meaning.truth world
          if decision then right.meaning.truth world else return (false, world)
        | _ => do
          (← right.meaning.value (← left.meaning.value world)).compare left.isLong operator
  | .error _ => .ofValue runtime fun _ => none

/-- Expressions leave their values one after the other. -/
def values : List Expr → World ρ → Option (World ρ)
  | [], world => some world
  | expr :: rest, world => do values rest (← expr.meaning.value world)

end

/-- A case key has the value of a switch. A key whose type is not known has none: in a checked
script of a batch it is one that could not be read, see `Compiler.keys_choose_by_value`. -/
def isKey (key : Int32) (expr : Expr) (world : World ρ) : Bool :=
  !expr.ty.isUndefined &&
    (((expr.meaning linkage runtime bindings).value world).bind (World.pop .int)).any
      fun (value, _) => value = key

variable {linkage runtime bindings} {note : Note} {left right : Expr}

theorem truth_or :
    ((binary note .or left right).meaning linkage runtime bindings).truth = fun world =>
      ((left.meaning linkage runtime bindings).truth world).bind fun (decision, world) =>
        if decision = false then (right.meaning linkage runtime bindings).truth world else some
          (decision, world) := by
  simp only [meaning]
  exact funext fun _ => congrArg (Option.bind _)
    (funext fun (decision, _) => by cases decision <;> rfl)

theorem truth_and :
    ((binary note .and left right).meaning linkage runtime bindings).truth = fun world =>
      ((left.meaning linkage runtime bindings).truth world).bind fun (decision, world) =>
        if decision = true then (right.meaning linkage runtime bindings).truth world else some
          (decision, world) := by
  simp only [meaning]
  exact funext fun _ => congrArg (Option.bind _)
    (funext fun (decision, _) => by cases decision <;> rfl)

end Expr

/-- How control leaves a statement. -/
inductive Exit where
  | next
  | again
  | leave
  | returned
  deriving DecidableEq

/-- The values of the variables and the world. -/
structure Store (ρ : Type) where
  bindings : Bindings
  world : World ρ

/-- How a statement goes. -/
inductive Course (ρ : Type) where
  | ends (exit : Exit) (store : Store ρ)
  | faults
  /-- A loop has used up its rounds. -/
  | exhausted

namespace Course

variable {ρ : Type}

/-- Go on behind a statement. -/
def andThen (course : Course ρ) (next : Store ρ → Course ρ) : Course ρ :=
  match course with
  | ends .next store => next store
  | other => other

/-- Go on with a result, if there is one. -/
def after {α : Type} (result : Option α) (next : α → Course ρ) : Course ρ :=
  match result with
  | some value => next value
  | none => faults

def rounds (condition : Store ρ → Option (Bool × World ρ)) (body : Store ρ → Course ρ) :
    Nat → Store ρ → Course ρ
  | 0, _ => exhausted
  | count + 1, store =>
    after (condition store) fun (decision, world) =>
      if decision then
        match body { store with world } with
        | ends .next store | ends .again store => rounds condition body count store
        | ends .leave store => ends .next store
        | other => other
      else ends .next { store with world }

end Course

namespace Store

variable {ρ : Type} (linkage : Linkage) (runtime : Runtime ρ)

/-- Take a value from its stack into a variable or to the runtime. -/
def take (store : Store ρ) : Expr → Option (Store ρ)
  | .localVar _ _ target => do
    let target ← target
    let stack ← target.prim.stack?
    let (word, world) ← store.world.pop stack
    return ⟨store.bindings.set stack target.id word, world⟩
  | .global _ name => do
    let info ← linkage.symbols.global? name.text
    return { store with world := ← runtime.act (.writeGlobal info.domain info.id) store.world }
  | _ => none

def takeAll (store : Store ρ) : List Expr → Option (Store ρ)
  | [] => some store
  | target :: rest => do takeAll (← store.take linkage runtime target) rest

/-- The index of an array element comes before the values; several targets are stored from the last
to the first. -/
def assign (store : Store ρ) (targets values : List Expr) : Option (Store ρ) :=
  match targets with
  | [.arrayElement _ _ index slot] => do
    let world ← (index.meaning linkage runtime store.bindings).value store.world
    let world ← Expr.values linkage runtime store.bindings values world
    return { store with world := ← runtime.act (.writeArray (Int32.ofNat (← slot))) world }
  | targets => do
    let world ← Expr.values linkage runtime store.bindings values store.world
    takeAll linkage runtime { store with world } targets.reverse

/-- A variable without a given value starts with that of its type. -/
def declare (store : Store ρ) (prim : Prim) (init : Option Expr) (target : Option Local) :
    Option (Store ρ) := do
  let target ← target
  let stack ← prim.stack?
  let world ← match init with
    | some init => (init.meaning linkage runtime store.bindings).value store.world
    | none => store.world.pushDefaults [prim]
  let (word, world) ← world.pop stack
  return ⟨store.bindings.set stack target.id word, world⟩

end Store

namespace Stmt

variable {ρ : Type} (linkage : Linkage) (runtime : Runtime ρ)

variable (limit : Nat)

mutual

/-- Run a statement, with so many rounds for each loop. -/
def run : Stmt → Store ρ → Course ρ
  | .block _ _ body, store => runAll body store
  | .ifThen _ condition body, store =>
    .after ((condition.meaning linkage runtime store.bindings).truth store.world)
      fun (decision, world) =>
        if decision then body.run { store with world } else .ends .next { store with world }
  | .ifElse _ condition body otherwise, store =>
    .after ((condition.meaning linkage runtime store.bindings).truth store.world)
      fun (decision, world) =>
        if decision then body.run { store with world } else otherwise.run { store with world }
  | .whileLoop _ condition body, store =>
    .rounds (fun store => (condition.meaning linkage runtime store.bindings).truth store.world)
      body.run limit store
  | .continueLoop _, store => .ends .again store
  | .breakLoop _, store => .ends .leave store
  | .return _ values, store =>
    .after (Expr.values linkage runtime store.bindings values store.world)
      fun world => .ends .returned { store with world }
  | .declare _ prim _ init target, store =>
    .after (store.declare linkage runtime prim init target) (.ends .next)
  | .declareArray _ prim _ size slot, store =>
    let defined : Option (World ρ) := do
      let world ← (size.meaning linkage runtime store.bindings).value store.world
      runtime.act (.defineArray (Int32.ofNat ((← slot) <<< 16 ||| prim.code.toNat))) world
    .after defined fun world => .ends .next { store with world }
  | .assign _ targets values, store =>
    .after (store.assign linkage runtime targets values) (.ends .next)
  | .switch _ _ condition arms fallback, store =>
    let key : Option (Int32 × World ρ) := do
      ((← (condition.meaning linkage runtime store.bindings).value store.world).pop .int)
    .after key fun (key, world) =>
      match runArms key arms { store with world } with
      | some course => course
      | none =>
        match fallback with
        | some arm => runArm arm { store with world }
        | none => .ends .next { store with world }
  | .expr _ value, store =>
    let left : Option (World ρ) := do
      (← (value.meaning linkage runtime store.bindings).value store.world).discard
        value.ty.flatten.reverse
    .after left fun world => .ends .next { store with world }

/-- Run statements one after the other. -/
def runAll : List Stmt → Store ρ → Course ρ
  | [], store => .ends .next store
  | stmt :: rest, store => (stmt.run store).andThen (runAll rest)

/-- Run the statements of a case. -/
def runArm : Arm → Store ρ → Course ρ
  | .mk _ _ _ _ body, store => runAll body store

/-- Run the first case with a key that has the value of the switch, if there is one. -/
def runArms (key : Int32) : List Arm → Store ρ → Option (Course ρ)
  | [], _ => none
  | .mk _ _ keys _ body :: rest, store =>
    if keys.any fun expr => expr.isKey linkage runtime store.bindings key store.world then
      some (runAll body store)
    else runArms key rest store

end

end Stmt

namespace Script

variable {ρ : Type} (linkage : Linkage) (runtime : Runtime ρ)

/-- The parameters that live on a stack. -/
def paramsOn (script : Script) (stack : Stack) : List Local :=
  (script.params.filterMap Param.target).filter fun target => target.prim.stack? = some stack

/-- A parameter has the argument at its place among those of its stack. -/
def bind (script : Script) (arguments : Frame) : Bindings := fun stack id =>
  ((script.paramsOn stack).findIdx? fun target => target.id = id).map (arguments stack)

/-- Run a script. One that ends without a return gives the defaults of what it returns. -/
def run (limit : Nat) (script : Script) (arguments : Frame) (world : World ρ) : Course ρ :=
  match Stmt.runAll linkage runtime limit script.body ⟨script.bind arguments, world⟩ with
  | .ends .next store =>
    .after (store.world.pushDefaults script.returns.flatten) fun world =>
      .ends .returned { store with world }
  | .ends .again _ | .ends .leave _ => .faults
  | other => other

/-- The script, called with arguments in a world, returns in another. -/
def Returns (script : Script) (arguments : Frame) (world final : World ρ) : Prop :=
  ∃ limit bindings, script.run linkage runtime limit arguments world =
    .ends .returned ⟨bindings, final⟩

end Script

end TriggerScript
