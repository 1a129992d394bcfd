import TriggerScript.Proofs.Generation.Endings
import TriggerScript.Proofs.Generation.Routines

/-!
When code can be generated.

Generation fails only where something that a node of the tree needs is missing: a symbol, a
variable, a stack for a type, a loop around a loop word, a place to store into, or a word for a
count. What was emitted before does not matter.
-/

namespace TriggerScript

open List

variable {linkage : Linkage}

-- The statements of a sequence are instances within instances.
set_option synthInstance.maxSize 1000

namespace Emit

variable {α β : Type}

/-- The emission does not fail, whatever was emitted before. -/
class Succeeds (emit : Emit α) : Prop where
  run_ok : ∀ before, ∃ value after, emit.run before = .ok (value, after)

instance {first : Emit α} {next : α → Emit β} [succeeds : first.Succeeds]
    [later : ∀ value, (next value).Succeeds] : (first >>= next).Succeeds := by
  constructor
  intro before
  obtain ⟨value, middle, here⟩ := succeeds.run_ok before
  obtain ⟨result, after, behind⟩ := (later value).run_ok middle
  exact ⟨result, after, run_bind_eq_ok.mpr ⟨value, middle, here, behind⟩⟩

instance (value : α) : (pure value : Emit α).Succeeds := ⟨fun before => ⟨value, before, rfl⟩⟩

theorem succeeds_demand {span : Span} {next : α → Emit β} (known : value = some found)
    (later : (next found).Succeeds) : (demand value cause span >>= next).Succeeds := by
  rw [known]
  exact later

theorem succeeds_known {span : Span} {next : α → Emit β} (known : value.isSome = true)
    (later : ∀ found, (next found).Succeeds) : (demand value cause span >>= next).Succeeds := by
  obtain ⟨found, known⟩ := Option.isSome_iff_exists.mp known
  exact succeeds_demand known (later found)

instance (added : Instruction) : (instruction added).Succeeds :=
  ⟨fun before => ⟨(), before.add added, rfl⟩⟩

instance (opcode : Opcode) (operand : Operand) : (core opcode operand).Succeeds :=
  inferInstanceAs (instruction _).Succeeds

instance (opcode : Opcode) (target : Label) : (jump opcode target).Succeeds :=
  inferInstanceAs (core _ _).Succeeds

instance (value : Int32) : (pushInt value).Succeeds := inferInstanceAs (core _ _).Succeeds

instance (value : Value) : (pushValue value).Succeeds := by
  cases value <;> exact inferInstanceAs (core _ _).Succeeds

theorem succeeds_push_default {prim : Prim} (declarable : prim.isDeclarable = true) (span : Span) :
    (pushDefault prim span).Succeeds := by
  have starts : ∃ value, prim.default? = some value := by
    cases prim <;> first | exact ⟨_, rfl⟩ | cases declarable
  obtain ⟨value, starts⟩ := starts
  exact succeeds_demand starts inferInstance

instance (name : String) : (freshLabel name).Succeeds := ⟨fun before => ⟨_, before.skip 1, rfl⟩⟩

instance (label : Label) : (bindLabel label).Succeeds :=
  ⟨fun before => ⟨(), before.bind label, rfl⟩⟩

instance (target : Label) : (jumpIfOpen target).Succeeds :=
  ⟨fun before => ⟨(), before.leave target, run_jump_if_open_eq_ok.mpr rfl⟩⟩

instance : reserveTable.Succeeds := ⟨fun before => ⟨_, before.reserve, rfl⟩⟩

instance (index : Nat) (table : SwitchTable) : (setTable index table).Succeeds :=
  ⟨fun before => ⟨(), before.fill index table, rfl⟩⟩

instance (stack : Stack) (target : Local) : (addVariable stack target).Succeeds :=
  ⟨fun before => ⟨(), before.register stack target, rfl⟩⟩

instance (stack : Stack) (target : Local) : (addParam stack target).Succeeds :=
  ⟨fun _ => ⟨(), _, rfl⟩⟩

theorem succeeds_for_each {items : List α} {emit : α → Emit Unit}
    (each : ∀ item ∈ items, (emit item).Succeeds) : (items.forM emit).Succeeds := by
  induction items with
  | nil => exact inferInstanceAs (pure () : Emit Unit).Succeeds
  | cons item rest ih =>
    obtain ⟨here, others⟩ := forall_mem_cons.mp each
    have later := ih others
    rw [forM_eq_forM] at later ⊢
    rw [forM_cons]
    infer_instance

end Emit

open Emit

namespace Expr

/-- What the code of the expression needs itself is there. -/
def HasCode (linkage : Linkage) : Expr → Prop
  | .null note => ∃ prim stack, note.ty.prim? = some prim ∧ prim.stack? = some stack
  | .localVar _ _ target => ∃ source stack, target = some source ∧ source.prim.stack? = some stack
  | .arrayElement _ _ _ slot => slot.isSome = true
  | .global _ name => (linkage.symbols.global? name.text).isSome = true
  | .constant _ name => (linkage.symbols.constant? name.text).isSome = true
  | .bare _ name none => (linkage.symbols.command? name.text).isSome = true
  | .command _ name _ _ => (linkage.symbols.command? name.text).isSome = true
  | .call _ trigger name _ => (linkage.symbols.script? trigger name.text).isSome = true ∧
    ((linkage.triggers.named? trigger).bind Trigger.call).isSome = true
  | .hook _ name _ => (linkage.symbols.script? hookTrigger name.text).isSome = true
  | .concat _ parts => (partCount? parts).isSome = true
  | .error _ => False
  | _ => True

theorem deliver_succeeds {push : Emit Unit} (succeeds : push.Succeeds) (purpose : Purpose) :
    (deliver push purpose).Succeeds := by
  cases purpose <;> rw [deliver] <;> infer_instance

instance (jump : Label → Label → Emit Unit) [∀ ifTrue ifFalse, (jump ifTrue ifFalse).Succeeds]
    (purpose : Purpose) : (decideFor jump purpose).Succeeds := by
  cases purpose <;> rw [decideFor] <;> infer_instance

theorem emit_all_succeeds (each : ∀ expr ∈ exprs, (expr.emit linkage .value).Succeeds) :
    (emitAll linkage exprs).Succeeds := by
  induction exprs with
  | nil =>
    rw [emitAll]
    infer_instance
  | cons expr rest ih =>
    obtain ⟨here, others⟩ := forall_mem_cons.mp each
    have later := ih others
    rw [emitAll]
    infer_instance

/-- An expression is emitted for any purpose if all expressions in it have code. -/
theorem emit_succeeds {expr : Expr} (every : expr.Every (HasCode linkage)) (purpose : Purpose) :
    (expr.emit linkage purpose).Succeeds := by
  induction every generalizing purpose with
  | @intro expr here within ih =>
    have values : ∀ args, (∀ arg ∈ args, arg ∈ expr.parts) → (emitAll linkage args).Succeeds :=
      fun args inside => emit_all_succeeds fun arg member => ih arg (inside arg member) .value
    cases expr with try (rw [emit]; first | refine deliver_succeeds ?_ purpose | skip)
    | int | coordgrid | bool | long | text | emptyHook => infer_instance
    | null note =>
      obtain ⟨prim, stack, typed, lives⟩ := here
      refine succeeds_demand typed (succeeds_demand lives ?_)
      cases stack <;> infer_instance
    | localVar note name target =>
      obtain ⟨source, stack, known, lives⟩ := here
      exact succeeds_demand known (succeeds_demand lives inferInstance)
    | arrayElement note name index slot =>
      have indexed := ih index (mem_singleton_self _) .value
      exact succeeds_known here inferInstance
    | global note name | constant note name => exact succeeds_known here inferInstance
    | bare note name config =>
      cases config with (rw [emit]; refine deliver_succeeds ?_ purpose)
      | some id => infer_instance
      | none => exact succeeds_known here inferInstance
    | command note name alternative args | hook note name args =>
      have values := values args fun _ => id
      exact succeeds_known here inferInstance
    | call note trigger name args =>
      have values := values args fun _ => id
      exact succeeds_known here.1 fun _ => succeeds_known here.2 inferInstance
    | concat note parts =>
      have values := values parts fun _ => id
      have joined : (demand (partCount? parts) .tooManyParts note.span >>= fun count =>
        core .joinString (.int count)).Succeeds := succeeds_known here inferInstance
      infer_instance
    | calculation note inner => exact ih inner (mem_singleton_self _) .value
    | binary note operator left right =>
      have first := ih left mem_cons_self
      have second := ih right (mem_cons_of_mem _ (mem_singleton_self _))
      split
      · exact deliver_succeeds inferInstance purpose
      · cases operator <;> infer_instance
    | error note => exact here.elim

/-- The expression names something into which code can store. -/
def Storable (linkage : Linkage) : Expr → Prop
  | .localVar _ _ target => ∃ source stack, target = some source ∧ source.prim.stack? = some stack
  | .global _ name => (linkage.symbols.global? name.text).isSome = true
  | _ => False

theorem emit_store_succeeds {target : Expr} (storable : target.Storable linkage) :
    (target.emitStore linkage).Succeeds := by
  cases target with
  | localVar note name target =>
    obtain ⟨source, stack, known, lives⟩ := storable
    exact succeeds_demand known (succeeds_demand lives inferInstance)
  | global note name =>
    exact succeeds_known storable inferInstance
  | _ => exact storable.elim

end Expr

namespace Stmt

variable (linkage : Linkage) in
/-- Everything that the code of a statement needs is there, inside or outside a loop. -/
inductive Emittable : Bool → Stmt → Prop where
  | block {span : Span} (parts : ∀ stmt ∈ body, Emittable inLoop stmt) :
      Emittable inLoop (.block span within body)
  | ifThen {inLoop : Bool} {span : Span} {condition : Expr} {body : Stmt}
      (test : condition.Every (Expr.HasCode linkage)) (part : Emittable inLoop body) :
      Emittable inLoop (.ifThen span condition body)
  | ifElse {inLoop : Bool} {span : Span} {condition : Expr} {body otherwise : Stmt}
      (test : condition.Every (Expr.HasCode linkage)) (part : Emittable inLoop body)
      (alternative : Emittable inLoop otherwise) :
      Emittable inLoop (.ifElse span condition body otherwise)
  | whileLoop {inLoop : Bool} {span : Span} {condition : Expr} {body : Stmt}
      (test : condition.Every (Expr.HasCode linkage)) (part : Emittable true body) :
      Emittable inLoop (.whileLoop span condition body)
  | continueLoop {span : Span} : Emittable true (.continueLoop span)
  | breakLoop {span : Span} : Emittable true (.breakLoop span)
  | return {span : Span} (parts : ∀ value ∈ values, value.Every (Expr.HasCode linkage)) :
      Emittable inLoop (.return span values)
  | declare {inLoop : Bool} {span : Span} {prim : Prim} {name : Ident} {init : Option Expr}
      {target : Local} {stack : Stack} (lives : prim.stack? = some stack)
      (part : ∀ expr ∈ init, expr.Every (Expr.HasCode linkage)) :
      Emittable inLoop (.declare span prim name init (some target))
  | declareArray {span : Span} {size : Expr} (part : size.Every (Expr.HasCode linkage)) :
      Emittable inLoop (.declareArray span prim name size (some slot))
  | assignElement {inLoop : Bool} {span : Span} {note : Note} {name : Ident} {index : Expr}
      {slot : Nat}
      {values : List Expr} (place : index.Every (Expr.HasCode linkage))
      (parts : ∀ value ∈ values, value.Every (Expr.HasCode linkage)) :
      Emittable inLoop (.assign span [.arrayElement note name index (some slot)] values)
  | assign {inLoop : Bool} {span : Span} {targets values : List Expr}
      (places : ∀ target ∈ targets, target.Storable linkage)
      (parts : ∀ value ∈ values, value.Every (Expr.HasCode linkage)) :
      Emittable inLoop (.assign span targets values)
  | switch {inLoop : Bool} {span : Span} {prim : Prim} {condition : Expr} {arms : List Arm}
      {fallback : Option Arm} (part : condition.Every (Expr.HasCode linkage))
      (bodies : ∀ arm ∈ arms, ∀ stmt ∈ arm.body, Emittable inLoop stmt)
      (other : ∀ arm ∈ fallback, ∀ stmt ∈ arm.body, Emittable inLoop stmt) :
      Emittable inLoop (.switch span prim condition arms fallback)
  | expr {span : Span} {value : Expr} (part : value.Every (Expr.HasCode linkage))
      (lives : ∀ prim ∈ value.ty.flatten, prim.isDeclarable = true) :
      Emittable inLoop (.expr span value)

theorem emit_discards_succeeds (span : Span) (lives : ∀ prim ∈ prims, prim.isDeclarable = true) :
    (emitDiscards span prims).Succeeds := by
  induction prims with
  | nil => exact inferInstanceAs (pure () : Emit Unit).Succeeds
  | cons prim rest ih =>
    obtain ⟨stack, here⟩ := Option.isSome_iff_exists.mp (lives prim mem_cons_self)
    have later := ih fun other member => lives other (mem_cons_of_mem _ member)
    exact succeeds_demand here inferInstance

theorem emit_values_succeeds (parts : ∀ value ∈ values, value.Every (Expr.HasCode linkage)) :
    (Expr.emitAll linkage values).Succeeds :=
  Expr.emit_all_succeeds fun value member => Expr.emit_succeeds (parts value member) .value

theorem emit_assign_succeeds (places : ∀ target ∈ targets, target.Storable linkage)
    (parts : ∀ value ∈ values, value.Every (Expr.HasCode linkage)) :
    (emitAssign linkage targets values).Succeeds := by
  unfold emitAssign
  split
  · exact (places _ (mem_singleton_self _)).elim
  · have values := emit_values_succeeds parts
    have stores : (targets.reverse.forM (Expr.emitStore linkage)).Succeeds :=
      succeeds_for_each fun target member =>
        Expr.emit_store_succeeds (places target (mem_reverse.mp member))
    infer_instance

theorem emit_declare_succeeds {span : Span} {prim : Prim} (lives : prim.stack? = some stack)
    (part : ∀ expr ∈ init, expr.Every (Expr.HasCode linkage)) :
    (emitDeclare linkage span prim init (some target)).Succeeds := by
  refine succeeds_demand rfl (succeeds_demand lives ?_)
  cases init with
  | some init =>
    have value := Expr.emit_succeeds (part init rfl) .value
    infer_instance
  | none =>
    have declarable : prim.isDeclarable = true := by rw [Prim.isDeclarable, lives]; rfl
    have value := succeeds_push_default declarable span
    infer_instance

theorem emit_all_succeeds (each : ∀ stmt ∈ body, (stmt.emit linkage loop).Succeeds) :
    (emitAll linkage body loop).Succeeds := by
  induction body with
  | nil =>
    rw [emitAll]
    infer_instance
  | cons stmt rest ih =>
    obtain ⟨here, others⟩ := forall_mem_cons.mp each
    have later := ih others
    rw [emitAll]
    infer_instance

theorem emit_arms_succeeds (done : Label)
    (each : ∀ arm ∈ arms, ∀ stmt ∈ arm.body, (stmt.emit linkage loop).Succeeds) :
    (emitArms linkage arms loop done).Succeeds := by
  induction arms with
  | nil =>
    rw [emitArms]
    infer_instance
  | cons arm rest ih =>
    obtain ⟨here, others⟩ := forall_mem_cons.mp each
    obtain ⟨span, within, keys, values, body⟩ := arm
    have first : (emitAll linkage body loop).Succeeds := emit_all_succeeds here
    have later := ih others
    rw [emitArms]
    infer_instance

theorem emit_succeeds {stmt : Stmt} (emittable : stmt.Emittable linkage inLoop)
    {loop : Option LoopTargets} (looped : inLoop = true → loop.isSome = true) :
    (stmt.emit linkage loop).Succeeds := by
  induction emittable generalizing loop with rw [emit]
  | block _ ih =>
    exact emit_all_succeeds fun stmt member => ih stmt member looped
  | ifThen test _ ih =>
    have condition := Expr.emit_succeeds test
    have body := ih looped
    infer_instance
  | ifElse test _ _ ih ih' =>
    have condition := Expr.emit_succeeds test
    have body := ih looped
    have otherwise := ih' looped
    infer_instance
  | whileLoop test _ ih =>
    have condition := Expr.emit_succeeds test
    have body := fun again done : Label =>
      ih (fun _ => rfl : true = true → (some ⟨again, done⟩ : Option _).isSome = true)
    infer_instance
  | continueLoop | breakLoop => exact succeeds_known (looped rfl) inferInstance
  | «return» parts =>
    have values := emit_values_succeeds parts
    infer_instance
  | declare lives part =>
    exact emit_declare_succeeds lives part
  | declareArray part =>
    have size := Expr.emit_succeeds part .value
    exact succeeds_demand rfl inferInstance
  | assignElement place parts =>
    have index := Expr.emit_succeeds place .value
    have values := emit_values_succeeds parts
    exact succeeds_demand rfl inferInstance
  | assign places parts =>
    exact emit_assign_succeeds places parts
  | @switch _ _ _ _ _ fallback part _ _ ih ih' =>
    have condition := Expr.emit_succeeds part .value
    have arms := fun done => emit_arms_succeeds done fun arm member stmt held =>
      ih arm member stmt held looped
    cases fallback with
    | none => infer_instance
    | some arm =>
      obtain ⟨here, within, keys, values, body⟩ := arm
      have fallback : (emitArm linkage (.mk here within keys values body) loop).Succeeds := by
        rw [emitArm]
        exact emit_all_succeeds fun stmt held => ih' _ rfl stmt held looped
      infer_instance
  | expr part lives =>
    have value := Expr.emit_succeeds part .value
    have discards := fun span => emit_discards_succeeds span fun prim member =>
      lives prim (mem_reverse.mp member)
    infer_instance

end Stmt

namespace Script

/-- Everything that the code of a script needs is there. -/
structure Emittable (linkage : Linkage) (script : Script) : Prop where
  params : ∀ param ∈ script.params, ∃ target stack, param.target = some target ∧
    target.prim.stack? = some stack
  body : ∀ stmt ∈ script.body, stmt.Emittable linkage false
  returns : Stmt.closesAll? script.body = some true ∨
    ∀ prim ∈ script.returns.flatten, prim.isDeclarable = true

theorem emit_params_succeeds {params : List Param}
    (each : ∀ param ∈ params, ∃ target stack, param.target = some target ∧
      target.prim.stack? = some stack) :
    (emitParams params).Succeeds := by
  induction params with
  | nil => exact inferInstanceAs (pure () : Emit Unit).Succeeds
  | cons param rest ih =>
    obtain ⟨⟨target, stack, known, lives⟩, others⟩ := forall_mem_cons.mp each
    have later := ih others
    exact succeeds_demand known (succeeds_demand lives inferInstance)

/-- Behind a body that ends the flow nothing is left to do, and behind any other one the defaults
are there. -/
theorem closing_succeeds {script : Script} {before : Emission}
    (returns : before.current.endsFlow = true ∨
      ∀ prim ∈ script.returns.flatten, prim.isDeclarable = true) :
    ∃ after, (if !before.current.endsFlow then do
        script.returns.flatten.forM fun prim => Emit.pushDefault prim script.span
        Emit.core .returnFlow (.int 0)
      else pure () : Emit Unit).run before = .ok ((), after) := by
  cases ended : before.current.endsFlow with
  | true => exact ⟨before, rfl⟩
  | false =>
    have declarable := returns.resolve_left (by simp [ended])
    have defaults := succeeds_for_each fun prim member =>
      succeeds_push_default (declarable prim member) script.span
    have closing : (do
        script.returns.flatten.forM fun prim => Emit.pushDefault prim script.span
        Emit.core .returnFlow (.int 0) : Emit Unit).Succeeds := inferInstance
    obtain ⟨_, after, ran⟩ := closing.run_ok before
    exact ⟨after, ran⟩

theorem generate_succeeds {script : Script} (emittable : script.Emittable linkage) :
    ∃ routine, script.generate linkage = .ok routine := by
  obtain ⟨_, first, listed⟩ := (emit_params_succeeds emittable.params).run_ok Emission.start
  obtain ⟨_, second, body⟩ := (Stmt.emit_all_succeeds fun stmt member =>
    Stmt.emit_succeeds (emittable.body stmt member) fun inside => nomatch inside).run_ok first
  obtain ⟨code, grows, coded⟩ := Stmt.emitsAll _ _ _ _ body
  have closed : second.current.endsFlow = true ∨ ∀ prim ∈ script.returns.flatten,
    prim.isDeclarable = true := by
    refine emittable.returns.imp (fun closes => ?_) id
    have ends : Item.Ends code (Stmt.closesAll? script.body) :=
      (coded _ _ ⟨fun _ _ _ => rfl, .refl _⟩).ends
    rw [closes] at ends
    rw [Emission.ends_flow_eq, grows.items_eq, Item.ends_flow_append _ ends.1, ends.2]
  obtain ⟨final, closing⟩ := closing_succeeds closed
  have ran : (script.emit linkage).run Emission.start = .ok ((), final) := by
    simp only [emit, Emit.run_bind_eq_ok]
    exact ⟨_, first, listed, _, second, body, second, second, rfl, closing⟩
  rw [generate, ran]
  exact ⟨_, rfl⟩

end Script

end TriggerScript
