import Mathlib
import TriggerScript.Config.Tree

/-!
Trees without places.

Two trees are alike if they are the same once every range in them is forgotten.
-/

namespace TriggerScript

def Ident.unplaced (name : Ident) : Ident := { name with span := Span.empty }

def Note.unplaced (note : Note) : Note := { note with span := Span.empty }

/-! ### Expressions -/

namespace Expr

mutual

def unplaced : Expr → Expr
  | .int note value => .int note.unplaced value
  | .long note value => .long note.unplaced value
  | .text note value => .text note.unplaced value
  | .bool note value => .bool note.unplaced value
  | .coordgrid note value => .coordgrid note.unplaced value
  | .null note => .null note.unplaced
  | .localVar note name target => .localVar note.unplaced name.unplaced target
  | .arrayElement note name index slot =>
    .arrayElement note.unplaced name.unplaced index.unplaced slot
  | .global note name => .global note.unplaced name.unplaced
  | .constant note name => .constant note.unplaced name.unplaced
  | .bare note name config => .bare note.unplaced name.unplaced config
  | .command note name alternative args =>
    .command note.unplaced name.unplaced alternative (unplacedAll args)
  | .call note trigger name args => .call note.unplaced trigger name.unplaced (unplacedAll args)
  | .emptyHook note => .emptyHook note.unplaced
  | .hook note name args => .hook note.unplaced name.unplaced (unplacedAll args)
  | .concat note parts => .concat note.unplaced (unplacedAll parts)
  | .calculation note inner => .calculation note.unplaced inner.unplaced
  | .binary note operator left right => .binary note.unplaced operator left.unplaced right.unplaced
  | .error note => .error note.unplaced

def unplacedAll : List Expr → List Expr
  | [] => []
  | expr :: rest => expr.unplaced :: unplacedAll rest

end

theorem unplaced_all_eq (exprs : List Expr) : unplacedAll exprs = exprs.map unplaced := by
  induction exprs with
  | nil => rfl
  | cons expr rest ih => rw [unplacedAll, ih, List.map_cons]

end Expr

/-! ### Statements -/

mutual

def Stmt.unplaced : Stmt → Stmt
  | .block _ _ body => .block Span.empty Span.empty (Stmt.unplacedAll body)
  | .ifThen _ condition body => .ifThen Span.empty condition.unplaced body.unplaced
  | .ifElse _ condition body otherwise =>
    .ifElse Span.empty condition.unplaced body.unplaced otherwise.unplaced
  | .whileLoop _ condition body => .whileLoop Span.empty condition.unplaced body.unplaced
  | .continueLoop _ => .continueLoop Span.empty
  | .breakLoop _ => .breakLoop Span.empty
  | .return _ values => .return Span.empty (values.map Expr.unplaced)
  | .declare _ prim name init target =>
    .declare Span.empty prim name.unplaced (init.map Expr.unplaced) target
  | .declareArray _ prim name size slot =>
    .declareArray Span.empty prim name.unplaced size.unplaced slot
  | .assign _ targets values =>
    .assign Span.empty (targets.map Expr.unplaced) (values.map Expr.unplaced)
  | .switch _ prim condition arms fallback =>
    .switch Span.empty prim condition.unplaced (Arm.unplacedAll arms)
    (Arm.unplacedFallback fallback)
  | .expr _ value => .expr Span.empty value.unplaced

def Arm.unplaced : Arm → Arm
  | .mk _ _ keys values body =>
    .mk Span.empty Span.empty (keys.map Expr.unplaced) values (Stmt.unplacedAll body)

def Stmt.unplacedAll : List Stmt → List Stmt
  | [] => []
  | stmt :: rest => stmt.unplaced :: Stmt.unplacedAll rest

def Arm.unplacedAll : List Arm → List Arm
  | [] => []
  | arm :: rest => arm.unplaced :: Arm.unplacedAll rest

def Arm.unplacedFallback : Option Arm → Option Arm
  | none => none
  | some arm => some arm.unplaced

end

theorem Stmt.unplaced_all_eq (stmts : List Stmt) :
    Stmt.unplacedAll stmts = stmts.map Stmt.unplaced := by
  induction stmts with
  | nil => rfl
  | cons stmt rest ih => rw [Stmt.unplacedAll, ih, List.map_cons]

theorem Arm.unplaced_all_eq (arms : List Arm) : Arm.unplacedAll arms = arms.map Arm.unplaced := by
  induction arms with
  | nil => rfl
  | cons arm rest ih => rw [Arm.unplacedAll, ih, List.map_cons]

theorem Arm.unplaced_fallback_eq (arm : Option Arm) :
    Arm.unplacedFallback arm = arm.map Arm.unplaced := by
  cases arm <;> rfl

/-! ### Declarations -/

def Annotation.unplaced (entry : Annotation) : Annotation :=
  { entry with name := entry.name.unplaced, span := Span.empty }

def Param.unplaced (param : Param) : Param :=
  { param with name := param.name.unplaced, span := Span.empty }

def Script.unplaced (script : Script) : Script where
  annotations := script.annotations.map Annotation.unplaced
  trigger := script.trigger.unplaced
  name := script.name.unplaced
  params := script.params.map Param.unplaced
  returns := script.returns
  inner := Span.empty
  body := script.body.map Stmt.unplaced
  span := Span.empty

def ValueForm.unplaced : ValueForm → ValueForm
  | .constant name => .constant name.unplaced
  | .reference name => .reference name.unplaced
  | form => form

def ConfigValue.unplaced (value : ConfigValue) : ConfigValue := ⟨value.form.unplaced, Span.empty⟩

def Property.unplaced (property : Property) : Property :=
  ⟨property.key.unplaced, property.values.map ConfigValue.unplaced, Span.empty⟩

def Config.unplaced (config : Config) : Config :=
  ⟨config.name.unplaced, config.properties.map Property.unplaced, Span.empty⟩

/-! ### Trees that are alike -/

abbrev Ident.Alike (left right : Ident) : Prop := left.unplaced = right.unplaced

abbrev Expr.Alike (left right : Expr) : Prop := left.unplaced = right.unplaced

abbrev Stmt.Alike (left right : Stmt) : Prop := left.unplaced = right.unplaced

abbrev Script.Alike (left right : Script) : Prop := left.unplaced = right.unplaced

abbrev Config.Alike (left right : Config) : Prop := left.unplaced = right.unplaced

theorem map_eq_of_forall₂ {α β : Type} {image : α → β} {left right : List α}
    (same : List.Forall₂ (fun first second => image first = image second) left right) :
    left.map image = right.map image := by
  induction same with
  | nil => rfl
  | cons here _ ih => rw [List.map_cons, List.map_cons, here, ih]

end TriggerScript
