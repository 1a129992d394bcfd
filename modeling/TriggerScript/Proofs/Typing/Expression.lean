import TriggerScript.Proofs.Script.Parts
import TriggerScript.Typing.Expression

/-!
What it means that an expression was checked.

`Expr.Elaborates` relates an expression to what checking makes of it: every name in it stands for
what is visible, every node carries its type, and values of known types stand only where they are
expected.
-/

namespace TriggerScript

open List

/-- A type may stand where another is expected, or one of them is not known. -/
def Ty.fits (expected actual : Ty) : Bool :=
  expected.isUndefined || actual.isUndefined || expected.agrees actual

theorem Ty.mismatch_eq_nil {expected : Ty} {span : Span} :
    expected.mismatch actual span = [] ↔ expected.fits actual = true := by
  unfold mismatch fits
  split <;> simp_all

namespace Expr

/-- The values are of the expected types, if all their types are known. -/
def Fit (expected : List Prim) (values : List Expr) : Prop :=
  ∀ actual, leftTypes? values = some actual → Ty.listAgrees expected actual = true

theorem list_fault_eq_nil {values : List Expr} {span : Span} :
    listFault expected values cause span = [] ↔ Fit expected values := by
  unfold listFault Fit
  cases leftTypes? values with
  | none => simp
  | some actual =>
    by_cases agree : Ty.listAgrees expected actual = true
    · simp [agree]
    · simp [agree, fault]

/-- Two expressions are of types that the operator compares, if both types are known. -/
def Compares (operator : Operator) (left right : Expr) : Prop :=
  left.ty.isUndefined = true ∨ right.ty.isUndefined = true ∨
    ∃ first second, left.ty.prim? = some first ∧ right.ty.prim? = some second ∧
      comparable operator first second = true

theorem comparison_fault_eq_nil :
    comparisonFault operator left right = [] ↔ Compares operator left right := by
  unfold comparisonFault Compares
  by_cases known : left.ty.isUndefined = true ∨ right.ty.isUndefined = true
  · rw [if_pos (by simpa using known)]
    tauto
  · rw [if_neg (by simpa using known)]
    cases left.ty.prim? <;> cases right.ty.prim? <;> simp_all [fault]

variable (names : Names) in
/-- Checking turns one expression into the other. -/
inductive Elaborates : Expr → Expr → Prop where
  | int {note : Note} : Elaborates (.int note value) (.int ⟨note.span, .single .int⟩ value)
  | long {note : Note} : Elaborates (.long note value) (.long ⟨note.span, .single .long⟩ value)
  | text {note : Note} : Elaborates (.text note value) (.text ⟨note.span, .single .string⟩ value)
  | bool {note : Note} : Elaborates (.bool note value) (.bool ⟨note.span, .single .boolean⟩ value)
  | coordgrid {note : Note} :
      Elaborates (.coordgrid note value) (.coordgrid ⟨note.span, .single .coordgrid⟩ value)
  | null {note : Note} (declarable : prim.isDeclarable = true) :
      Elaborates (.null note) (.null ⟨note.span, .single prim⟩)
  | localVar {note : Note} (found : names.scope.lookup name.text = some target) :
      Elaborates (.localVar note name given)
        (.localVar ⟨note.span, .single target.prim⟩ name (some target))
  | arrayElement {note : Note} (inner : Elaborates index index')
      (fits : (Ty.single .int).fits index'.ty = true)
      (found : names.arrays.lookup name.text = some (slot, prim)) :
      Elaborates (.arrayElement note name index given)
        (.arrayElement ⟨note.span, .single prim⟩ name index' (some slot))
  | global {note : Note} (found : names.symbols.global? name.text = some info) :
      Elaborates (.global note name) (.global ⟨note.span, .single info.prim⟩ name)
  | constant {note : Note} (found : names.symbols.constant? name.text = some info)
      (declarable : info.prim.isDeclarable = true) :
      Elaborates (.constant note name) (.constant ⟨note.span, .single info.prim⟩ name)
  | config {note : Note} (found : names.symbols.config? name.text = some info) :
      Elaborates (.bare note name given) (.bare ⟨note.span, .single info.prim⟩ name (some info.id))
  | bare {note : Note} (found : names.symbols.command? name.text = some info)
      (alone : info.args = []) :
      Elaborates (.bare note name given) (.bare ⟨note.span, info.returns⟩ name given)
  | command {note : Note} (found : names.symbols.command? name.text = some info)
      (parts : List.Forall₂ Elaborates args args') (fit : Fit info.args args') :
      Elaborates (.command note name alternative args)
        (.command ⟨note.span, info.returns⟩ name alternative args')
  | call {note : Note} (found : names.symbols.script? trigger name.text = some info)
      (parts : List.Forall₂ Elaborates args args') (fit : Fit info.params args') :
      Elaborates (.call note trigger name args) (.call ⟨note.span, info.returns⟩ trigger name args')
  | emptyHook {note : Note} : Elaborates (.emptyHook note) (.emptyHook ⟨note.span, .single .hook⟩)
  | hook {note : Note} (found : names.symbols.script? hookTrigger name.text = some info)
      (parts : List.Forall₂ Elaborates args args') (fit : Fit info.params args') :
      Elaborates (.hook note name args) (.hook ⟨note.span, .single .hook⟩ name args')
  | concat {note : Note} {parts : List Expr} (inner : List.Forall₂ Elaborates parts parts')
      (fit : ∀ part ∈ parts', (Ty.single .string).fits part.ty = true) :
      Elaborates (.concat note parts) (.concat ⟨note.span, .single .string⟩ parts')
  | calculation {note : Note} {inner : Expr} (part : Elaborates inner inner')
      (fits : (Ty.single .int).fits inner'.ty = true) :
      Elaborates (.calculation note inner) (.calculation ⟨note.span, .single .int⟩ inner')
  | arithmetic {note : Note} (computes : operator.isArithmetic = true)
      (first : Elaborates left left')
      (second : Elaborates right right') (fits : (Ty.single .int).fits left'.ty = true)
      (fits' : (Ty.single .int).fits right'.ty = true) :
      Elaborates (.binary note operator left right)
        (.binary ⟨note.span, .single .int⟩ operator left' right')
  | logical {note : Note} (computes : operator.isArithmetic = false)
      (joins : operator.isLogical = true)
      (first : Elaborates left left') (second : Elaborates right right')
      (fits : (Ty.single .boolean).fits left'.ty = true)
      (fits' : (Ty.single .boolean).fits right'.ty = true) :
      Elaborates (.binary note operator left right)
        (.binary ⟨note.span, .single .boolean⟩ operator left' right')
  | comparison {note : Note} (computes : operator.isArithmetic = false)
      (joins : operator.isLogical = false)
      (first : Elaborates left left') (second : Elaborates right right')
      (compares : Compares operator left' right') :
      Elaborates (.binary note operator left right)
        (.binary ⟨note.span, .single .boolean⟩ operator left' right')
  | error {note : Note} : Elaborates (.error note) (.error ⟨note.span, .undefined⟩)

theorem Elaborates.parts (elaborated : Elaborates names source expr) :
    Forall₂ (Elaborates names) source.parts expr.parts := by
  cases elaborated with
  | int | long | text | bool | coordgrid | null | localVar | global | constant | config | bare
  | emptyHook | error => exact .nil
  | arrayElement inner => exact .cons inner .nil
  | command _ parts | call _ parts | hook _ parts => exact parts
  | concat inner => exact inner
  | calculation part => exact .cons part .nil
  | arithmetic _ first second | logical _ _ first second | comparison _ _ first second =>
    exact .cons first (.cons second .nil)

/-- What holds of whatever the expressions of a list are turned into. -/
theorem each_of_elaborates {holds : Expr → Prop}
    (elaborate : Forall₂ (Elaborates names) sources exprs)
    (each : ∀ source ∈ sources, ∀ expr, Elaborates names source expr → holds expr) :
    ∀ expr ∈ exprs, holds expr := by
  induction elaborate with
  | nil => exact fun _ member => nomatch member
  | cons head _ ih =>
    rw [forall_mem_cons] at each ⊢
    exact ⟨each.1 _ head, ih each.2⟩

theorem resolve_bare_elaborates {names : Names} {hint : Option Prim} {note : Note} {name : Ident}
    {given found : Option Nat} {ty : Ty}
    (resolved : resolveBare names.symbols hint name = some (ty, found)) :
    Elaborates names (.bare note name given) (.bare ⟨note.span, ty⟩ name (found <|> given)) := by
  -- A command counts only if it takes no arguments.
  have of_command : ∀ {ty : Ty} {found : Option Nat},
      ((names.symbols.command? name.text).filter fun info => info.args.isEmpty).map
        (fun info => (info.returns, (none : Option Nat))) = some (ty, found) →
      Elaborates names (.bare note name given) (.bare ⟨note.span, ty⟩ name (found <|> given)) := by
    intro ty found as_command
    obtain ⟨info, filtered, same⟩ := Option.map_eq_some_iff.mp as_command
    obtain ⟨known, alone⟩ := Option.filter_eq_some_iff.mp filtered
    obtain ⟨rfl, rfl⟩ := Prod.mk.inj same
    exact .bare known (isEmpty_iff.mp alone)
  unfold resolveBare at resolved
  cases config : names.symbols.config? name.text with
  | none =>
    rw [config] at resolved
    exact of_command resolved
  | some info =>
    have of_config : Elaborates names (.bare note name given)
        (.bare ⟨note.span, .single info.prim⟩ name (some info.id <|> given)) := .config config
    simp only [config] at resolved
    split at resolved
    · obtain ⟨rfl, rfl⟩ := Prod.mk.inj (Option.some.inj resolved)
      exact of_config
    · cases as_command : ((names.symbols.command? name.text).filter fun info =>
          info.args.isEmpty).map fun info => (info.returns, (none : Option Nat)) with
      | none =>
        rw [as_command] at resolved
        obtain ⟨rfl, rfl⟩ := Prod.mk.inj (Option.some.inj resolved)
        exact of_config
      | some command =>
        rw [as_command] at resolved
        obtain rfl := Option.some.inj resolved
        exact of_command as_command

variable (names : Names)

mutual

theorem check_elaborates : (hint : Option Prim) → (expr : Expr) →
    (expr.check names hint).2 = [] → Elaborates names expr (expr.check names hint).1
  | _, .int .., _ => .int
  | _, .long .., _ => .long
  | _, .text .., _ => .text
  | _, .bool .., _ => .bool
  | _, .coordgrid .., _ => .coordgrid
  | hint, .null note, clean => by
    rw [check] at clean ⊢
    cases hinted : hint.filter Prim.isDeclarable with
    | none => simp [hinted, fault] at clean
    | some prim => exact .null (Option.filter_eq_some_iff.mp hinted).2
  | hint, .localVar note name given, clean => by
    rw [check] at clean ⊢
    cases found : names.scope.lookup name.text with
    | none => simp [found, fault] at clean
    | some target => exact .localVar found
  | hint, .arrayElement note name index given, clean => by
    rw [check] at clean ⊢
    cases found : names.arrays.lookup name.text with
    | none => simp [found, fault] at clean
    | some entry =>
      simp only [found, append_eq_nil_iff] at clean
      exact .arrayElement (check_elaborates (some .int) index clean.1)
        (Ty.mismatch_eq_nil.mp clean.2) found
  | hint, .global note name, clean => by
    rw [check] at clean ⊢
    cases found : names.symbols.global? name.text with
    | none => simp [found, fault] at clean
    | some info => exact .global found
  | hint, .constant note name, clean => by
    rw [check] at clean ⊢
    cases found : names.symbols.constant? name.text with
    | none => simp [found, fault] at clean
    | some info =>
      by_cases declarable : info.prim.isDeclarable = true
      · simp only [declarable, if_true]
        exact .constant found declarable
      · simp [found, declarable, fault] at clean
  | hint, .bare note name given, clean => by
    rw [check] at clean ⊢
    cases resolved : resolveBare names.symbols hint name with
    | none => simp [resolved, fault] at clean
    | some found => exact resolve_bare_elaborates resolved
  | hint, .command note name alternative args, clean => by
    rw [check] at clean ⊢
    cases found : names.symbols.command? name.text with
    | none => simp [found, fault] at clean
    | some info =>
      simp only [found, append_eq_nil_iff] at clean
      exact .command found (check_all_elaborates _ args clean.1.2) (list_fault_eq_nil.mp clean.2)
  | hint, .call note trigger name args, clean => by
    rw [check] at clean ⊢
    cases found : names.symbols.script? trigger name.text with
    | none => simp [found, fault] at clean
    | some info =>
      simp only [found, append_eq_nil_iff] at clean
      exact .call found (check_all_elaborates _ args clean.1) (list_fault_eq_nil.mp clean.2)
  | _, .emptyHook _, _ => .emptyHook
  | hint, .hook note name args, clean => by
    rw [check] at clean ⊢
    cases found : names.symbols.script? hookTrigger name.text with
    | none => simp [found, fault] at clean
    | some info =>
      simp only [found, append_eq_nil_iff] at clean
      exact .hook found (check_all_elaborates _ args clean.1) (list_fault_eq_nil.mp clean.2)
  | hint, .concat note parts, clean => by
    rw [check] at clean ⊢
    obtain ⟨inner, fit⟩ := check_each_elaborates .string parts clean
    exact .concat inner fit
  | hint, .calculation note inner, clean => by
    rw [check] at clean ⊢
    simp only [append_eq_nil_iff] at clean
    exact .calculation (check_elaborates (some .int) inner clean.1) (Ty.mismatch_eq_nil.mp clean.2)
  | hint, .binary note operator left right, clean => by
    rw [check] at clean ⊢
    by_cases computes : operator.isArithmetic = true
    · simp only [computes, Bool.true_or, if_true, append_eq_nil_iff] at clean ⊢
      obtain ⟨⟨⟨first, fits⟩, second⟩, fits'⟩ := clean
      exact .arithmetic computes (check_elaborates _ left first) (check_elaborates _ right second)
        (Ty.mismatch_eq_nil.mp fits) (Ty.mismatch_eq_nil.mp fits')
    · rw [Bool.not_eq_true] at computes
      by_cases joins : operator.isLogical = true
      · simp only [computes, joins, Bool.or_true, if_true, Bool.false_eq_true, if_false,
          append_eq_nil_iff] at clean ⊢
        obtain ⟨⟨⟨first, fits⟩, second⟩, fits'⟩ := clean
        exact .logical computes joins (check_elaborates _ left first)
          (check_elaborates _ right second)
          (Ty.mismatch_eq_nil.mp fits) (Ty.mismatch_eq_nil.mp fits')
      · rw [Bool.not_eq_true] at joins
        simp only [computes, joins, Bool.or_false, Bool.false_eq_true, if_false,
          append_eq_nil_iff] at clean ⊢
        obtain ⟨⟨first, second⟩, compares⟩ := clean
        exact .comparison computes joins (check_elaborates _ left first)
          (check_elaborates _ right second) (comparison_fault_eq_nil.mp compares)
  | _, .error _, _ => .error

theorem check_all_elaborates :
    (hints : List Prim) → (exprs : List Expr) →
    (checkAll names hints exprs).2 = [] →
      Forall₂ (Elaborates names) exprs (checkAll names hints exprs).1
  | hints, [], _ => .nil
  | hints, expr :: rest, clean => by
    rw [checkAll] at clean ⊢
    simp only [append_eq_nil_iff] at clean
    exact .cons (check_elaborates hints.head? expr clean.1)
      (check_all_elaborates hints.tail rest clean.2)

theorem check_each_elaborates (expected : Prim) :
    (exprs : List Expr) →
    (checkEach names expected exprs).2 = [] →
      Forall₂ (Elaborates names) exprs (checkEach names expected exprs).1 ∧
      ∀ part ∈ (checkEach names expected exprs).1, (Ty.single expected).fits part.ty = true
  | [], _ => ⟨.nil, fun _ none => nomatch none⟩
  | expr :: rest, clean => by
    rw [checkEach] at clean ⊢
    simp only [append_eq_nil_iff] at clean
    obtain ⟨inner, fit⟩ := check_each_elaborates expected rest clean.2
    refine ⟨.cons (check_elaborates (some expected) expr clean.1.1) inner, ?_⟩
    intro part member
    cases member with
    | head => exact Ty.mismatch_eq_nil.mp clean.1.2
    | tail _ later => exact fit part later

end

variable {names}

/-- An expression that has to be of a type, checked without a fault, is of it. -/
theorem check_as_elaborates {expr : Expr} (clean : (expr.checkAs names expected).2 = []) :
    Elaborates names expr (expr.checkAs names expected).1 ∧
      (Ty.single expected).fits (expr.checkAs names expected).1.ty = true := by
  simp only [checkAs, append_eq_nil_iff] at clean
  exact ⟨check_elaborates names (some expected) expr clean.1, Ty.mismatch_eq_nil.mp clean.2⟩

end Expr

end TriggerScript
