import TriggerScript.Proofs.Typing.Expression
import TriggerScript.Typing.Statement

/-!
What it means that a body was checked.

`Stmt.Elaborates` relates a statement and the names visible before it to what checking makes of it
and to the names visible behind it. A body in a frame of its own leaves no variables behind, but
arrays stay known. The values of a case are those of its keys.
-/

namespace TriggerScript

open List

namespace Scope

variable {scope : Scope} {target : Local}

/-- The variables that are visible. -/
def locals (scope : Scope) : List Local := scope.frame ++ scope.outer.flatten

@[simp] theorem locals_enter (scope : Scope) : scope.enter.locals = scope.locals := rfl

theorem mem_of_lookup (found : scope.lookup name = some target) : target ∈ scope.locals := by
  obtain ⟨frame, member, entry⟩ := exists_of_findSome?_eq_some found
  have held : target ∈ frame := mem_of_find?_eq_some entry
  exact mem_flatten.mpr ⟨frame, member, held⟩

theorem mem_declare {after : Scope} (opened : scope.declare target = some after) :
    entry ∈ after.locals ↔ entry ∈ scope.locals ∨ entry = target := by
  unfold declare at opened
  split at opened
  · cases opened
  · obtain rfl := Option.some.inj opened
    simp only [locals, mem_append, mem_singleton]
    exact or_right_comm

end Scope

/-- Open a frame. -/
def Names.enter (names : Names) : Names := { names with scope := names.scope.enter }

/-- Go back to the scope before a frame was opened. -/
def Names.leaveTo (names : Names) (scope : Scope) : Names := { names with scope }

namespace Arm

variable (names : Names) (prim : Prim) in
/-- Checking turns the first keys into the second, with the values of those whose type is known. -/
inductive Keys : List Expr → List Expr → List Int32 → Prop where
  | nil : Keys [] [] []
  | known (part : Expr.Elaborates names key key')
      (accepted : (Ty.single prim).accepts key'.ty = true)
      (denotes : key'.constant? names.symbols = some value) (others : Keys rest rest' values) :
      Keys (key :: rest) (key' :: rest') (value :: values)
  | unknown (part : Expr.Elaborates names key key') (undefined : key'.ty.isUndefined = true)
      (others : Keys rest rest' values) : Keys (key :: rest) (key' :: rest') values

end Arm

namespace Stmt

variable (returns : List Prim) in
mutual

/-- Checking turns one statement into the other. -/
inductive Elaborates : Bool → Names → Stmt → Stmt → Names → Prop where
  | block {inner : Names} {span : Span} (part : ElaborateAll inLoop names.enter body body' inner) :
      Elaborates inLoop names (.block span within body) (.block span within body')
        (inner.leaveTo names.scope)
  | ifThen {inner : Names} {span : Span} (test : Expr.Elaborates names condition condition')
      (fits : (Ty.single .boolean).fits condition'.ty = true)
      (part : Elaborates inLoop names.enter body body' inner) :
      Elaborates inLoop names (.ifThen span condition body) (.ifThen span condition' body')
        (inner.leaveTo names.scope)
  | ifElse {inner : Names} {span : Span} (test : Expr.Elaborates names condition condition')
      (fits : (Ty.single .boolean).fits condition'.ty = true)
      (part : Elaborates inLoop names.enter body body' inner)
      (alternative : Elaborates inLoop (inner.leaveTo names.scope).enter otherwise otherwise'
        other) :
      Elaborates inLoop names (.ifElse span condition body otherwise)
        (.ifElse span condition' body' otherwise') (other.leaveTo names.scope)
  | whileLoop {inner : Names} {span : Span} (test : Expr.Elaborates names condition condition')
      (fits : (Ty.single .boolean).fits condition'.ty = true)
      (part : Elaborates true names.enter body body' inner) :
      Elaborates inLoop names (.whileLoop span condition body) (.whileLoop span condition' body')
        (inner.leaveTo names.scope)
  | continueLoop {span : Span} :
      Elaborates true names (.continueLoop span) (.continueLoop span) names
  | breakLoop {span : Span} : Elaborates true names (.breakLoop span) (.breakLoop span) names
  | return {span : Span} (parts : List.Forall₂ (Expr.Elaborates names) values values')
      (fit : Expr.Fit returns values') :
      Elaborates inLoop names (.return span values) (.return span values') names
  | declare {span : Span} {id : Nat} (declarable : prim.isDeclarable = true)
      (part : Expr.Elaborates names init init')
      (fits : (Ty.single prim).fits init'.ty = true)
      (opened : names.scope.declare ⟨id, name.text, prim⟩ = some scope) :
      Elaborates inLoop names (.declare span prim name (some init) given)
        (.declare span prim name (some init') (some ⟨id, name.text, prim⟩)) { names with scope }
  | declareDefault {span : Span} {id : Nat} (declarable : prim.isDeclarable = true)
      (opened : names.scope.declare ⟨id, name.text, prim⟩ = some scope) :
      Elaborates inLoop names (.declare span prim name none given)
        (.declare span prim name none (some ⟨id, name.text, prim⟩)) { names with scope }
  | declareArray {span : Span} (arrayable : prim.isArrayable = true)
      (part : Expr.Elaborates names size size')
      (fits : (Ty.single .int).fits size'.ty = true)
      (defined : names.arrays.define name.text prim = .ok (some slot, arrays)) :
      Elaborates inLoop names (.declareArray span prim name size given)
        (.declareArray span prim name size' (some slot)) { names with arrays }
  | assign {span : Span} (alone : (targets.length > 1 && targets.any isArrayElement) = false)
      (places : List.Forall₂ (Expr.Elaborates names) targets targets')
      (parts : List.Forall₂ (Expr.Elaborates names) values values')
      (fit : (targets'.filterMap targetType?).length = targets'.length →
        Expr.Fit (targets'.filterMap targetType?) values') :
      Elaborates inLoop names (.assign span targets values) (.assign span targets' values') names
  | switch {inner : Names} {span : Span} (lives : prim.stack? = some .int)
      (part : Expr.Elaborates names condition condition')
      (fits : (Ty.single prim).fits condition'.ty = true)
      (bodies : ElaborateArms prim inLoop names arms arms' inner) :
      Elaborates inLoop names (.switch span prim condition arms none)
        (.switch span prim condition' arms' none) inner
  | switchDefault {inner : Names} {span : Span} {keys : List Expr} (lives : prim.stack? = some .int)
      (part : Expr.Elaborates names condition condition')
      (fits : (Ty.single prim).fits condition'.ty = true)
      (bodies : ElaborateArms prim inLoop names arms arms' inner)
      (fallback : ElaborateAll inLoop inner.enter body body' last) :
      Elaborates inLoop names (.switch span prim condition arms
        (some (.mk here within keys values body)))
        (.switch span prim condition' arms' (some (.mk here within keys values body')))
        (last.leaveTo inner.scope)
  | expr {span : Span} (part : Expr.Elaborates names value value') :
      Elaborates inLoop names (.expr span value) (.expr span value') names

inductive ElaborateAll : Bool → Names → List Stmt → List Stmt → Names → Prop where
  | nil : ElaborateAll inLoop names [] [] names
  | cons {inner : Names} (head : Elaborates inLoop names stmt stmt' inner)
      (others : ElaborateAll inLoop inner rest rest' last) :
      ElaborateAll inLoop names (stmt :: rest) (stmt' :: rest') last

/-- Checking turns the cases of a switch on a type into others. -/
inductive ElaborateArms : Prim → Bool → Names → List Arm → List Arm → Names → Prop where
  | nil : ElaborateArms prim inLoop names [] [] names
  | cons {inner : Names} {keys : List Expr} (known : Arm.Keys names prim keys keys' values)
      (part : ElaborateAll inLoop names.enter body body' inner)
      (others : ElaborateArms prim inLoop (inner.leaveTo names.scope) rest rest' last) :
      ElaborateArms prim inLoop names (.mk here within keys given body :: rest)
        (.mk here within keys' values body' :: rest') last

end

end Stmt

open TriggerScript.Expr

variable {scope : Scope} {name : String} {target : Local} {names after : Names} {prim : Prim}

/-! ### Names behind a statement -/

namespace Names

/-- The names are those of a table, and of variables and arrays of types that they may have. -/
structure Legal (symbols : SymbolTable) (names : Names) : Prop where
  same : names.symbols = symbols
  declarable : ∀ entry ∈ names.scope.locals, entry.prim.isDeclarable = true
  arrayable : ∀ entry ∈ names.arrays.entries, entry.2.isArrayable = true

variable {symbols : SymbolTable}

theorem Legal.enter (legal : names.Legal symbols) : names.enter.Legal symbols :=
  ⟨legal.same, legal.declarable, legal.arrayable⟩

theorem Legal.array_lives (legal : names.Legal symbols)
    (found : names.arrays.lookup name = some (slot, prim)) : prim.stack? = some .int := by
  simp only [ArrayTable.lookup, Option.bind_eq_bind, Option.bind_eq_some_iff] at found
  obtain ⟨index, -, entry, held, same⟩ := found
  obtain ⟨-, rfl⟩ := Prod.mk.inj (Option.some.inj same)
  have arrayable := legal.arrayable entry (mem_of_getElem? held)
  rw [Prim.isArrayable, Bool.and_eq_true, decide_eq_true_eq] at arrayable
  exact of_decide_eq_true arrayable.2

/-- Names that were visible before are visible behind, and what was declared between is legal. -/
structure Extends (names after : Names) : Prop where
  symbols_eq : after.symbols = names.symbols
  locals_sub : names.scope.locals ⊆ after.scope.locals
  legal : ∀ {symbols}, names.Legal symbols → after.Legal symbols

theorem Extends.refl (names : Names) : names.Extends names :=
  ⟨rfl, Subset.refl _, id⟩

theorem Extends.trans {first : Names} (left : first.Extends second) (right : second.Extends third) :
    first.Extends third :=
  ⟨right.symbols_eq.trans left.symbols_eq, Subset.trans left.locals_sub right.locals_sub,
    fun legal => right.legal (left.legal legal)⟩

theorem Extends.framed {inner : Names} (extended : names.enter.Extends inner) :
    names.Extends (inner.leaveTo names.scope) := by
  refine ⟨extended.symbols_eq, Subset.refl _, fun legal => ?_⟩
  have inside := extended.legal legal.enter
  exact ⟨inside.same, legal.declarable, inside.arrayable⟩

theorem Extends.declare (declarable : target.prim.isDeclarable = true)
    (opened : names.scope.declare target = some scope) : names.Extends { names with scope } := by
  refine ⟨rfl, fun _ member => (Scope.mem_declare opened).mpr (.inl member), fun legal => ?_⟩
  refine ⟨legal.same, fun entry member => ?_, legal.arrayable⟩
  rcases (Scope.mem_declare opened).mp member with old | rfl
  · exact legal.declarable entry old
  · exact declarable

theorem Extends.define {arrays : ArrayTable} (arrayable : prim.isArrayable = true)
    (defined : names.arrays.define name prim = .ok (some slot, arrays)) :
    names.Extends { names with arrays } := by
  refine ⟨rfl, Subset.refl _, fun legal => ⟨legal.same, legal.declarable, fun entry member => ?_⟩⟩
  unfold ArrayTable.define at defined
  split at defined
  · simp at defined
  · dsimp only at defined
    split at defined
    · simp only [Except.ok.injEq, Prod.mk.injEq] at defined
      obtain ⟨-, rfl⟩ := defined
      rcases mem_append.mp member with old | new
      · exact legal.arrayable entry old
      · rw [mem_singleton.mp new]
        exact arrayable
    · cases defined

end Names

namespace Stmt

mutual

theorem Elaborates.extends {inLoop : Bool} {names after : Names} (source : Stmt) {stmt : Stmt}
    (elaborated : Elaborates returns inLoop names source stmt after) : names.Extends after :=
  match source, elaborated with
  | .block _ _ body, .block part => (ElaborateAll.extends body part).framed
  | .ifThen _ _ body, .ifThen _ _ part | .whileLoop _ _ body, .whileLoop _ _ part =>
    (Elaborates.extends body part).framed
  | .ifElse _ _ body otherwise, .ifElse _ _ part alternative =>
    (Elaborates.extends body part).framed.trans (Elaborates.extends otherwise alternative).framed
  | .declare .., .declare declarable _ _ opened | .declare .., .declareDefault declarable opened =>
    .declare declarable opened
  | .declareArray .., .declareArray arrayable _ _ defined => .define arrayable defined
  | .switch _ _ _ arms _, .switch _ _ _ bodies => ElaborateArms.extends arms bodies
  | .switch _ _ _ arms (some (.mk _ _ _ _ body)), .switchDefault _ _ _ bodies fallback =>
    (ElaborateArms.extends arms bodies).trans (ElaborateAll.extends body fallback).framed
  | .continueLoop _, .continueLoop | .breakLoop _, .breakLoop | .return .., .return .. | .assign ..,
      .assign ..
  | .expr .., .expr _ => .refl _

theorem ElaborateAll.extends {inLoop : Bool} {names after : Names} (source : List Stmt)
    {body : List Stmt} (elaborated : ElaborateAll returns inLoop names source body after) :
    names.Extends after :=
  match source, elaborated with
  | [], .nil => .refl _
  | stmt :: rest, .cons head others =>
    (Elaborates.extends stmt head).trans (ElaborateAll.extends rest others)

theorem ElaborateArms.extends {prim : Prim} {inLoop : Bool} {names after : Names}
    (source : List Arm) {arms : List Arm}
    (elaborated : ElaborateArms returns prim inLoop names source arms after) :
    names.Extends after :=
  match source, elaborated with
  | [], .nil => .refl _
  | .mk _ _ _ _ body :: rest, .cons _ part others =>
    (ElaborateAll.extends body part).framed.trans (ElaborateArms.extends rest others)

end

theorem ElaborateArms.scope_eq : {names after : Names} → (source : List Arm) → {arms : List Arm} →
    ElaborateArms returns prim inLoop names source arms after → after.scope = names.scope
  | _, _, [], _, .nil => rfl
  | _, _, _ :: rest, _, .cons _ _ others => (ElaborateArms.scope_eq rest others).trans rfl

variable {returns : List Prim} {inLoop : Bool} {symbols : SymbolTable} {holds : Stmt → Prop}

/-- What holds of whatever the statements of a body are turned into. -/
theorem ElaborateAll.each (elaborate : ElaborateAll returns inLoop names source body after)
    (legal : names.Legal symbols)
    (each : ∀ stmt ∈ source, ∀ names stmt' after, names.Legal symbols →
      Elaborates returns inLoop names stmt stmt' after → holds stmt') :
    ∀ stmt ∈ body, holds stmt := by
  induction source generalizing names body with
  | nil =>
    cases elaborate
    exact fun _ member => nomatch member
  | cons stmt rest ih =>
    cases elaborate with
    | cons head others =>
      have extended := Elaborates.extends stmt head
      rw [forall_mem_cons] at each ⊢
      exact ⟨each.1 _ _ _ legal head, ih others (extended.legal legal) each.2⟩

theorem ElaborateArms.each (elaborate : ElaborateArms returns prim inLoop names source arms after)
    (legal : names.Legal symbols)
    (each : ∀ arm ∈ source, ∀ stmt ∈ arm.body, ∀ names stmt' after, names.Legal symbols →
      Elaborates returns inLoop names stmt stmt' after → holds stmt') :
    ∀ arm ∈ arms, ∀ stmt ∈ arm.body, holds stmt := by
  induction source generalizing names arms with
  | nil =>
    cases elaborate
    exact fun _ member => nomatch member
  | cons arm rest ih =>
    cases elaborate with
    | cons known part others =>
      have extended := (ElaborateAll.extends _ part).framed
      rw [forall_mem_cons] at each ⊢
      exact ⟨part.each legal.enter each.1, ih others (extended.legal legal) each.2⟩

theorem Elaborates.exprs (elaborated : Elaborates returns inLoop names source stmt after) :
    List.Forall₂ (Expr.Elaborates names) source.exprs stmt.exprs := by
  cases elaborated with
  | block | continueLoop | breakLoop | declareDefault => exact .nil
  | ifThen test | ifElse test | whileLoop test => exact .cons test .nil
  | «return» parts => exact parts
  | declare _ part | declareArray _ part | switch _ part | switchDefault _ part | expr part =>
    exact .cons part .nil
  | assign _ places parts => exact rel_append places parts

/-- Whether the statements in a statement stand in a loop. -/
def loops (inLoop : Bool) : Stmt → Bool
  | .whileLoop .. => true
  | _ => inLoop

/-- What holds of whatever the statements in a statement are turned into. -/
theorem Elaborates.each_part {holds : Bool → Stmt → Prop}
    (elaborated : Elaborates returns inLoop names source stmt after) (legal : names.Legal symbols)
    (each : ∀ part ∈ source.parts, ∀ inLoop names part' after, names.Legal symbols →
      Elaborates returns inLoop names part part' after → holds inLoop part') :
    ∀ part ∈ stmt.parts, holds (stmt.loops inLoop) part := by
  cases elaborated with
  | block part =>
    exact part.each legal.enter fun stmt member _ _ _ => each stmt member _ _ _ _
  | ifThen _ _ part | whileLoop _ _ part =>
    exact forall_mem_singleton.mpr (each _ (mem_singleton_self _) _ names.enter _ _
      legal.enter part)
  | ifElse _ _ part alternative =>
    have extended := (Elaborates.extends _ part).framed
    refine forall_mem_cons.mpr ⟨?_, forall_mem_singleton.mpr ?_⟩
    · exact each _ mem_cons_self _ names.enter _ _ legal.enter part
    · exact each _ (mem_cons_of_mem _ (mem_singleton_self _)) _ _ _ _ (extended.legal legal).enter
        alternative
  | continueLoop | breakLoop | «return» | declare | declareDefault | declareArray | assign | expr =>
    exact forall_mem_nil _
  | switch _ _ _ bodies =>
    intro part member
    obtain ⟨arm, listed, held⟩ := mem_flatMap.mp member
    rw [Option.toList_none, append_nil] at listed
    refine bodies.each legal (fun arm listed stmt held _ _ _ => each stmt ?_ _ _ _ _) arm listed
      part held
    exact mem_flatMap.mpr ⟨arm, mem_append_left _ listed, held⟩
  | switchDefault _ _ _ bodies fallback =>
    intro part member
    obtain ⟨arm, listed, held⟩ := mem_flatMap.mp member
    rcases mem_append.mp listed with listed | last
    · refine bodies.each legal (fun arm listed stmt held _ _ _ => each stmt ?_ _ _ _ _) arm listed
        part held
      exact mem_flatMap.mpr ⟨arm, mem_append_left _ listed, held⟩
    · rw [Option.toList_some, mem_singleton] at last
      rw [last] at held
      refine fallback.each ((ElaborateArms.extends _ bodies).legal legal).enter
        (fun stmt held _ _ _ => each stmt ?_ _ _ _ _) part held
      exact mem_flatMap.mpr ⟨_, mem_append_right _ (mem_singleton_self _), held⟩

end Stmt

/-! ### Checking without faults -/

/-- A key that is of no other type than the expected one and not accepted is of no known type. -/
theorem Arm.undefined_of_not_accepted {ty : Ty} (lives : prim.stack? = some .int)
    (fits : (Ty.single prim).fits ty = true) (refused : (Ty.single prim).accepts ty = false) :
    ty.isUndefined = true := by
  have known : (Ty.single prim).isUndefined = false := by
    cases prim <;> first | rfl | cases lives
  simp only [Ty.fits, Ty.accepts, known, Bool.false_or, Bool.or_eq_true, Bool.not_false,
    Bool.true_and] at fits refused
  rcases fits with undefined | agrees
  · exact undefined
  · simpa [agrees] using refused

theorem Arm.check_keys_elaborate {prim : Prim} (lives : prim.stack? = some .int) :
    (keys : List Expr) → (seen : List Int32) → (checkKeys names prim keys seen).2.2 = [] →
    Keys names prim keys (checkKeys names prim keys seen).1 (checkKeys names prim keys seen).2.1
  | [], _, _ => .nil
  | key :: rest, seen, clean => by
    rw [checkKeys] at clean ⊢
    cases accepted : (Ty.single prim).accepts (key.checkAs names prim).1.ty with
    | true =>
      simp only [accepted, if_true] at clean ⊢
      cases denotes : (key.checkAs names prim).1.constant? names.symbols with
      | none => simp [denotes, fault] at clean
      | some value =>
        by_cases repeated : value ∈ seen
        · simp [denotes, repeated, fault] at clean
        · simp only [denotes, contains_iff_mem, repeated, if_false, append_eq_nil_iff,
            Option.toList_some, cons_append, nil_append] at clean ⊢
          exact .known (check_as_elaborates clean.1).1 accepted denotes
            (check_keys_elaborate lives rest _ clean.2)
    | false =>
      simp only [accepted, Bool.false_eq_true, if_false, append_eq_nil_iff, Option.toList_none,
        append_nil, nil_append] at clean ⊢
      obtain ⟨part, fits⟩ := check_as_elaborates clean.1
      exact .unknown part (undefined_of_not_accepted lives fits accepted)
        (check_keys_elaborate lives rest _ clean.2)

/-- Checking stops only for a fault. -/
def Checking.Settled (state : Checking) : Prop := state.faults = [] → state.halted = false

theorem Checking.Settled.note {state : Checking} (settled : state.Settled)
    (faults : List Diagnostic) : (state.note faults).Settled :=
  fun faultless => settled (append_eq_nil_iff.mp faultless).1

namespace Stmt

/-- What checking makes of a part keeps to a judgment on the names before and behind it, unless it
finds a fault. -/
def Clean {α : Type} (symbols : SymbolTable) (judged : Names → α → Names → Prop) (state : Checking)
    (result : α × Checking) : Prop :=
  state.Settled → result.2.Settled ∧ (result.2.faults = [] →
    state.faults = [] ∧ judged (state.names symbols) result.1 (result.2.names symbols))

section

variable {α β : Type} {symbols : SymbolTable} {judged : Names → α → Names → Prop}
  {judged' : Names → β → Names → Prop} {state : Checking} {result : α × Checking}
  {faults : List Diagnostic}

/-- A part that only notes faults. -/
theorem Clean.ofFaults
    (held : faults = [] → judged (state.names symbols) part (state.names symbols)) :
    Clean symbols judged state (part, state.note faults) := by
  intro settled
  refine ⟨settled.note faults, fun faultless => ?_⟩
  obtain ⟨before, noted⟩ := append_eq_nil_iff.mp faultless
  exact ⟨before, held noted⟩

theorem Clean.noted (clean : Clean symbols judged (state.note faults) result) :
    Clean symbols (fun names part after => faults = [] ∧ judged names part after) state result := by
  intro settled
  obtain ⟨still, clean⟩ := clean (settled.note faults)
  refine ⟨still, fun faultless => ?_⟩
  obtain ⟨before, held⟩ := clean faultless
  obtain ⟨before, noted⟩ := append_eq_nil_iff.mp before
  exact ⟨before, noted, held⟩

theorem Clean.andThen {next : β × Checking} (first : Clean symbols judged state result)
    (second : Clean symbols judged' result.2 next) :
    Clean symbols (fun names part after => ∃ inner, judged names result.1 inner ∧
      judged' inner part after)
      state next := by
  intro settled
  obtain ⟨still, first⟩ := first settled
  obtain ⟨settled_after, second⟩ := second still
  refine ⟨settled_after, fun faultless => ?_⟩
  obtain ⟨between, held'⟩ := second faultless
  obtain ⟨before, held⟩ := first between
  exact ⟨before, _, held, held'⟩

theorem Clean.map (combine : α → β) (clean : Clean symbols judged state result)
    (combined : ∀ after, judged (state.names symbols) result.1 after →
      judged' (state.names symbols) (combine result.1) after) :
    Clean symbols judged' state (combine result.1, result.2) := by
  intro settled
  obtain ⟨still, clean⟩ := clean settled
  exact ⟨still, fun faultless => ⟨(clean faultless).1, combined _ (clean faultless).2⟩⟩

theorem Clean.unlessHalted (part : α) (clean : Clean symbols judged state result) :
    Clean symbols judged state (if state.halted then (part, state) else result) := by
  split
  · rename_i halted
    intro settled
    refine ⟨settled, fun faultless => ?_⟩
    have goes_on := settled faultless
    rw [halted] at goes_on
    cases goes_on
  · exact clean

theorem Clean.framed {run : Checking → α × Checking} (part : α)
    (clean : Clean symbols judged state.enter (run state.enter)) :
    Clean symbols (fun names part after => ∃ inner, judged names.enter part inner ∧
      after = inner.leaveTo names.scope)
      state (framed part run state) := by
  apply Clean.unlessHalted
  intro settled
  obtain ⟨still, clean⟩ := clean settled
  exact ⟨still, fun faultless => ⟨(clean faultless).1, _, (clean faultless).2, rfl⟩⟩

theorem declare_clean (symbols : SymbolTable) (state : Checking) (name : Ident) (prim : Prim) :
    Clean symbols
      (fun names target after => ∃ id scope, target = ⟨id, name.text, prim⟩ ∧
        names.scope.declare ⟨id, name.text, prim⟩ = some scope ∧ after = { names with scope })
      state (state.declare name prim) := by
  intro settled
  unfold Checking.declare
  dsimp only
  cases opened : state.scope.declare ⟨state.nextLocal, name.text, prim⟩ with
  | none => exact ⟨settled.note _, fun faultless => nomatch (append_eq_nil_iff.mp faultless).2⟩
  | some scope => exact ⟨settled, fun faultless => ⟨faultless, _, scope, rfl, opened, rfl⟩⟩

theorem declare_array_clean (symbols : SymbolTable) (state : Checking) (name : Ident)
    (prim : Prim) :
    Clean symbols
      (fun names slot after => ∃ index arrays, slot = some index ∧
        names.arrays.define name.text prim = .ok (some index, arrays) ∧
        after = { names with arrays })
      state (state.declareArray name prim) := by
  intro settled
  unfold Checking.declareArray
  cases defined : state.arrays.define name.text prim with
  | error cause =>
    have faulty : ¬ state.faults ++ fault cause name.span = [] :=
      fun faultless => nomatch (append_eq_nil_iff.mp faultless).2
    exact ⟨fun faultless => absurd faultless faulty, fun faultless => absurd faultless faulty⟩
  | ok result =>
    obtain ⟨slot, arrays⟩ := result
    cases slot with
    | none => exact ⟨settled.note _, fun faultless => nomatch (append_eq_nil_iff.mp faultless).2⟩
    | some slot => exact ⟨settled, fun faultless => ⟨faultless, slot, arrays, rfl, defined, rfl⟩⟩

end

theorem holds_of_no_fault [Decidable condition] {span : Span}
    (clean : (if condition then [] else fault cause span) = []) : condition := by
  by_contra refused
  rw [if_neg refused] at clean
  cases clean

theorem check_assign_elaborates {span : Span} {values : List Expr}
    (clean : (checkAssign names span targets values).2 = []) :
    Elaborates returns inLoop names (.assign span targets values)
    (checkAssign names span targets values).1 names := by
  unfold checkAssign at clean ⊢
  simp only [append_eq_nil_iff] at clean
  obtain ⟨⟨⟨alone, placed⟩, valued⟩, differing⟩ := clean
  refine .assign ?_ (Expr.check_all_elaborates names [] targets placed)
    (Expr.check_all_elaborates names _ values valued) ?_
  · cases among : (targets.length > 1 && targets.any isArrayElement : Bool) with
    | false => rfl
    | true => simp [among, fault] at alone
  · intro all_known
    rw [if_pos all_known] at differing
    exact Expr.list_fault_eq_nil.mp differing

mutual

theorem check_elaborates :
    (surroundings : Surroundings) → (stmt : Stmt) → (state : Checking) →
    Clean surroundings.symbols (fun names => Elaborates surroundings.returns surroundings.inLoop
      names stmt) state
      (stmt.check surroundings state)
  | surroundings, .block span within body, state => by
    rw [check]
    apply ((check_all_elaborates surroundings body state.enter).framed body).map
      (Stmt.block span within)
    rintro after ⟨inner, part, rfl⟩
    exact .block part
  | surroundings, .ifThen span condition body, state => by
    rw [check]
    apply ((check_elaborates surroundings body (state.note _).enter).framed body).noted.map
      (Stmt.ifThen span _)
    rintro after ⟨tested, inner, part, rfl⟩
    obtain ⟨test, fits⟩ := check_as_elaborates tested
    exact .ifThen test fits part
  | surroundings, .ifElse span condition body otherwise, state => by
    rw [check]
    have first := ((check_elaborates surroundings body (state.note
      (condition.checkAs (state.names surroundings.symbols) .boolean).2).enter).framed body).noted
    have second := fun middle =>
      (check_elaborates surroundings otherwise (Checking.enter middle)).framed otherwise
    apply (first.andThen (second _)).map (Stmt.ifElse span _ _)
    rintro after ⟨_, ⟨tested, inner, part, rfl⟩, other, alternative, rfl⟩
    obtain ⟨test, fits⟩ := check_as_elaborates tested
    exact .ifElse test fits part alternative
  | surroundings, .whileLoop span condition body, state => by
    rw [check]
    apply ((check_elaborates { surroundings with inLoop := true } body
      (state.note _).enter).framed body).noted.map (Stmt.whileLoop span _)
    rintro after ⟨tested, inner, part, rfl⟩
    obtain ⟨test, fits⟩ := check_as_elaborates tested
    exact .whileLoop test fits part
  | surroundings, .continueLoop span, state | surroundings, .breakLoop span, state => by
    rw [check]
    apply Clean.ofFaults
    intro clean
    cases inLoop : surroundings.inLoop with
    | true => constructor
    | false => simp [loopFault, inLoop, fault] at clean
  | surroundings, .return span values, state => by
    rw [check]
    apply Clean.ofFaults
    intro clean
    obtain ⟨valued, fit⟩ := append_eq_nil_iff.mp clean
    exact .return (Expr.check_all_elaborates _ _ values valued) (Expr.list_fault_eq_nil.mp fit)
  | surroundings, .declare span prim name none given, state => by
    rw [check]
    apply (declare_clean surroundings.symbols (state.note _) name prim).noted.map
      fun target => Stmt.declare span prim name none (some target)
    rintro after ⟨legal, id, scope, target, opened, rfl⟩
    rw [target]
    exact .declareDefault (holds_of_no_fault legal) opened
  | surroundings, .declare span prim name (some init) given, state => by
    rw [check]
    apply (declare_clean surroundings.symbols ((state.note _).note _) name prim).noted.noted.map
      fun target => Stmt.declare span prim name (some _) (some target)
    rintro after ⟨legal, clean, id, scope, target, opened, rfl⟩
    obtain ⟨part, fits⟩ := check_as_elaborates clean
    rw [target]
    exact .declare (holds_of_no_fault legal) part fits opened
  | surroundings, .declareArray span prim name size given, state => by
    rw [check]
    apply (declare_array_clean surroundings.symbols (state.note _) name prim).noted.map
      fun slot => Stmt.declareArray span prim name _ (slot <|> given)
    rintro after ⟨clean, index, arrays, slot, defined, rfl⟩
    obtain ⟨legal, clean⟩ := append_eq_nil_iff.mp clean
    obtain ⟨part, fits⟩ := check_as_elaborates clean
    rw [slot]
    exact .declareArray (holds_of_no_fault legal) part fits defined
  | surroundings, .assign span targets values, state => by
    rw [check]
    exact Clean.ofFaults check_assign_elaborates
  | surroundings, .switch span prim condition arms none, state => by
    rw [check]
    apply (check_arms_elaborate surroundings prim arms [] (state.note _)).noted.map
      fun arms => Stmt.switch span prim _ arms none
    rintro after ⟨clean, bodies⟩
    obtain ⟨legal, clean⟩ := append_eq_nil_iff.mp clean
    obtain ⟨part, fits⟩ := check_as_elaborates clean
    have lives := holds_of_no_fault legal
    exact .switch lives part fits (bodies lives)
  | surroundings,
    .switch span prim condition arms (some (.mk here within keys values body)), state => by
    simp only [check, checkFallback]
    have arms_clean := fun faults =>
      (check_arms_elaborate surroundings prim arms [] (state.note faults)).noted
    have fallback_clean := fun middle =>
      (check_all_elaborates surroundings body (Checking.enter middle)).framed body
    apply ((arms_clean _).andThen (fallback_clean _)).map
      fun body => Stmt.switch span prim _ _ (some (.mk here within keys values body))
    rintro after ⟨middle, ⟨clean, bodies⟩, inner, fallback, rfl⟩
    obtain ⟨legal, clean⟩ := append_eq_nil_iff.mp clean
    obtain ⟨part, fits⟩ := check_as_elaborates clean
    have lives := holds_of_no_fault legal
    exact .switchDefault lives part fits (bodies lives) fallback
  | surroundings, .expr span value, state => by
    rw [check]
    exact Clean.ofFaults fun clean => .expr (Expr.check_elaborates _ none value clean)

theorem check_all_elaborates :
    (surroundings : Surroundings) → (body : List Stmt) → (state : Checking) →
    Clean surroundings.symbols (fun names => ElaborateAll surroundings.returns surroundings.inLoop
      names body) state
      (checkAll surroundings body state)
  | surroundings, [], state => fun settled => ⟨settled, fun faultless => ⟨faultless, .nil⟩⟩
  | surroundings, stmt :: rest, state => by
    rw [checkAll]
    apply Clean.unlessHalted
    apply ((check_elaborates surroundings stmt state).andThen
      (check_all_elaborates surroundings rest _)).map (_ :: ·)
    rintro after ⟨inner, head, others⟩
    exact .cons head others

theorem check_arms_elaborate : (surroundings : Surroundings) → (prim : Prim) → (arms : List Arm) →
    (seen : List Int32) → (state : Checking) →
    Clean surroundings.symbols (fun names arms' after => prim.stack? = some .int →
        ElaborateArms surroundings.returns prim surroundings.inLoop names arms arms' after)
      state (checkArms surroundings prim arms seen state)
  | surroundings, prim, [], seen, state => by
    rw [checkArms]
    exact fun settled => ⟨settled, fun faultless => ⟨faultless, fun _ => .nil⟩⟩
  | surroundings, prim, .mk here within keys given body :: rest, seen, state => by
    rw [checkArms]
    apply Clean.unlessHalted
    have body_clean := fun faults =>
      ((check_all_elaborates surroundings body (state.note faults).enter).framed body).noted
    apply ((body_clean _).andThen (check_arms_elaborate surroundings prim rest _ _)).map
      (Arm.mk here within _ _ _ :: ·)
    rintro after ⟨middle, ⟨clean, inner, part, rfl⟩, others⟩ lives
    exact .cons (Arm.check_keys_elaborate lives keys seen clean) part (others lives)

end

end Stmt

namespace Param

/-- Checking gives each parameter a variable. -/
inductive Elaborate : Names → List Param → List Param → Names → Prop where
  | nil {names : Names} : Elaborate names [] [] names
  | cons {names last : Names} {param : Param} {rest rest' : List Param} {id : Nat} {scope : Scope}
      (opened : names.scope.declare ⟨id, param.name.text, param.prim⟩ = some scope)
      (others : Elaborate { names with scope } rest rest' last) : Elaborate names (param :: rest)
        ({ param with target := some ⟨id, param.name.text, param.prim⟩ } :: rest') last

theorem Elaborate.symbols_eq (elaborate : Elaborate names params params' after) :
    after.symbols = names.symbols := by
  induction elaborate with
  | nil => rfl
  | cons _ _ ih => exact ih

end Param

namespace Script

theorem declare_params_elaborate (symbols : SymbolTable) :
    (params : List Param) → (state : Checking) →
    Stmt.Clean symbols (fun names => Param.Elaborate names params) state
      (declareParams params state)
  | [], state => fun settled => ⟨settled, fun faultless => ⟨faultless, .nil⟩⟩
  | param :: rest, state => by
    rw [declareParams]
    apply ((Stmt.declare_clean symbols state param.name param.prim).andThen
      (declare_params_elaborate symbols rest _)).map
      ({ param with target := some (state.declare param.name param.prim).1 } :: ·)
    rintro after ⟨_, ⟨id, scope, target, opened, rfl⟩, others⟩
    rw [target]
    exact .cons opened others

/-- Checking turns one script into the other. -/
structure Elaborates (symbols : SymbolTable) (capacity : Nat) (source script : Script) : Prop where
  same : script = { source with params := script.params, body := script.body }
  bodied : ∃ names last,
    Param.Elaborate ⟨symbols, .empty, .empty capacity⟩ source.params script.params names ∧
      Stmt.ElaborateAll source.returns.flatten false names source.body script.body last

theorem check_elaborates {source : Script}
    (checked : source.check symbols capacity = (script, [])) :
    Elaborates symbols capacity source script := by
  have params_clean := (declare_params_elaborate symbols source.params
    ((Checking.start capacity).note (annotationFaults [] source.annotations))).noted
  have body_clean := params_clean.andThen
    (Stmt.check_all_elaborates ⟨symbols, source.returns.flatten, false⟩ source.body _)
  obtain ⟨rfl, faultless⟩ := Prod.mk.inj checked
  obtain ⟨-, clean⟩ := body_clean fun _ => rfl
  obtain ⟨-, names, ⟨-, params⟩, body⟩ := clean faultless
  exact ⟨rfl, names, _, params, body⟩

end Script

end TriggerScript
