import TriggerScript.Proofs.Generation.Success
import TriggerScript.Proofs.Parsing.Trees

/-!
Code for checked scripts.

Checking settles almost everything that the code of a script needs. It does not look at whether the
values that a statement forgets live on stacks, whether a word can count the parts of a text, and
whether the types that a script returns have defaults. Code is generated for a checked script if and
only if all of this is so.
-/

namespace TriggerScript

open List TriggerScript.Expr

variable {linkage : Linkage} {hooked : Prop}

/-- The trigger has a way to be called. -/
def Linkage.Calls (linkage : Linkage) (trigger : String) : Prop :=
  ((linkage.triggers.named? trigger).bind Trigger.call).isSome = true

namespace Expr

/-- A word can count the parts of a text. -/
def Sized : Expr → Prop
  | .concat _ parts => (partCount? parts).isSome = true
  | _ => True

variable {names : Names} {source expr : Expr}

/-- What the code of a checked expression needs itself is there, but for the size of a text. -/
theorem Elaborates.has_code (elaborated : Elaborates names source expr)
    (legal : names.Legal linkage.symbols) (readable : source.Read linkage.Calls hooked False)
    (sized : expr.Sized) : expr.HasCode linkage := by
  cases elaborated with
  | int | long | text | bool | coordgrid | emptyHook | config | calculation | arithmetic | logical
  | comparison => trivial
  | null declarable =>
    obtain ⟨stack, lives⟩ := Option.isSome_iff_exists.mp declarable
    exact ⟨_, stack, rfl, lives⟩
  | localVar found =>
    have declarable := legal.declarable _ (Scope.mem_of_lookup found)
    obtain ⟨stack, lives⟩ := Option.isSome_iff_exists.mp declarable
    exact ⟨_, stack, rfl, lives⟩
  | arrayElement => rfl
  | global found | constant found | command found | hook found =>
    rw [legal.same] at found
    exact Option.isSome_of_eq_some found
  | bare found =>
    obtain rfl := readable
    rw [legal.same] at found
    exact Option.isSome_of_eq_some found
  | call found =>
    rw [legal.same] at found
    exact ⟨Option.isSome_of_eq_some found, readable⟩
  | concat => exact sized
  | error => exact readable.elim

theorem Elaborates.every_has_code (elaborated : Elaborates names source expr)
    (legal : names.Legal linkage.symbols)
    (readable : source.Every (Expr.Read linkage.Calls hooked False))
    (sized : expr.Every Sized) : expr.Every (HasCode linkage) := by
  induction readable generalizing expr with
  | intro here _ ih =>
    refine .intro (elaborated.has_code legal here sized.here) fun part member => ?_
    exact each_of_elaborates elaborated.parts
      (fun source held expr elaborated => ih source held elaborated)
      part member (sized.within part member)

theorem each_has_code (elaborate : List.Forall₂ (Elaborates names) sources exprs)
    (legal : names.Legal linkage.symbols)
    (readable : ∀ source ∈ sources, source.Every (Expr.Read linkage.Calls hooked False))
    (sized : ∀ expr ∈ exprs, expr.Every Sized) : ∀ expr ∈ exprs, expr.Every (HasCode linkage) := by
  intro expr member
  exact each_of_elaborates elaborate
    (fun source held _ elaborated => elaborated.every_has_code legal (readable source held))
    expr member (sized expr member)

theorem Elaborates.storable (elaborated : Elaborates names source expr)
    (legal : names.Legal linkage.symbols) (place : source.IsPlace)
    (plain : Stmt.isArrayElement source = false) : expr.Storable linkage := by
  cases elaborated with
  | localVar found =>
    have declarable := legal.declarable _ (Scope.mem_of_lookup found)
    obtain ⟨stack, lives⟩ := Option.isSome_iff_exists.mp declarable
    exact ⟨_, stack, rfl, lives⟩
  | global found =>
    rw [legal.same] at found
    exact Option.isSome_of_eq_some found
  | arrayElement => cases plain
  | _ => exact place.elim

end Expr

namespace Stmt

/-- The values that a statement forgets live on stacks. -/
def Discardable : Stmt → Prop
  | .expr _ value => ∀ prim ∈ value.ty.flatten, prim.isDeclarable = true
  | _ => True

variable {returns : List Prim} {inLoop : Bool} {names after : Names} {source stmt : Stmt}

theorem assign_emittable {span : Span} {sources values : List Expr}
    (alone : (sources.length > 1 && sources.any isArrayElement) = false)
    (places : List.Forall₂ (Expr.Elaborates names) sources targets)
    (legal : names.Legal linkage.symbols) (assignable : ∀ source ∈ sources, source.IsPlace)
    (code : ∀ expr ∈ targets ++ values, expr.Every (HasCode linkage)) :
    (Stmt.assign span targets values).Emittable linkage inLoop := by
  rw [forall_mem_append] at code
  cases element : sources.any isArrayElement with
  | false =>
    refine .assign (each_of_elaborates places fun source member target elaborated => ?_) code.2
    have plain := any_eq_false.mp element source member
    exact elaborated.storable legal (assignable source member) (by simpa using plain)
  | true =>
    -- An element of an array is the only target.
    rw [element, Bool.and_true, decide_eq_false_iff_not] at alone
    match sources, places with
    | [], _ => cases element
    | [source], .cons place .nil =>
      rw [any_cons, any_nil, Bool.or_false] at element
      cases place with
      | arrayElement =>
        have inside := (code.1 _ (mem_singleton_self _)).within
        exact .assignElement (inside _ (mem_singleton_self _)) code.2
      | _ => cases element
    | _ :: _ :: _, _ => simp at alone

/-- Checking settles what the code of a statement needs, but for sizes of texts and stacks of
forgotten values. -/
theorem Elaborates.emittable (elaborated : Elaborates returns inLoop names source stmt after)
    (legal : names.Legal linkage.symbols)
    (readable : source.Every Read (Expr.Read linkage.Calls hooked False))
    (kept : stmt.Every Discardable Sized) : stmt.Emittable linkage inLoop := by
  induction readable generalizing inLoop names stmt after with
  | intro here _ ih =>
    obtain ⟨assignable, readable⟩ := here
    have code := each_has_code elaborated.exprs legal readable kept.here.2
    have parts : ∀ part ∈ stmt.parts, part.Emittable linkage (stmt.loops inLoop) :=
      fun part member =>
      elaborated.each_part legal (fun source held _ _ _ _ legal elaborated =>
        ih source held elaborated legal)
        part member (kept.within part member)
    cases elaborated with
    | block => exact .block parts
    | ifThen | whileLoop =>
      constructor
      · exact forall_mem_singleton.mp code
      · exact forall_mem_singleton.mp parts
    | ifElse =>
      obtain ⟨body, otherwise⟩ := forall_mem_cons.mp parts
      exact .ifElse (forall_mem_singleton.mp code) body (forall_mem_singleton.mp otherwise)
    | continueLoop => exact .continueLoop
    | breakLoop => exact .breakLoop
    | «return» => exact .return code
    | declare declarable =>
      obtain ⟨stack, lives⟩ := Option.isSome_iff_exists.mp declarable
      refine .declare lives fun expr member => ?_
      exact code expr (Option.mem_toList.mpr member)
    | declareDefault declarable =>
      obtain ⟨stack, lives⟩ := Option.isSome_iff_exists.mp declarable
      exact .declare lives fun _ member => nomatch member
    | declareArray => exact .declareArray (forall_mem_singleton.mp code)
    | assign alone places => exact assign_emittable alone places legal assignable code
    | switch | switchDefault =>
      refine .switch (forall_mem_singleton.mp code) (fun arm listed stmt held => ?_)
        fun arm listed stmt held => ?_
      · exact parts stmt (mem_flatMap.mpr ⟨arm, mem_append_left _ listed, held⟩)
      · exact parts stmt (mem_flatMap.mpr ⟨arm, mem_append_right _ (Option.mem_toList.mpr listed),
          held⟩)
    | expr => exact .expr (forall_mem_singleton.mp code) kept.here.1

end Stmt

/-! ### What code shows -/

/-- One property holds of all expressions in a phrase, and what its statements forget lives on
stacks. -/
def Phrase.Every (holds : Expr → Prop) : Phrase → Prop
  | .value expr | .truth expr _ _ => expr.Every holds
  | .values exprs => ∀ expr ∈ exprs, expr.Every holds
  | .stmt statement _ => statement.Every Stmt.Discardable holds
  | .stmts body _ => ∀ statement ∈ body, statement.Every Stmt.Discardable holds
  | .arms choices _ _ _ => ∀ arm ∈ choices, ∀ statement ∈ arm.body,
    statement.Every Stmt.Discardable holds

/-- A property of expressions that can be seen from their instructions, wherever these stand among
some items. -/
structure Expr.Shown (linkage : Linkage) (tables : List SwitchTable) (locals : LocalMap)
    (items : List Item)
    (holds : Expr → Prop) : Prop where
  applied : ∀ {expr args instruction low high code rest}, Applies linkage expr args instruction →
    Coded linkage tables locals (.values args) low high code → code ++ rest <:+ items →
    .op instruction ∈ items → holds expr
  stored : ∀ {target instruction}, Stores linkage target instruction → .op instruction ∈ items →
    holds target
  element : ∀ note name index slot, holds (.arrayElement note name index slot)
  calculation : ∀ note inner, holds (.calculation note inner)
  hook : ∀ note name args, holds (.hook note name args)
  binary : ∀ note operator left right, holds (.binary note operator left right)

theorem Stmt.declarable_of_stacks {prims : List Prim} {homes : List Stack}
    (lives : List.Forall₂ (fun prim stack => prim.stack? = some stack) prims homes) :
    ∀ prim ∈ prims, prim.isDeclarable = true := by
  induction lives with
  | nil => exact fun _ member => nomatch member
  | cons here _ ih => exact forall_mem_cons.mpr ⟨Option.isSome_of_eq_some here, ih⟩

section

variable {holds : Expr → Prop} {items : List Item}
  (shown : Expr.Shown linkage tables locals items holds)

include shown

theorem Expr.stores_shown (stores : List.Forall₂ (Stores linkage) targets instructions)
    (stand : ∀ instruction ∈ instructions, .op instruction ∈ items) :
    ∀ target ∈ targets, target.Every holds := by
  induction stores with
  | nil => exact fun _ member => nomatch member
  | cons stored _ ih =>
    rw [forall_mem_cons] at stand ⊢
    refine ⟨.leaf (shown.stored stored stand.1) ?_, ih stand.2⟩
    cases stored <;> rfl

/-- What is seen from the instructions of expressions holds throughout a phrase. -/
theorem Coded.every (coded : Coded linkage tables locals phrase low high code) (rest : List Item)
    (stands : code ++ rest <:+ items) : phrase.Every holds := by
  have nothing : ∀ stmt : Stmt, stmt.exprs = [] → ∀ expr ∈ stmt.exprs, expr.Every holds := by
    intro stmt empty expr member
    rw [empty] at member
    cases member
  have laid_stands :
    ∀ {instructions : List Instruction} {low high : Nat} {front tail rest : List Item},
      Laid instructions low high tail → front ++ (tail ++ rest) <:+ items →
      ∀ instruction ∈ instructions, .op instruction ∈ items := by
    intro _ _ _ _ _ _ laid stands instruction member
    refine stands.subset ?_
    simp [(Emission.mem_of_laid laid).mpr member]
  induction coded generalizing rest with try simp only [append_assoc, cons_append] at stands
  | apply applies parts laid ih =>
    refine .intro (shown.applied applies parts stands ?_) ?_
    · exact laid_stands laid stands _ (mem_singleton_self _)
    · rw [applies.parts_eq]
      exact ih _ stands
  | calculation _ ih =>
    exact .intro (shown.calculation _ _) (forall_mem_singleton.mpr (ih rest stands))
  | hook _ _ _ _ ih => exact .intro (shown.hook _ _ _) (ih _ ((suffix_append _ _).trans stands))
  | decided _ _ ih => exact ih _ stands
  | noValues | noStmts | noArms => exact fun _ member => nomatch member
  | someValues _ _ ih ih' | someStmts _ _ ih ih' =>
    exact forall_mem_cons.mpr ⟨ih _ stands, ih' _ ((suffix_append _ _).trans stands)⟩
  | someArms _ _ ih ih' =>
    have inside := (suffix_cons _ _).trans stands
    have behind := (suffix_append _ _).trans ((suffix_append _ _).trans inside)
    exact forall_mem_cons.mpr ⟨ih _ inside, ih' _ behind⟩
  | tested _ _ _ ih => exact ih _ stands
  | either _ _ ih ih' | both _ _ ih ih' =>
    have behind := (suffix_cons _ _).trans ((suffix_append _ _).trans stands)
    exact .intro (shown.binary _ _ _ _)
      (forall_mem_cons.mpr ⟨ih _ stands, forall_mem_singleton.mpr (ih' _ behind)⟩)
  | compared _ _ _ ih => exact .intro (shown.binary _ _ _ _) (ih _ stands)
  | block _ ih => exact .intro ⟨trivial, nothing _ rfl⟩ (ih _ stands)
  | ifThen _ _ ih ih' =>
    have inside := (suffix_cons _ _).trans ((suffix_append _ _).trans stands)
    exact .intro ⟨trivial, forall_mem_singleton.mpr (ih _ stands)⟩
      (forall_mem_singleton.mpr (ih' _ inside))
  | whileLoop _ _ ih ih' =>
    have test := (suffix_cons _ _).trans stands
    have inside := (suffix_cons _ _).trans ((suffix_append _ _).trans test)
    exact .intro ⟨trivial, forall_mem_singleton.mpr (ih _ test)⟩
      (forall_mem_singleton.mpr (ih' _ inside))
  | ifElse _ _ _ ih ih' other =>
    have inside := (suffix_cons _ _).trans ((suffix_append _ _).trans stands)
    have beside :=
      (suffix_cons _ _).trans ((suffix_append _ _).trans ((suffix_append _ _).trans inside))
    exact .intro ⟨trivial, forall_mem_singleton.mpr (ih _ stands)⟩
      (forall_mem_cons.mpr ⟨ih' _ inside, forall_mem_singleton.mpr (other _ beside)⟩)
  | continueLoop | breakLoop | declareDefault => exact .leaf ⟨trivial, nothing _ rfl⟩ rfl
  | «return» _ _ ih => exact .leaf ⟨trivial, ih _ stands⟩ rfl
  | declare _ _ _ _ ih | declareArray _ _ ih =>
    exact .leaf ⟨trivial, forall_mem_singleton.mpr (ih _ stands)⟩ rfl
  | assignElement _ _ ih =>
    obtain ⟨index, values⟩ := forall_mem_cons.mp (ih _ stands)
    refine .leaf ⟨trivial, forall_mem_cons.mpr ⟨?_, values⟩⟩ rfl
    exact .intro (shown.element _ _ _ _) (forall_mem_singleton.mpr index)
  | assign _ stores laid ih =>
    have targets := Expr.stores_shown shown stores (laid_stands laid stands)
    refine .leaf ⟨trivial, forall_mem_append.mpr ⟨fun target member => ?_, ih _ stands⟩⟩ rfl
    exact targets target (mem_reverse.mpr member)
  | discarded _ lives _ ih =>
    refine .leaf ⟨fun prim member => ?_, forall_mem_singleton.mpr (ih _ stands)⟩ rfl
    exact Stmt.declarable_of_stacks lives prim (mem_reverse.mpr member)
  | switch _ _ _ _ _ ih ih' =>
    have bodies :=
      (suffix_append _ _).trans ((suffix_append _ _).trans ((suffix_append _ _).trans stands))
    refine .intro ⟨trivial, forall_mem_singleton.mpr (ih _ stands)⟩ fun statement member => ?_
    obtain ⟨arm, listed, held⟩ := mem_flatMap.mp member
    rw [Option.toList_none, append_nil] at listed
    exact ih' _ bodies arm listed statement held
  | switchDefault _ _ _ _ _ _ ih ih' other =>
    have bodies :=
      (suffix_append _ _).trans ((suffix_append _ _).trans ((suffix_append _ _).trans stands))
    have beside := (suffix_cons _ _).trans ((suffix_append _ _).trans bodies)
    refine .intro ⟨trivial, forall_mem_singleton.mpr (ih _ stands)⟩ fun statement member => ?_
    obtain ⟨arm, listed, held⟩ := mem_flatMap.mp member
    rcases mem_append.mp listed with listed | last
    · exact ih' _ bodies arm listed statement held
    · rw [Option.toList_some, mem_singleton] at last
      rw [last] at held
      exact other _ beside statement held

end

theorem Expr.Applies.sized {expr : Expr} (applies : expr.Applies linkage args instruction) :
    expr.Sized := by
  cases applies with
  | concat fits => exact Option.isSome_of_eq_some fits
  | _ => trivial

theorem Expr.shown_sized : Expr.Shown linkage tables locals items Sized where
  applied applies _ _ _ := applies.sized
  stored stores _ := by cases stores <;> trivial
  element _ _ _ _ := trivial
  calculation _ _ := trivial
  hook _ _ _ := trivial
  binary _ _ _ _ := trivial

theorem Coded.kept (coded : Coded linkage tables locals phrase low high code) :
    phrase.Every Expr.Sized :=
  coded.every Expr.shown_sized [] (by rw [append_nil])

/-! ### Scripts -/

theorem Param.Elaborate.legal {after : Names}
    (elaborate : Param.Elaborate names params params' after)
    (declarable : ∀ param ∈ params, param.prim.isDeclarable = true) (legal : names.Legal symbols) :
    after.Legal symbols ∧ ∀ param ∈ params', ∃ target stack, param.target = some target ∧
      target.prim.stack? = some stack := by
  induction elaborate with
  | nil => exact ⟨legal, fun _ member => nomatch member⟩
  | cons opened _ ih =>
    rw [forall_mem_cons] at declarable
    obtain ⟨stack, lives⟩ := Option.isSome_iff_exists.mp declarable.1
    obtain ⟨legal, targets⟩ :=
      ih declarable.2 ((Names.Extends.declare declarable.1 opened).legal legal)
    exact ⟨legal, forall_mem_cons.mpr ⟨⟨_, stack, rfl, lives⟩, targets⟩⟩

namespace Script

/-- What checking does not look at: the values that a script forgets live on stacks, words can count
the parts of its texts, and the types that it returns have defaults unless its body ends in a
return. -/
structure Realizable (script : Script) : Prop where
  body : script.Every Stmt.Discardable Expr.Sized
  returns : Stmt.closesAll? script.body = some true ∨
    ∀ prim ∈ script.returns.flatten, prim.isDeclarable = true

theorem declarable_of_defaults {prims : List Prim} {values : List Value}
    (starts : List.Forall₂ (fun prim value => prim.default? = some value) prims values) :
    ∀ prim ∈ prims, prim.isDeclarable = true := by
  induction starts with
  | nil => exact fun _ member => nomatch member
  | @cons prim _ _ _ start _ ih =>
    refine forall_mem_cons.mpr ⟨?_, ih⟩
    cases prim <;> first | rfl | cases start

theorem Compiled.realizable {script : Script} (compiled : script.Compiled linkage routine) :
    script.Realizable := by
  obtain ⟨_, _, code, tail, _, coded, closing⟩ := compiled.coded
  refine ⟨coded.kept, ?_⟩
  cases closing with
  | ended ends => exact .inl ((Item.Ends.flow coded.ends).mp ends)
  | defaults starts _ => exact .inr (declarable_of_defaults starts)

section

variable {symbols : SymbolTable} {capacity : Nat} {source script : Script}

/-- What is known where the body of a script begins, and where its arguments are put. -/
theorem Elaborates.begins (elaborated : Elaborates symbols capacity source script)
    (declarable : ∀ param ∈ source.params, param.prim.isDeclarable = true) :
    ∃ names last, names.Legal symbols ∧
      Stmt.ElaborateAll source.returns.flatten false names source.body script.body last ∧
      ∀ param ∈ script.params, ∃ target stack, param.target = some target ∧
      target.prim.stack? = some stack := by
  obtain ⟨-, names, last, params, body⟩ := elaborated
  obtain ⟨legal, targets⟩ := params.legal declarable ⟨rfl, forall_mem_nil _, forall_mem_nil _⟩
  exact ⟨names, last, legal, body, targets⟩

/-- A checked script gets code if and only if what checking does not look at is as it should be. -/
theorem generate_ok_iff (read : source.Read (Linkage.Calls ⟨symbols, triggers⟩) hooked False)
    (checked : source.check symbols capacity = (script, [])) :
    (∃ routine, script.generate ⟨symbols, triggers⟩ = .ok routine) ↔ script.Realizable := by
  constructor
  · rintro ⟨routine, generated⟩
    exact (generate_compiled generated).realizable
  · intro realizable
    obtain ⟨names, last, legal, body, targets⟩ := (check_elaborates checked).begins read.params
    refine generate_succeeds ⟨targets, fun stmt member => ?_, realizable.returns⟩
    exact body.each legal (fun source held _ _ _ legal elaborated =>
      elaborated.emittable legal (read.body source held)) stmt member (realizable.body stmt member)

end

end Script

end TriggerScript
