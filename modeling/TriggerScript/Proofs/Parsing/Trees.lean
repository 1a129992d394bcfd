import TriggerScript.Proofs.Parsing.Nodes
import TriggerScript.Script.Declaration

/-!
What is read of scripts.

Every phrase finds trees whose nodes lie inside of the range that it has read, and that can be read
on the terms of its grammar.
-/

namespace TriggerScript

open List Parse

/-- The grammar knows only such triggers to call, and has hooks only if there may be some. -/
class Grammar.Admits (grammar : Grammar) (terms : Terms) : Prop where
  plain : ¬terms.lenient → grammar.vocabulary.Plain
  calls : ∀ kind trigger, grammar.callTrigger? kind = some trigger → terms.callable trigger
  hooks : ∀ name index, grammar.isHookArgument name index = true → terms.hooked

/-- Values that are nodes. -/
class Noded (α : Type) where
  node : α → Node

instance : Noded Ident := ⟨.ident⟩

instance : Noded Expr := ⟨.expr⟩

instance : Noded Stmt := ⟨.stmt⟩

instance : Noded Arm := ⟨.arm⟩

instance : Noded Annotation := ⟨.mark⟩

instance : Noded Param := ⟨.param⟩

instance : Noded Script := ⟨.script⟩

instance [Noded α] : Tree α := ⟨fun terms around value => (Noded.node value).Fits terms around⟩

/-- Statements and their range are a block. -/
instance : Tree (List Stmt × Span) :=
  ⟨fun terms around block => (Node.block block.2 block.1).Fits terms around⟩

instance : Tree (Span × List Stmt) :=
  ⟨fun terms around block => (Node.block block.1 block.2).Fits terms around⟩

/-- What is built for the whole range is read in it. -/
instance [Noded α] : Tree (Span → α) :=
  ⟨fun terms around build => (Noded.node (build around)).Fits terms around⟩

instance : Tree (Note → Expr) :=
  ⟨fun terms around build => (Node.expr (build (.ofSpan around))).Fits terms around⟩

variable {grammar : Grammar} {terms : Terms} {site : Site} {bound : Nat}

/-- What is built from a phrase and its range is read inside of that range. -/
theorem Parse.Finds.built {phrase : Parse α} [Tree α] [Noded β]
    (finds : ∀ site, phrase.Finds terms site) (build : α → Span → β)
    (built : ∀ within value, Tree.fits terms within value →
      Tree.fits terms within (build value within)) :
    (phrase.ranged >>= fun result => pure (build result.1 result.2)).Finds terms site := by
  let pairs :
    Tree (α × Span) := ⟨fun terms around result => Tree.fits terms around (build result.1 result.2)⟩
  have ranged : phrase.ranged.Finds terms site :=
    .ranged fun here inside => (built _ _ here).widen inside
  refine .bind fun result => ?_
  have fits : Fits terms (site.knowing (Tree.fits terms site.around result))
    (build result.1 result.2) := ⟨And.right⟩
  infer_instance

set_option synthInstance.maxSize 1000

/-! ### Words -/

instance {token : Token} [inside : Fits terms site token] : Fits terms site (Ident.ofToken token) :=
  ⟨fun known => ⟨inside.fits known, .leaf ⟨trivial, fun _ member => absurd member not_mem_nil⟩ rfl⟩⟩

instance : Ident.parse.Finds terms site :=
  inferInstanceAs ((expect .identifier >>= fun token => pure (Ident.ofToken token)).Finds
    terms site)

instance : Ident.parseAny.Finds terms site := by
  unfold Ident.parseAny
  infer_instance

/-- A type that is read is known. -/
instance : Tree Prim := ⟨fun _ _ prim => prim ≠ .undefined⟩

instance : Tree Ty := ⟨fun _ _ ty => ty.isUndefined = false⟩

theorem Prim.known_of_source {name : String} {prim : Prim} (found : ofSource? name = some prim) :
    prim ≠ .undefined := by
  rintro rfl
  simpa [isReferencable] using find?_some found

theorem Ty.known_of_list {prims : List Prim} (known : ∀ prim ∈ prims, prim ≠ .undefined) :
    (ofList prims).isUndefined = false := by
  match prims with
  | [] => rfl
  | [prim] => simpa [ofList, isUndefined, undefined] using known
  | _ :: _ :: _ => rfl

instance (kind : TokenKind) (mark : String) : (Prim.parseMarked kind mark).Finds terms site := by
  refine Finds.bind fun token => ?_
  split
  · rename_i prim found
    have known (site : Site) : Fits terms site prim := by
      obtain ⟨name, -, found⟩ := Option.bind_eq_some_iff.mp found
      exact ⟨fun _ => Prim.known_of_source found⟩
    infer_instance
  · infer_instance

/-! ### Expressions -/

namespace Expr

instance : (ahead grammar).Finds terms site := by
  unfold ahead
  infer_instance

section

variable {name : Ident} {index inner : Expr} {args : List Expr}

theorem fits_build (name? : Option Ident) (args : List Expr) [named : Fits terms site name?]
    [parts : Fits terms site args] {build : Note → Expr}
    (shape : ((build (.ofSpan site.around)).span, (build (.ofSpan site.around)).name?,
      (build (.ofSpan site.around)).parts) = (site.around, name?, args))
    (here : site.given → (build (.ofSpan site.around)).Read terms.callable terms.hooked
      terms.lenient) :
    Fits terms site build := by
  obtain ⟨place, shape⟩ := Prod.mk.inj shape
  obtain ⟨rfl, rfl⟩ := Prod.mk.inj shape
  refine ⟨fun known => .intro place (here known)
    (forall_mem_append.mpr ⟨?_, forall_mem_map.mpr (parts.fits known)⟩)⟩
  exact forall_mem_map.mpr fun name held => named.fits known name (Option.mem_toList.mp held)

instance {value : Int32} : Fits terms site fun note => int note value :=
  fits_build none [] rfl fun _ => trivial

instance {value : Int64} : Fits terms site fun note => long note value :=
  fits_build none [] rfl fun _ => trivial

instance {value : Int32} : Fits terms site fun note => coordgrid note value :=
  fits_build none [] rfl fun _ => trivial

instance {value : String} : Fits terms site fun note => text note value :=
  fits_build none [] rfl fun _ => trivial

instance {value : Bool} : Fits terms site fun note => bool note value :=
  fits_build none [] rfl fun _ => trivial

instance : Fits terms site null := fits_build none [] rfl fun _ => trivial

instance : Fits terms (site.knowing terms.lenient) error := fits_build none [] rfl And.right

instance : Fits terms (site.knowing (Tree.fits terms site.around TokenKind.error)) error :=
  fits_build none [] rfl fun known => known.2 rfl

instance [Fits terms site name] : Fits terms site fun note => localVar note name none :=
  fits_build (some name) [] rfl fun _ => trivial

instance [Fits terms site name] [Fits terms site index] :
    Fits terms site fun note => arrayElement note name index none :=
  fits_build (some name) [index] rfl fun _ => trivial

instance [Fits terms site name] : Fits terms site fun note => global note name :=
  fits_build (some name) [] rfl fun _ => trivial

instance [Fits terms site name] : Fits terms site fun note => constant note name :=
  fits_build (some name) [] rfl fun _ => trivial

instance [Fits terms site name] : Fits terms site fun note => bare note name none :=
  fits_build (some name) [] rfl fun _ => rfl

instance {alternative : Bool} [Fits terms site name] [Fits terms site args] :
    Fits terms site fun note => command note name alternative args :=
  fits_build (some name) args rfl fun _ => trivial

instance {trigger : String} [known : Fact (terms.callable trigger)] [Fits terms site name]
    [Fits terms site args] : Fits terms site fun note => call note trigger name args :=
  fits_build (some name) args rfl fun _ => known.out

instance [allowed : Fact terms.hooked] : Fits terms site emptyHook :=
  fits_build none [] rfl fun _ => allowed.out

instance [allowed : Fact terms.hooked] [Fits terms site name] [Fits terms site args] :
    Fits terms site fun note => hook note name args :=
  fits_build (some name) args rfl fun _ => allowed.out

instance [Fits terms site args] : Fits terms site fun note => concat note args :=
  fits_build none args rfl fun _ => trivial

instance [Fits terms site inner] : Fits terms site fun note => calculation note inner :=
  fits_build none [inner] rfl fun _ => trivial

instance {operator : Operator} {left right : Expr} [first : Fits terms site left]
    [second : Fits terms site right] : Fits terms site (combine operator left right) := by
  refine ⟨fun known => ?_⟩
  have inside : (Node.expr (combine operator left right)).Fits terms
    (left.span.merge right.span) := by
    refine .intro rfl trivial (forall_mem_cons.mpr ⟨⟨?_, (first.fits known).sound⟩,
      forall_mem_singleton.mpr
      ⟨?_, (second.fits known).sound⟩⟩)
    · exact Span.contains_merge_left _ _
    · exact Span.contains_merge_right _ _
  exact inside.widen (Span.contains_merge (first.fits known).inside (second.fits known).inside)

end

theorem finds_noted {phrase : Parse (Note → Expr)} (finds : ∀ site, phrase.Finds terms site) :
    (noted phrase).Finds terms site :=
  .built finds (fun (build : Note → Expr) span => build (.ofSpan span)) fun _ _ => id

instance {argument : Nat → Parse Expr} [∀ index site, (argument index).Finds terms site] :
    (arguments grammar argument bound).Finds terms site := by
  unfold arguments
  infer_instance

section

variable {expression : Parse Expr} [∀ site, expression.Finds terms site]

instance : (parenthesized expression).Finds terms site := by
  unfold parenthesized
  infer_instance

instance : (variableName expression).Finds terms site := by
  unfold variableName
  infer_instance

instance [Fact terms.hooked] : (hookBody grammar expression bound).Finds terms site := by
  unfold hookBody
  infer_instance

variable [admits : grammar.Admits terms]

instance : (callPhrase grammar expression bound).Finds terms site := by
  refine Finds.bind fun operator => ?_
  split
  · infer_instance
  · have known : Fact (terms.callable _) := ⟨admits.calls _ _ ‹_›⟩
    infer_instance

instance [Fact terms.hooked] : (hookPhrase grammar expression bound).Finds terms site := by
  have inside (token : Token) (site : Site) :
      ((hookBody grammar expression bound).embedded (hookText grammar token)).Finds terms site :=
        .embedded admits.plain
  exact finds_noted inferInstance

instance {name : Ident} {index : Nat} :
    (commandArgument grammar expression bound name index).Finds terms site := by
  unfold commandArgument
  split
  · have allowed : Fact terms.hooked := ⟨admits.hooks _ _ ‹_›⟩
    refine Finds.bind fun found => ?_
    split <;> infer_instance
  · infer_instance

instance : (commandPhrase grammar expression bound).Finds terms site := by
  unfold commandPhrase
  infer_instance

end

section

variable [grammar.Admits terms] {expression : Bool → Parse Expr}
  [∀ inCalc site, (expression inCalc).Finds terms site]
  {inCalc : Bool}

instance : (atom grammar expression inCalc bound).Finds terms site := by
  refine Finds.bind fun kind => ?_
  split <;> infer_instance

instance : (primary grammar expression inCalc bound).Finds terms site := by
  have noted (site : Site) : (noted (atom grammar expression inCalc bound)).Finds terms site :=
    finds_noted inferInstance
  unfold primary
  infer_instance

end

section

variable {inCalc : Bool} {operand : Parse Expr} [∀ site, operand.Finds terms site]

instance {level : List Operator} {left : Expr} [Fits terms site left] :
    (operands inCalc level operand left bound).Finds terms site := by
  induction bound generalizing site left with
  | zero => exact inferInstanceAs ((exhaust : Parse Expr).Finds terms site)
  | succ bound ih =>
    refine Finds.bind fun kind => ?_
    split <;> infer_instance

instance {levels : List (List Operator)} :
    (operation inCalc bound operand levels).Finds terms site := by
  induction levels generalizing site with
  | nil => exact inferInstanceAs (operand.Finds terms site)
  | cons level tighter ih =>
    unfold operation
    infer_instance

end

instance [grammar.Admits terms] (inCalc : Bool) :
    (parse grammar bound inCalc).Finds terms site := by
  induction bound generalizing inCalc site with
  | zero => exact inferInstanceAs ((exhaust : Parse Expr).Finds terms site)
  | succ bound ih =>
    unfold parse
    infer_instance

end Expr

/-! ### Statements -/

namespace Stmt

instance : (ahead grammar).Finds terms site := by
  unfold ahead
  infer_instance

section

variable {prim : Prim} {name : Ident} {init : Option Expr} {condition : Expr} {values : List Expr}
  {body otherwise : Stmt}

theorem fits_build (name? : Option Ident) (values : List Expr) (body : List Stmt)
    [named : Fits terms site name?] [exprs : Fits terms site values] [parts : Fits terms site body]
    {build : Span → Stmt}
    (shape : ((build site.around).span, (Node.stmt (build site.around)).children) =
      (site.around, name?.toList.map .ident ++ values.map .expr ++ body.map .stmt))
    (here : site.given → (Node.stmt (build site.around)).Read terms) : Fits terms site build := by
  obtain ⟨place, shape⟩ := Prod.mk.inj shape
  refine ⟨fun known => .intro place (here known)
    (shape ▸ forall_mem_append.mpr ⟨forall_mem_append.mpr ⟨?_, ?_⟩, ?_⟩)⟩
  · exact forall_mem_map.mpr fun _ held => named.fits known _ (Option.mem_toList.mp held)
  · exact forall_mem_map.mpr (exprs.fits known)
  · exact forall_mem_map.mpr (parts.fits known)

instance : Fits terms site continueLoop := fits_build none [] [] rfl fun _ => trivial

instance : Fits terms site breakLoop := fits_build none [] [] rfl fun _ => trivial

instance [Fits terms site values] : Fits terms site fun span => «return» span values :=
  fits_build none values [] rfl fun _ => trivial

instance [Fits terms site name] [given : Fits terms site init] :
    Fits terms site fun span => declare span prim name init none := by
  have listed : Fits terms site init.toList :=
    ⟨fun known _ held => given.fits known _ (Option.mem_toList.mp held)⟩
  exact fits_build (some name) init.toList [] rfl fun _ => trivial

instance [Fits terms site name] [Fits terms site condition] :
    Fits terms site fun span => declareArray span prim name condition none :=
  fits_build (some name) [condition] [] rfl fun _ => trivial

instance [Fits terms site condition] : Fits terms site fun span => expr span condition :=
  fits_build none [condition] [] rfl fun _ => trivial

instance [Fits terms site condition] [Fits terms site body] :
    Fits terms site fun span => ifThen span condition body :=
  fits_build none [condition] [body] rfl fun _ => trivial

instance [Fits terms site condition] [Fits terms site body] [Fits terms site otherwise] :
    Fits terms site fun span => ifElse span condition body otherwise :=
  fits_build none [condition] [body, otherwise] rfl fun _ => trivial

instance [Fits terms site condition] [Fits terms site body] :
    Fits terms site fun span => whileLoop span condition body :=
  fits_build none [condition] [body] rfl fun _ => trivial

instance {inner : Span} {body : List Stmt} [here : Fits terms site (inner, body)] :
    Fits terms site fun span => block span inner body :=
  ⟨fun known => .intro rfl trivial (forall_mem_singleton.mpr (here.fits known))⟩

instance {arms : List Arm} {fallback : Option Arm} [test : Fits terms site condition]
    [cases : Fits terms site arms] [other : Fits terms site fallback] :
    Fits terms site fun span => switch span prim condition arms fallback := by
  refine ⟨fun known => .intro rfl trivial
    (forall_mem_cons.mpr ⟨test.fits known, forall_mem_map.mpr ?_⟩)⟩
  exact forall_mem_append.mpr ⟨cases.fits known,
    fun arm held => other.fits known arm (Option.mem_toList.mp held)⟩

end

section

variable {expression : Parse Expr} [∀ site, expression.Finds terms site]

instance {build : Span → Stmt} [∀ site, Fits terms site build] :
    (parseWord build).Finds terms site := by
  unfold parseWord
  infer_instance

instance : (parseReturn grammar expression bound).Finds terms site := by
  unfold parseReturn
  infer_instance

instance : (parseDeclare expression).Finds terms site := by
  refine Finds.bind fun (prim, _) => ?_
  infer_instance

instance : (parseDeclareArray expression).Finds terms site := by
  refine Finds.bind fun (prim, _) => ?_
  infer_instance

instance : (parseTarget expression).Finds terms site := by
  refine Expr.finds_noted fun site => .bind fun token => ?_
  split <;> infer_instance

omit [∀ site, expression.Finds terms site] in
theorem only_targets : (separated (fun _ => parseTarget expression) 0 bound).Only fun targets =>
    ∀ target ∈ targets, target.IsPlace := by
  refine only_separated (fun _ => ?_) 0 bound
  refine Only.bind (Only.ranged (only_bind fun token => ?_ : Only _ fun build : Note → Expr =>
    ∀ note, (build note).IsPlace)) fun (build, span) here => only_pure (here _)
  split
  · refine only_bind fun name => only_bind fun opened => ?_
    split
    · exact only_bind fun index => only_bind fun _ => only_pure fun _ => trivial
    · exact only_pure fun _ => trivial
  · refine only_bind fun name => only_bind fun found => ?_
    split
    · exact only_reject
    · exact only_pure fun _ => trivial
  · exact only_reject

instance : (parseAssign expression bound).Finds terms site := by
  refine .bind_only only_targets fun targets places => ?_
  have built (site : Site) (values : List Expr) [assigned : Fits terms site targets]
    [given : Fits terms site values] :
      Fits terms site fun span => assign span targets values := by
    have exprs : Fits terms site (targets ++ values) :=
      ⟨fun known => forall_mem_append.mpr ⟨assigned.fits known, given.fits known⟩⟩
    exact fits_build none (targets ++ values) [] rfl fun _ => places
  infer_instance

end

section

variable {expression : Parse Expr} [∀ site, expression.Finds terms site] {statement : Parse Stmt}
  [∀ site, statement.Finds terms site]

instance : (parseIf expression statement).Finds terms site := by
  unfold parseIf
  infer_instance

instance : (parseWhile expression statement).Finds terms site := by
  unfold parseWhile
  infer_instance

instance : (parseSequence grammar statement bound).Finds terms site :=
  .ranged fun here inside => Node.Fits.widen (.intro rfl trivial (forall_mem_map.mpr here)) inside

instance {body : List Stmt} {inner : Span} [here : Fits terms site (body, inner)] :
    Fits terms site (inner, body) :=
  ⟨here.fits⟩

instance : (parseBlock grammar statement bound).Finds terms site := by
  refine Finds.bind fun _ => .bind fun (body, inner) => ?_
  infer_instance

instance : (parseArm grammar expression statement bound).Finds terms site := by
  have closed (site : Site) (keys : List Expr) [Fits terms site keys] : (expect .colon >>= fun _ =>
      parseSequence grammar statement bound >>= fun block =>
        pure (keys, block.2, block.1)).Finds terms site := by
    refine Finds.bind fun _ => .bind fun (body, inner) => ?_
    infer_instance
  refine .built (fun site => .bind fun _ => .bind fun fallback => ?_)
    (fun (read : List Expr × Span × List Stmt) span => Arm.mk span read.2.1 read.1 [] read.2.2)
    fun within read here => ?_
  · split
    · exact closed _ []
    · exact .bind fun keys => closed _ keys
  · exact .intro rfl trivial (forall_mem_append.mpr ⟨forall_mem_map.mpr here.1,
      forall_mem_singleton.mpr here.2⟩)

instance {arm : Parse Arm} [∀ site, arm.Finds terms site] {fallback : Option Arm}
    [Fits terms site fallback] : (parseArms arm fallback bound).Finds terms site := by
  induction bound generalizing fallback site with
  | zero => exact inferInstanceAs ((exhaust : Parse (List Arm × Option Arm)).Finds terms site)
  | succ bound ih =>
    refine Finds.bind fun closed => ?_
    split
    · infer_instance
    · refine Finds.bind fun next => ?_
      split
      · refine Finds.bind fun (arms, fallback) => ?_
        infer_instance
      · infer_instance

instance : (parseSwitch grammar expression statement bound).Finds terms site := by
  refine Finds.bind fun (prim, _) => .bind fun condition => .bind fun _ =>
    .bind fun (arms, fallback) => ?_
  infer_instance

instance : (parseForm grammar expression statement bound).Finds terms site := by
  refine Finds.bind fun kind => ?_
  split <;> infer_instance

end

instance [grammar.Admits terms] : (parse grammar bound).Finds terms site := by
  induction bound generalizing site with
  | zero => exact inferInstanceAs ((exhaust : Parse Stmt).Finds terms site)
  | succ bound ih =>
    exact .built inferInstance (fun (build : Span → Stmt) span => build span) fun _ _ => id

end Stmt

/-! ### Scripts -/

namespace Script

instance : annotationAhead.Finds terms site := by
  unfold annotationAhead
  infer_instance

instance : parameterAhead.Finds terms site := by
  refine Finds.bind fun kind => ?_
  split <;> infer_instance

instance {types : List (Prim × Span)} [here : Fits terms site types] :
    Fits terms site (Ty.ofList (types.map Prod.fst)) :=
  ⟨fun known => Ty.known_of_list (forall_mem_map.mpr fun _ member => (here.fits known _ member).1)⟩

instance : (parseTypes bound).Finds terms site := by
  unfold parseTypes
  infer_instance

instance {phrase : Parse α} [Tree α] [∀ site, phrase.Finds terms site] :
    (parseGroup phrase).Finds terms site := by
  unfold parseGroup
  infer_instance

instance : parseAnnotation.Finds terms site := by
  refine .built (fun site => .bind fun _ => .bind fun name => .bind fun _ => .bind fun token => ?_)
    (fun (read : Ident × Int32) span => Annotation.mk read.1 read.2 span) fun within read here => ?_
  · split <;> infer_instance
  · exact .intro rfl trivial (forall_mem_singleton.mpr here.1)

/-- The type of a parameter can be declared. -/
instance : Tree (Prim × Ident) :=
  ⟨fun terms around typed => typed.1.isDeclarable = true ∧ Tree.fits terms around typed.2⟩

instance : parseParameter.Finds terms site := by
  refine .built (fun site => .bind fun kind => ?_)
    (fun (read : Prim × Ident) span => Param.mk read.1 read.2 span none) fun within read here => ?_
  · split
    · infer_instance
    · refine Finds.bind fun (prim, place) => ?_
      dsimp only
      split
      · infer_instance
      · rename_i declarable
        have built (site : Site) (name : Ident) [here : Fits terms site name] :
          Fits terms site (prim, name) :=
          ⟨fun known => ⟨by simpa using declarable, here.fits known⟩⟩
        infer_instance
  · exact .intro rfl here.1 (forall_mem_singleton.mpr here.2)

instance : (parseParameters bound).Finds terms site := by
  unfold parseParameters
  infer_instance

instance {value? : Option α} {other : α} [Tree α] [given : Fits terms site value?]
    [stands : Fits terms site other] : Fits terms site (value?.getD other) := by
  cases value? with
  | none => exact stands
  | some value => exact ⟨fun known => given.fits known value rfl⟩

instance : Fits terms site Ty.void := ⟨fun _ => rfl⟩

instance : (parseSignature bound).Finds terms site := by
  refine Finds.bind fun first => ?_
  split
  · rename_i returns
    have typed :
      Fits terms
      (site.knowing (Tree.fits terms site.around (some (Sum.inr returns : List Param ⊕ Ty))))
      returns :=
      ⟨fun known => known.2 _ rfl⟩
    infer_instance
  · rename_i params
    have listed :
      Fits terms
      (site.knowing (Tree.fits terms site.around (some (Sum.inl params : List Param ⊕ Ty))))
      params :=
      ⟨fun known => known.2 _ rfl⟩
    infer_instance
  · infer_instance

instance {annotations : List Annotation} {trigger name : Ident} {params : List Param} {returns : Ty}
    {body : List Stmt} {inner : Span} [noted : Fits terms site annotations]
    [started : Fits terms site trigger] [named : Fits terms site name]
    [taken : Fits terms site params] [typed : Fits terms site returns]
    [block : Fits terms site (body, inner)] :
    Fits terms site fun span =>
      (⟨annotations, trigger, name, params, returns, inner, body, span⟩ : Script) := by
  refine ⟨fun known => .intro rfl (typed.fits known) (forall_mem_append.mpr ⟨forall_mem_append.mpr
    ⟨forall_mem_map.mpr (noted.fits known), forall_mem_cons.mpr ⟨started.fits known, ?_⟩⟩, ?_⟩)⟩
  · exact forall_mem_cons.mpr ⟨named.fits known, forall_mem_map.mpr (taken.fits known)⟩
  · exact forall_mem_singleton.mpr (block.fits known)

instance [grammar.Admits terms] : (parse grammar bound).Finds terms site := by
  refine .built (fun site => .bind fun annotations => .bind fun _ => .bind fun trigger =>
    .bind fun _ => .bind fun name =>
    .bind fun _ => .bind fun (params, returns) => .bind fun (body, inner) => ?_)
    (fun (build : Span → Script) span => build span) fun _ _ => id
  infer_instance

end Script

/-! ### Declarations -/

theorem Link.prepend_snd (values : List α) (result : Outcome (List α) × Cursor) :
    (Link.prepend values result).2 = result.2 := by
  rcases result with ⟨_ | _ | _, _⟩ <;> rfl

theorem Link.found_of_prepend {values all : List α} {result : Outcome (List α) × Cursor}
    (found : (Link.prepend values result).1 = .found all) :
    ∃ rest, result.1 = .found rest ∧ all = values ++ rest := by
  rcases result with ⟨rest | _ | _, _⟩ <;> cases found
  exact ⟨rest, rfl, rfl⟩

section

variable {phrase : Parse α} {recover : Parse Unit} [Tree α]
  [finds : ∀ site, phrase.Finds terms site]
  [recovers : ∀ site, recover.Finds terms site]

theorem leads_declarations (strict : ¬terms.lenient) (cursor : Cursor) :
    cursor.Leads (declarations phrase recover bound cursor).2 := by
  induction bound generalizing cursor with
  | zero => exact .refl cursor
  | succ bound ih =>
    have filled : cursor.Leads (cursor.fill 0) :=
      Cursor.leads_of_stream (cursor.stream.leads_fill 0)
    have here := filled.trans ((finds ⟨True, .empty⟩).leads strict (cursor.fill 0))
    rw [declarations_succ]
    split
    · exact filled
    · rcases ran : phrase (cursor.fill 0) with ⟨value | fault | _, behind⟩ <;> rw [ran] at here
      · rw [Link.prepend_snd]
        exact here.trans (ih behind)
      · refine (here.trans (behind.leads_of_faults [fault])).trans ?_
        exact leads_bind ((recovers ⟨True, .empty⟩).leads strict _) fun _ _ => ih
      · exact here

theorem fits_of_declarations {cursor : Cursor} {values : List α}
    (found : (declarations phrase recover bound cursor).1 = .found values)
    (clean : cursor.Clean terms (declarations phrase recover bound cursor).2) :
    ∀ value ∈ values, ∃ around, Tree.fits terms around value := by
  induction bound generalizing cursor values with
  | zero => cases found
  | succ bound ih =>
    have honest strict := ((cursor.stream.leads_fill 0) (clean strict).1).1
    have here strict := (finds ⟨True, .empty⟩).leads strict (cursor.fill 0) (honest strict)
    rw [declarations_succ] at found clean
    split at found
    · cases found
      exact forall_mem_nil _
    · rw [if_neg ‹_›] at clean
      rcases ran : phrase (cursor.fill 0) with ⟨value | fault | _, behind⟩ <;>
        rw [ran] at found clean here
      · obtain ⟨rest, later, rfl⟩ := Link.found_of_prepend found
        rw [Link.prepend_snd] at clean
        refine forall_mem_cons.mpr ⟨⟨behind.range, ?_⟩,
          ih later fun strict => ⟨(here strict).1, (clean strict).2⟩⟩
        refine (finds ⟨True, behind.range⟩).fits trivial (cursor.fill 0) value
          (congrArg Prod.fst ran) ?_ fun strict => ?_
        · exact ran ▸ behind.range.contains_refl
        · refine ⟨honest strict, ran ▸ fun faulty => (clean strict).2 ?_⟩
          exact (leads_declarations strict behind (here strict).1).2 faulty
      · obtain ⟨_, -, rest, -, clean⟩ :=
          parts_of_clean (fun strict => (recovers ⟨True, .empty⟩).leads strict _)
          (fun strict _ _ => leads_declarations strict) found fun strict =>
            ⟨((behind.leads_of_faults _) (here strict).1).1, (clean strict).2⟩
        exact ih (rest ▸ found) clean
      · cases found

end

/-- What declarations find: in any case leniently, and strictly if no fault was found. -/
theorem sound_of_declarations [Noded α] {phrase : Parse α} {recover : Parse Unit}
    [∀ site, phrase.Finds terms site] [∀ site, recover.Finds terms site] {cursor behind : Cursor}
    {values : List α} (honest : ¬terms.lenient → cursor.Honest)
    (found : declarations phrase recover bound cursor = (.found values, behind))
    (clean : terms.lenient ∨ behind.finish = []) :
    ∀ value ∈ values, (Noded.node value).Sound terms := by
  intro value member
  have faultless : cursor.Clean terms (declarations phrase recover bound cursor).2 := by
    intro strict
    rw [found]
    exact ⟨honest strict, Cursor.not_faulty_of_finish (clean.resolve_left strict)⟩
  obtain ⟨_, here⟩ := fits_of_declarations (congrArg Prod.fst found) faultless value member
  exact here.sound

theorem Grammar.scripts_sound [admits : grammar.Admits terms] (member : script ∈ grammar.scripts.1)
    (clean : terms.lenient ∨ grammar.scripts.2 = []) : (Node.script script).Sound terms := by
  unfold Grammar.scripts at member clean
  split at member
  · rename_i found
    rw [found] at clean
    have honest strict : grammar.start.Honest :=
      forall_mem_singleton.mpr ⟨admits.plain strict, fun _ held => absurd held not_mem_nil⟩
    exact sound_of_declarations honest found clean script member
  · cases member

theorem Grammar.scripts_read (admits : grammar.Admits ⟨callable, hooked, lenient⟩)
    (member : script ∈ grammar.scripts.1) (clean : lenient ∨ grammar.scripts.2 = []) :
    script.Read callable hooked lenient := by
  have sound : (Node.script script).Sound ⟨callable, hooked, lenient⟩ := scripts_sound member clean
  exact sound.legible

end TriggerScript
