import TriggerScript.Config.Tree
import TriggerScript.Proofs.Parsing.Found
import TriggerScript.Proofs.Script.Parts

/-!
Trees that were read.

What is found in a source has a place there, and what lies in it lies in that place. On given terms
only some of what a tree can express is read.
-/

namespace TriggerScript

open List

variable {callable : String → Prop} {hooked lenient : Prop} {script : Script}

namespace Expr

/-- What can be read, with given triggers to call, perhaps with hooks, and leniently perhaps with
parts that could not be read. -/
def Read (callable : String → Prop) (hooked lenient : Prop) : Expr → Prop
  | .bare _ _ config => config = none
  | .call _ trigger _ _ => callable trigger
  | .emptyHook _ | .hook _ _ _ => hooked
  | .error _ => lenient
  | _ => True

/-- The expression could be read. -/
def Intact : Expr → Prop
  | .error _ => False
  | _ => True

/-- A name on its own is not yet a configuration. -/
def Unresolved : Expr → Prop
  | .bare _ _ config => config = none
  | _ => True

/-- A value can be stored into it. -/
def IsPlace : Expr → Prop
  | .localVar _ _ _ | .arrayElement _ _ _ _ | .global _ _ => True
  | _ => False

/-- The expression can be read throughout. -/
abbrev Legible (callable : String → Prop) (hooked lenient : Prop) : Expr → Prop :=
  Every (Read callable hooked lenient)

theorem Read.unresolved {expr : Expr} (read : expr.Read callable hooked lenient) :
    expr.Unresolved := by
  cases expr with
  | bare => exact read
  | _ => trivial

theorem Read.strict {expr : Expr} (read : expr.Read callable hooked lenient)
    (intact : expr.Intact) :
    expr.Read callable hooked False := by
  cases expr with
  | error => exact intact
  | _ => exact read

end Expr

namespace Stmt

/-- What is assigned to are places, and no key of a case is yet a configuration. -/
def Read : Stmt → Prop
  | .assign _ targets _ => ∀ target ∈ targets, target.IsPlace
  | .switch _ _ _ arms _ => ∀ arm ∈ arms, ∀ key ∈ arm.keys, key.Every Expr.Unresolved
  | _ => True

/-- The statement can be read throughout. -/
abbrev Legible (callable : String → Prop) (hooked lenient : Prop) : Stmt → Prop :=
  Every Read (Expr.Read callable hooked lenient)

end Stmt

/-- The case of a switch can be read. -/
structure Arm.Legible (callable : String → Prop) (hooked lenient : Prop) (arm : Arm) : Prop where
  keys : ∀ key ∈ arm.keys, key.Every Expr.Unresolved
  body : ∀ stmt ∈ arm.body, stmt.Legible callable hooked lenient

/-- What can be read of a script. -/
structure Script.Read (callable : String → Prop) (hooked lenient : Prop) (script : Script) :
    Prop where
  params : ∀ param ∈ script.params, param.prim.isDeclarable = true
  returns : script.returns.isUndefined = false
  body : ∀ stmt ∈ script.body, stmt.Legible callable hooked lenient

/-- The script could be read everywhere. -/
def Script.Intact (script : Script) : Prop := script.Every (fun _ => True) Expr.Intact

theorem Script.Read.strict (read : script.Read callable hooked lenient) (intact : script.Intact) :
    script.Read callable hooked False := by
  refine ⟨read.params, read.returns, fun stmt member => ?_⟩
  refine (Stmt.every_and (read.body stmt member) (intact stmt member)).mono fun stmt here => ?_
  exact ⟨here.1, fun expr held => (here.2 expr held).mono fun _ both => both.1.strict both.2⟩

theorem Script.Read.intact (read : script.Read callable hooked False) : script.Intact := by
  intro stmt member
  refine (read.body stmt member).mono fun stmt here => ⟨trivial, fun expr held => ?_⟩
  refine (here.2 expr held).mono fun expr readable => ?_
  cases expr with
  | error => exact readable
  | _ => trivial

/-! ### Nodes -/

/-- A part of a tree that has a range. -/
inductive Node where
  | script (script : Script)
  | mark (mark : Annotation)
  | param (param : Param)
  | block (span : Span) (body : List Stmt)
  | stmt (stmt : Stmt)
  | arm (arm : Arm)
  | expr (expr : Expr)
  | ident (name : Ident)
  | config (config : Config)
  | property (property : Property)
  | constant (constant : Constant)
  | value (value : ConfigValue)

/-- The name that is written in an expression itself. -/
def Expr.name? : Expr → Option Ident
  | .localVar _ name _ | .arrayElement _ name _ _ | .global _ name | .constant _ name
  | .bare _ name _
  | .command _ name _ _ | .call _ _ name _ | .hook _ name _ => some name
  | _ => none

/-- The name that a statement declares. -/
def Stmt.name? : Stmt → Option Ident
  | .declare _ _ name _ _ | .declareArray _ _ name _ _ => some name
  | _ => none

/-- The name that is written in a value. -/
def ValueForm.name? : ValueForm → Option Ident
  | .constant name | .reference name => some name
  | _ => none

namespace Node

def span : Node → Span
  | .script here => here.span
  | .mark here => here.span
  | .param here => here.span
  | .block here _ => here
  | .stmt here => here.span
  | .arm here => here.span
  | .expr here => here.span
  | .ident here => here.span
  | .config here => here.span
  | .property here => here.span
  | .constant here => here.span
  | .value here => here.span

/-- The nodes directly inside of a node. -/
def children : Node → List Node
  | .script here => here.annotations.map mark ++ ident here.trigger :: ident here.name ::
      here.params.map param ++ [block here.inner here.body]
  | .mark here => [ident here.name]
  | .param here => [ident here.name]
  | .block _ body => body.map stmt
  | .stmt (.block _ inner body) => [block inner body]
  | .stmt (.switch _ _ condition arms fallback) =>
    expr condition :: (arms ++ fallback.toList).map arm
  | .stmt here => here.name?.toList.map ident ++ here.exprs.map expr ++ here.parts.map stmt
  | .arm (.mk _ inner keys _ body) => keys.map expr ++ [block inner body]
  | .expr here => here.name?.toList.map ident ++ here.parts.map expr
  | .ident _ => []
  | .config here => ident here.name :: here.properties.map property
  | .property here => ident here.key :: here.values.map value
  | .constant here => [ident here.name, value here.value]
  | .value here => here.form.name?.toList.map ident

/-- The node lies in a tree, or is its root. -/
abbrev Below (root node : Node) : Prop :=
  Relation.ReflTransGen (fun node child => child ∈ node.children) root node

/-- Nothing could be read where the node stands. -/
def IsError : Node → Prop
  | .expr (.error _) => True
  | .value here => here.form = .error
  | _ => False

/-- The range of the node holds the ranges of its children. -/
def Nests (node : Node) : Prop := ∀ child ∈ node.children, node.span.contains child.span = true

theorem below_of_throughout {holds : Node → Prop} {root node : Node}
    (throughout : Throughout children holds root) (below : Below root node) : holds node := by
  suffices Throughout children holds node from this.here
  induction below with
  | refl => exact throughout
  | tail _ child ih => exact ih.within _ child

end Node

namespace Node

/-- What can be read at a node. -/
def Read (terms : Terms) : Node → Prop
  | .expr here => here.Read terms.callable terms.hooked terms.lenient
  | .stmt (.assign _ targets _) => ∀ target ∈ targets, target.IsPlace
  | .script here => here.returns.isUndefined = false
  | .param here => here.prim.isDeclarable = true
  | .value here => here.form = .error → terms.lenient
  | _ => True

/-- All nodes of the tree can be read, and are nested. -/
abbrev Sound (terms : Terms) : Node → Prop :=
  Throughout children fun node => node.Read terms ∧ node.Nests

/-- The tree lies in a range. -/
structure Fits (terms : Terms) (around : Span) (node : Node) : Prop where
  inside : around.contains node.span = true
  sound : node.Sound terms

variable {terms : Terms} {around within : Span} {node : Node}

theorem Fits.intro (place : node.span = around) (here : node.Read terms)
    (parts : ∀ child ∈ node.children, child.Fits terms around) : node.Fits terms around := by
  subst place
  exact ⟨Span.contains_refl _, .intro ⟨here, fun child member => (parts child member).inside⟩
    fun child member => (parts child member).sound⟩

theorem Fits.widen (fits : node.Fits terms within) (inside : around.contains within = true) :
    node.Fits terms around := ⟨Span.contains_trans inside fits.inside, fits.sound⟩

/-- What can be read of the scripts in a tree. -/
def Legible (terms : Terms) : Node → Prop
  | .expr here => here.Legible terms.callable terms.hooked terms.lenient
  | .stmt here => here.Legible terms.callable terms.hooked terms.lenient
  | .block _ body => ∀ stmt ∈ body, stmt.Legible terms.callable terms.hooked terms.lenient
  | .arm here => here.Legible terms.callable terms.hooked terms.lenient
  | .param here => here.prim.isDeclarable = true
  | .script here => here.Read terms.callable terms.hooked terms.lenient
  | _ => True

theorem Sound.legible (sound : node.Sound terms) : node.Legible terms := by
  induction sound with
  | @intro node here within ih =>
    cases node with
    | expr inner =>
      exact .intro here.1 fun part member =>
        ih (expr part) (mem_append_right _ (mem_map_of_mem member))
    | block _ body => exact fun inner member => ih (stmt inner) (mem_map_of_mem member)
    | stmt inner =>
      cases inner with
      | block _ inner body =>
        exact .intro ⟨trivial, forall_mem_nil _⟩ (ih (block inner body) (mem_singleton_self _))
      | switch _ _ condition arms fallback =>
        have each : ∀ case ∈ arms ++ fallback.toList,
          case.Legible terms.callable terms.hooked terms.lenient :=
          fun case member => ih (arm case) (mem_cons_of_mem _ (mem_map_of_mem member))
        refine .intro ⟨fun case member => (each case (mem_append_left _ member)).keys,
          forall_mem_singleton.mpr (ih (expr condition) mem_cons_self)⟩ fun inner member => ?_
        obtain ⟨case, listed, held⟩ := mem_flatMap.mp member
        exact (each case listed).body inner held
      | _ =>
        refine .intro ⟨?_, fun part member => ih (expr part) (mem_append_left _ (mem_append_right _
          (mem_map_of_mem member)))⟩ fun part member =>
          ih (stmt part) (mem_append_right _ (mem_map_of_mem member))
        exact here.1
    | arm case =>
      obtain ⟨_, inner, keys, _, body⟩ := case
      refine ⟨fun key member => ?_, ih (block inner body)
        (mem_append_right _ (mem_singleton_self _))⟩
      exact (ih (expr key) (mem_append_left _ (mem_map_of_mem member))).mono fun _ read =>
        read.unresolved
    | script read =>
      refine ⟨fun inner member => ih (param inner) ?_, here.1, ih (block read.inner read.body) ?_⟩
      · simp [children, member]
      · simp [children]
    | param => exact here.1
    | _ => trivial

end Node

end TriggerScript
