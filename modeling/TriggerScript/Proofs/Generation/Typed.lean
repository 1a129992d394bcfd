import TriggerScript.Proofs.Generation.Checked
import TriggerScript.Proofs.Typing.Soundness

/-!
Types of checked bodies.

Where a statement of a checked script uses values, they are of exactly the types that it needs:
truth values decide, assigned values are of the types of their targets, and returned ones of the
types that the script returns.
-/

namespace TriggerScript

open List

namespace Expr

variable {symbols : SymbolTable} {hooked : Prop} {names : Names} {source : Expr}

theorem Elaborates.place_type (elaborated : Elaborates names source target)
    (legal : names.Legal symbols) (sound : symbols.SoundWith hooked)
    (place : source.IsPlace) : ∃ prim, target.ty = .single prim ∧ prim.isDeclarable = true := by
  cases elaborated with
  | localVar found => exact ⟨_, rfl, legal.declarable _ (Scope.mem_of_lookup found)⟩
  | arrayElement _ _ found => exact ⟨_, rfl, Option.isSome_of_eq_some (legal.array_lives found)⟩
  | global found =>
    rw [legal.same] at found
    exact ⟨_, rfl, Option.isSome_of_eq_some (sound.globals found)⟩
  | _ => exact place.elim

/-- Values that are compared are on the stack of long numbers or on that of numbers. -/
theorem stack_of_compared {stack : Stack} {left : Expr} (single : left.ty = .single prim)
    (lives : prim.stack? = some stack) (no_text : stack ≠ .string) :
    stack = if left.isLong then .long else .int := by
  rw [isLong, single]
  revert lives no_text
  cases prim <;> cases stack <;> simp [Prim.stack?, Ty.prim?]

/-- The types of places are those that values assigned to them have to be of. -/
theorem place_types {sources targets : List Expr}
    (elaborate : Forall₂ (Elaborates names) sources targets) (legal : names.Legal symbols)
    (sound : symbols.SoundWith hooked) (places : ∀ source ∈ sources, source.IsPlace) :
    targets.filterMap Stmt.targetType? = leaves targets ∧ (leaves targets).length = targets.length ∧
      ∀ prim ∈ leaves targets, prim.isDeclarable = true := by
  induction elaborate with
  | nil => exact ⟨rfl, rfl, fun _ member => nomatch member⟩
  | @cons _ target _ _ head _ ih =>
    rw [forall_mem_cons] at places
    obtain ⟨prim, single, declarable⟩ := head.place_type legal sound places.1
    obtain ⟨listed, length, live⟩ := ih places.2
    have flat : target.ty.flatten = [prim] := by rw [single, Ty.flatten_single (.inl declarable)]
    have typed : Stmt.targetType? target = some prim := by
      rw [Stmt.targetType?, single]
      refine Option.filter_eq_some_iff.mpr ⟨rfl, decide_eq_true ?_⟩
      rintro rfl
      cases declarable
    rw [filterMap_cons_some typed, leaves_cons, flat, listed]
    exact ⟨rfl, by simp [length], forall_mem_cons.mpr ⟨declarable, live⟩⟩

end Expr

namespace Stmt

/-- The expressions of a statement leave what it needs, and what they leave lives on stacks. -/
def Typed (returns : List Prim) : Stmt → Prop
  | .ifThen _ condition _ | .ifElse _ condition _ _ | .whileLoop _ condition _ =>
    condition.ty.flatten = [.boolean]
  | .return _ values => Expr.leaves values = returns
  | .declare _ prim _ init _ => prim.isDeclarable = true ∧ ∀ value ∈ init, value.ty.flatten = [prim]
  | .declareArray _ _ _ size _ => size.ty.flatten = [.int]
  | .assign _ targets values =>
    Expr.leaves values = Expr.leaves targets ∧ ∀ prim ∈ Expr.leaves targets,
      prim.isDeclarable = true
  | .switch _ prim condition _ _ => condition.ty.flatten = [prim] ∧ prim.stack? = some .int
  | .expr _ value => ∀ prim ∈ value.ty.flatten, prim.isDeclarable = true
  | _ => True

variable {symbols : SymbolTable} {returns : List Prim} {inLoop : Bool} {names after : Names}
  {source stmt : Stmt} {callable : String → Prop} {hooked : Prop}

theorem Typed.exprs_live (typed : stmt.Typed returns)
    (declarable : ∀ prim ∈ returns, prim.isDeclarable = true) :
    ∀ expr ∈ stmt.exprs, ∀ prim ∈ expr.ty.flatten, prim.isDeclarable = true := by
  cases stmt with
  | block | continueLoop | breakLoop => exact forall_mem_nil _
  | ifThen | ifElse | whileLoop | declareArray =>
    exact forall_mem_singleton.mpr (Ty.live_of_flatten typed rfl)
  | «return» span values =>
    intro expr member prim held
    refine declarable prim ?_
    rw [← show Expr.leaves values = returns from typed]
    exact Expr.mem_leaves member held
  | declare span prim name init target =>
    exact fun expr member => Ty.live_of_flatten (typed.2 expr (Option.mem_toList.mp member)) typed.1
  | assign span targets values =>
    refine forall_mem_append.mpr ⟨fun expr member prim held => ?_, fun expr member prim held => ?_⟩
    · exact typed.2 prim (Expr.mem_leaves member held)
    · exact typed.2 prim (typed.1 ▸ Expr.mem_leaves member held)
  | switch =>
    exact forall_mem_singleton.mpr (Ty.live_of_flatten typed.1 (Option.isSome_of_eq_some typed.2))
  | expr => exact forall_mem_singleton.mpr typed

theorem Elaborates.typed (elaborated : Elaborates returns inLoop names source stmt after)
    (legal : names.Legal symbols) (sound : symbols.SoundWith hooked)
    (declarable : ∀ prim ∈ returns, prim.isDeclarable = true) (read : source.Read)
    (readable : ∀ expr ∈ source.exprs, expr.Every (Expr.Read callable hooked False))
    (discardable : stmt.Discardable) : stmt.Typed returns := by
  have expressible := Expr.each_of_elaborates elaborated.exprs fun source held expr elaborated =>
    elaborated.expressible legal sound (readable source held).here
  cases elaborated with
  | block | continueLoop | breakLoop => trivial
  | ifThen _ fits | ifElse _ fits | whileLoop _ fits =>
    exact Ty.flatten_of_fits rfl (forall_mem_singleton.mp expressible) fits
  | «return» _ fit =>
    exact fit.leaves_eq (fun prim member => .inl (declarable prim member)) expressible
  | declare declarable _ fits =>
    refine ⟨declarable, fun value member => ?_⟩
    obtain rfl := Option.some.inj member
    exact Ty.flatten_of_fits declarable (forall_mem_singleton.mp expressible) fits
  | declareDefault declarable => exact ⟨declarable, fun _ member => nomatch member⟩
  | declareArray _ _ fits => exact Ty.flatten_of_fits rfl (forall_mem_singleton.mp expressible) fits
  | assign _ places _ fit =>
    obtain ⟨listed, length, live⟩ := Expr.place_types places legal sound read
    rw [listed] at fit
    refine ⟨(fit length).leaves_eq (fun prim member => ?_) (forall_mem_append.mp expressible).2,
      live⟩
    exact .inl (live prim member)
  | switch lives _ fits | switchDefault lives _ fits =>
    have declarable := Option.isSome_of_eq_some lives
    exact ⟨Ty.flatten_of_fits declarable (forall_mem_singleton.mp expressible) fits, lives⟩
  | expr => exact discardable

/-- Of a checked statement all statements and expressions are typed, if what it forgets lives on
stacks. -/
theorem Elaborates.every_typed (elaborated : Elaborates returns inLoop names source stmt after)
    (legal : names.Legal symbols) (sound : symbols.SoundWith hooked)
    (declarable : ∀ prim ∈ returns, prim.isDeclarable = true)
    (readable : source.Every Read (Expr.Read callable hooked False))
    (kept : stmt.Every Discardable Expr.Sized) :
    stmt.Every (Typed returns) (Expr.Typed symbols hooked) := by
  induction readable generalizing inLoop names stmt after with
  | intro here _ ih =>
    obtain ⟨read, readable⟩ := here
    have typed := elaborated.typed legal sound declarable read readable kept.here.1
    refine .intro ⟨typed, fun expr member => ?_⟩ fun part member => ?_
    · exact Expr.each_of_elaborates elaborated.exprs
        (fun source held _ elaborated => elaborated.every_typed legal sound (readable source held))
        expr member fun prim held => .inl (typed.exprs_live declarable expr member prim held)
    · exact elaborated.each_part legal (fun source held _ _ _ _ legal elaborated =>
        ih source held elaborated legal) part member (kept.within part member)

end Stmt

end TriggerScript
