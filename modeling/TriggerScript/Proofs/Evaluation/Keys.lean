import TriggerScript.Proofs.Compiler.Batches
import TriggerScript.Proofs.Evaluation.Basic
import TriggerScript.Proofs.Generation.Checked

/-!
Keys of cases.

A key whose type is not known has no value. In a script that was checked without a fault against the
table of a batch, such a key is one that could not be read, which has no value in any case: a case
is chosen by the values of its keys alone.
-/

namespace TriggerScript

open List

variable {symbols : SymbolTable} {names after : Names} {holds : Expr → Prop}

namespace Expr

/-- A case is chosen by the value of the key. -/
def ChoosesByValue (key : Expr) : Prop :=
  ∀ {ρ : Type} (linkage : Linkage) (runtime : Runtime ρ) (bindings : Bindings) (asked : Int32)
    (world : World ρ), key.isKey linkage runtime bindings asked world =
      (((key.meaning linkage runtime bindings).value world).bind (World.pop .int)).any
        fun (value, _) => value = asked

theorem chooses_by_value {key : Expr}
    (known : key.ty.isUndefined = false ∨ ∃ note, key = .error note) : key.ChoosesByValue := by
  intro ρ linkage runtime bindings asked world
  rcases known with known | ⟨note, rfl⟩
  · rw [isKey, known]
    rfl
  · simp [isKey, meaning, Meaning.ofValue]

/-- With the table of a batch, only what could not be read is of no known type. -/
theorem Elaborates.known_or_error {source expr : Expr} (elaborated : Elaborates names source expr)
    (legal : names.Legal symbols) (definite : symbols.Definite) :
    expr.ty.isUndefined = false ∨ ∃ note, expr = .error note := by
  obtain rfl := legal.same
  have single {prim : Prim} (known : prim ≠ .undefined) : (Ty.single prim).isUndefined = false := by
    simpa [Ty.isUndefined, Ty.undefined] using known
  have declarable_known {prim : Prim} (declarable : prim.isDeclarable = true) :
    prim ≠ .undefined := by
    rintro rfl
    cases declarable
  cases elaborated with
  | int | long | text | bool | coordgrid | emptyHook | hook | concat | calculation | arithmetic
  | logical
  | comparison => exact .inl rfl
  | null declarable | constant _ declarable => exact .inl (single (declarable_known declarable))
  | localVar found =>
    exact .inl (single (declarable_known (legal.declarable _ (Scope.mem_of_lookup found))))
  | arrayElement _ _ found =>
    exact .inl (single (declarable_known (Option.isSome_of_eq_some (legal.array_lives found))))
  | global found => exact .inl (single (definite.global_known found))
  | config found =>
    refine .inl (single fun undefined => ?_)
    have config := definite.grouped.config found
    rw [undefined] at config
    cases config
  | bare found | command found => exact .inl (definite.command_known found)
  | call found => exact .inl (definite.script_known found)
  | error => exact .inr ⟨_, rfl⟩

end Expr

theorem Arm.Keys.each {prim : Prim} {keys keys' : List Expr}
    (known : Keys names prim keys keys' values)
    (each : ∀ source expr, Expr.Elaborates names source expr → holds expr) :
    ∀ key ∈ keys', holds key := by
  induction known with
  | nil => exact forall_mem_nil _
  | known part _ _ _ ih | unknown part _ _ ih => exact forall_mem_cons.mpr ⟨each _ _ part, ih⟩

namespace Stmt

/-- The keys of the cases of a statement. -/
def keys : Stmt → List Expr
  | .switch _ _ _ arms _ => arms.flatMap Arm.keys
  | _ => []

theorem ElaborateArms.each_key
    (elaborate : ElaborateArms returns prim inLoop names source arms after)
    (legal : names.Legal symbols)
    (each : ∀ names source expr, names.Legal symbols → Expr.Elaborates names source expr →
      holds expr) :
    ∀ arm ∈ arms, ∀ key ∈ arm.keys, holds key := by
  induction source generalizing names arms with
  | nil =>
    cases elaborate
    exact forall_mem_nil _
  | cons arm rest ih =>
    cases elaborate with
    | cons known part others =>
      refine forall_mem_cons.mpr ⟨known.each fun source expr => each _ source expr legal,
        ih others ?_⟩
      exact (ElaborateAll.extends _ part).framed.legal legal

theorem Elaborates.each_key (elaborated : Elaborates returns inLoop names source stmt after)
    (legal : names.Legal symbols)
    (each : ∀ names source expr, names.Legal symbols → Expr.Elaborates names source expr →
      holds expr) :
    ∀ key ∈ stmt.keys, holds key := by
  cases elaborated with
  | switch _ _ _ bodies | switchDefault _ _ _ bodies =>
    intro key member
    obtain ⟨arm, listed, held⟩ := mem_flatMap.mp member
    exact bodies.each_key legal each arm listed key held
  | _ => exact forall_mem_nil _

/-- What is true of everything that checking makes of keys holds of all keys in a statement. -/
theorem Elaborates.every_key (readable : source.Legible callable hooked lenient)
    (elaborated : Elaborates returns inLoop names source stmt after) (legal : names.Legal symbols)
    (each : ∀ names source expr, names.Legal symbols → Expr.Elaborates names source expr →
      holds expr) :
    Throughout parts (fun stmt => ∀ key ∈ stmt.keys, holds key) stmt := by
  induction readable generalizing inLoop names stmt after with
  | intro _ _ ih =>
    refine .intro (elaborated.each_key legal each) ?_
    exact elaborated.each_part legal fun part member _ _ _ _ legal elaborated =>
      ih part member elaborated legal

end Stmt

/-- Every case of a checked script is chosen by the values of its keys: no key is left out for its
type. -/
theorem Compiler.keys_choose_by_value {settings : Settings} {compiler : Compiler}
    {files : List SourceFile} {text : String} {capacity : Nat} {source script : Script}
    (made : ofSettings settings = .ok compiler)
    (parsed : source ∈ (Grammar.ofTables text compiler.triggers compiler.symbols).scripts.1)
    (checked : source.check (compiler.symbolsOf files) capacity = (script, [])) :
    ∀ stmt ∈ script.body, Throughout Stmt.parts (fun stmt => ∀ key ∈ stmt.keys, key.ChoosesByValue)
      stmt := by
  have read : source.Read (fun _ => True) True True :=
    Grammar.scripts_read ⟨fun _ => Vocabulary.scripts_plain, fun _ _ _ => trivial,
      fun _ _ _ => trivial⟩ parsed
      (.inl trivial)
  obtain ⟨names, last, legal, body, -⟩ := (Script.check_elaborates checked).begins read.params
  refine body.each legal fun source held names stmt after legal elaborated => ?_
  refine elaborated.every_key (read.body source held) legal fun names source expr legal part => ?_
  exact Expr.chooses_by_value (part.known_or_error legal (symbols_definite made files))

end TriggerScript
