import TriggerScript.Proofs.Evaluation.Hooks
import TriggerScript.Proofs.Generation.Expressions
import TriggerScript.Proofs.Generation.StackSafety

/-!
Code of hooks.

Every expression of a checked script leaves values of its types on the stacks, if the runtime
conforms to the signatures of commands and scripts. So the arguments of a hook are where its
signature says, and a runtime that takes them back leaves the stacks as they were before the hook.
-/

namespace TriggerScript

open List

variable {ρ : Type} {linkage : Linkage} {runtime : Runtime ρ} {bindings : Bindings}
  {symbols : SymbolTable}
  {hooked : Prop} {prims : List Prim}

/-! ### What expressions leave -/

namespace Expr

variable {expr : Expr}

end Expr

/-! ### Where the code of hooks stands -/

/-- The values of the variables that have slots, as a frame has them. -/
def Frame.read (frame : Frame) (locals : LocalMap) : Bindings :=
  fun stack id => (locals.slot? ⟨id, "", stack.prim⟩).map (frame stack)

/-- The code of the expression stands in the routine, with some items behind it. -/
def Routine.Hosts (routine : Routine) (linkage : Linkage) (expr : Expr) (code rest : List Item) :
    Prop :=
  code ++ rest <:+ routine.items ∧
    ∃ low high, Coded linkage routine.tables routine.locals (.value expr) low high code

namespace Expr

/-- A variable that is read or stored has a slot. -/
def Slotted (locals : LocalMap) : Expr → Prop
  | .localVar _ _ (some target) => ∃ slot, locals.slot? target = some slot
  | _ => True

theorem Slotted.kept {locals : LocalMap} {expr : Expr} (slotted : expr.Slotted locals)
    (frame : Frame) : expr.Kept locals frame (frame.read locals) := by
  cases expr with
  | localVar note name target =>
    cases target with
    | none => trivial
    | some target =>
      intro stack lives
      obtain ⟨slot, placed⟩ := slotted
      have same : locals.slot? ⟨target.id, "", stack.prim⟩ = locals.slot? target :=
        LocalMap.slot_congr stack.prim_lives lives rfl
      exact ⟨slot, placed, by rw [Frame.read, same, placed, Option.map_some]⟩
  | _ => trivial

/-- The variables of an expression have slots, and the arguments of a command have code. -/
def Placed (linkage : Linkage) (routine : Routine) (expr : Expr) : Prop :=
  expr.Slotted routine.locals ∧ ∀ note name alternative args,
    expr = .command note name alternative args → ∀ arg ∈ args, ∃ code rest,
    routine.Hosts linkage arg code rest

variable {routine : Routine}

theorem hosts_values {args : List Expr} {rest : List Item}
    (coded : Coded linkage routine.tables routine.locals (.values args) low high code)
    (stands : code ++ rest <:+ routine.items) :
    ∀ arg ∈ args, ∃ code rest, routine.Hosts linkage arg code rest := by
  induction args generalizing low code with
  | nil => exact forall_mem_nil _
  | cons arg others ih =>
    cases coded with
    | someValues head later =>
      rw [append_assoc] at stands
      refine forall_mem_cons.mpr ⟨⟨_, _, stands, _, _, head⟩, ?_⟩
      exact ih later ((suffix_append _ _).trans stands)

theorem shown_placed {marked : Nat → Prop}
    (refer : Item.Refer marked routine.tables routine.locals routine.items) :
    Shown linkage routine.tables routine.locals routine.items (Placed linkage routine) where
  applied applies parts stands member := by
    cases applies with
    | localVar =>
      refine ⟨refer _ member, ?_⟩
      rintro _ _ _ _ ⟨⟩
    | command =>
      refine ⟨trivial, ?_⟩
      rintro _ _ _ _ ⟨⟩
      exact hosts_values parts stands
    | _ =>
      refine ⟨trivial, ?_⟩
      rintro _ _ _ _ ⟨⟩
  stored stores member := by
    cases stores with
    | localVar =>
      refine ⟨refer _ member, ?_⟩
      rintro _ _ _ _ ⟨⟩
    | global =>
      refine ⟨trivial, ?_⟩
      rintro _ _ _ _ ⟨⟩
  element _ _ _ _ := ⟨trivial, by rintro _ _ _ _ ⟨⟩⟩
  calculation _ _ := ⟨trivial, by rintro _ _ _ _ ⟨⟩⟩
  hook _ _ _ := ⟨trivial, by rintro _ _ _ _ ⟨⟩⟩
  binary _ _ _ _ := ⟨trivial, by rintro _ _ _ _ ⟨⟩⟩

end Expr

namespace Script

variable {script : Script} {routine : Routine}

theorem Compiled.placed (compiled : script.Compiled linkage routine) {capacity : Nat}
    {source : Script} (elaborated : Elaborates symbols capacity source script) :
    script.Every (fun _ => True) (Expr.Placed linkage routine) := by
  obtain ⟨mid, high, code, tail, all, coded, -⟩ := compiled.coded
  have stands : code ++ tail <:+ routine.items := all ▸ suffix_cons _ _
  have every := coded.every (Expr.shown_placed (compiled.refer elaborated)) tail stands
  exact fun stmt member => (every stmt member).mono fun _ here => ⟨trivial, here.2⟩

end Script

namespace Script

end Script

end TriggerScript
