import TriggerScript.Proofs.Evaluation.Basic
import TriggerScript.Proofs.Execution.Heights
import TriggerScript.Proofs.Value.Encoding

/-!
What a runtime takes for a hook.

Values of declared types lie on one stack each, those of hooks on several: the number of a script,
its arguments, and a text that names their types. If every action takes and leaves values as its
signature says, then so does every expression that was checked, and from what a hook leaves its
arguments can be taken back.
-/

namespace TriggerScript

open List

variable {ρ : Type} {linkage : Linkage} {runtime : Runtime ρ} {bindings : Bindings}
  {world after : World ρ}
  {symbols : SymbolTable} {hooked : Prop}

/-! ### Values on the stacks -/

/-- A value and the stack on which it lies. -/
abbrev Stacked := (stack : Stack) × stack.Word

/-- Values of these types, each on its stack. -/
def HaveTypes (prims : List Prim) (words : List Stacked) : Prop :=
  Forall₂ (fun prim word => prim.stack? = some word.1) prims words

/-- The letters of some types. -/
def signature (prims : List Prim) : String := String.ofList (prims.map Prim.code)

/-- Values of these types, those of hooks with all that belongs to them. -/
inductive Valued : List Prim → List Stacked → Prop where
  | nil : Valued [] []
  | value {word : Stacked} (lives : prim.stack? = some word.1) (later : Valued prims words) :
      Valued (prim :: prims) (word :: words)
  | hook {id : Int32} (typed : HaveTypes given args) (later : Valued prims words) :
      Valued (.hook :: prims) (⟨.int, id⟩ :: (args ++ ⟨.string, signature given⟩ :: words))
  | emptyHook (later : Valued prims words) : Valued (.hook :: prims) (⟨.string, ""⟩ :: words)

variable {prims : List Prim} {words : List Stacked}

theorem HaveTypes.valued (typed : HaveTypes prims words) : Valued prims words := by
  induction typed with
  | nil => exact .nil
  | cons lives _ ih => exact .value lives ih

theorem Valued.have_types (valued : Valued prims words)
    (declarable : ∀ prim ∈ prims, prim.isDeclarable = true) : HaveTypes prims words := by
  induction valued with
  | nil => exact .nil
  | value lives _ ih => exact .cons lives (ih (forall_mem_cons.mp declarable).2)
  | hook | emptyHook => cases (forall_mem_cons.mp declarable).1

theorem Valued.append (first : Valued prims words) (second : Valued others more) :
    Valued (prims ++ others) (words ++ more) := by
  induction first with
  | nil => exact second
  | value lives _ ih => exact .value lives ih
  | hook typed _ ih =>
    rw [cons_append, cons_append, append_assoc, cons_append]
    exact .hook typed ih
  | emptyHook _ ih => exact .emptyHook ih

theorem Valued.of_cons {stack : Stack} (valued : Valued (prim :: prims) words)
    (lives : prim.stack? = some stack) :
    ∃ (word : stack.Word) (rest : List Stacked), words = ⟨stack, word⟩ :: rest ∧
      Valued prims rest := by
  cases valued with
  | value lives' later =>
    rename_i word
    obtain ⟨home, word⟩ := word
    obtain rfl := Option.some.inj (lives.symm.trans lives')
    exact ⟨word, _, rfl, later⟩
  | hook | emptyHook => cases lives

theorem Valued.single {stack : Stack} (valued : Valued [prim] words)
    (lives : prim.stack? = some stack) : ∃ word : stack.Word, words = [⟨stack, word⟩] := by
  obtain ⟨word, rest, rfl, later⟩ := valued.of_cons lives
  cases later
  exact ⟨word, rfl⟩

def Operands.pushAll (operands : Operands) (words : List Stacked) : Operands :=
  words.foldl (fun operands word => Function.update operands word.1 (word.2 :: operands word.1))
    operands

theorem Operands.push_all_append (operands : Operands) (words more : List Stacked) :
    operands.pushAll (words ++ more) = (operands.pushAll words).pushAll more :=
  foldl_append

theorem Operands.push_all_texts (operands : Operands) {count : Nat}
    (typed : HaveTypes (replicate count .string) words) :
    ∃ texts : List String, texts.length = count ∧
      operands.pushAll words = Function.update operands .string (texts ++ operands .string) := by
  induction count generalizing operands words with
  | zero =>
    cases typed
    exact ⟨[], rfl, (Function.update_eq_self _ _).symm⟩
  | succ count ih =>
    cases typed with
    | @cons _ word _ _ lives later =>
      obtain ⟨stack, text⟩ := word
      obtain rfl := Option.some.inj lives
      obtain ⟨texts, length, same⟩ :=
        ih (Function.update operands .string (text :: operands .string)) later
      refine ⟨texts ++ [text], by simp [length], same.trans ?_⟩
      simp

namespace World

theorem pop_of_operands {operands : Operands} {stack : Stack} {word : stack.Word}
    (same : world.operands = operands.pushAll [⟨stack, word⟩]) :
    world.pop stack = some (word, { world with operands }) := by
  simp [pop, same, Operands.pushAll]

end World

/-! ### Actions -/

/-- A type of values on the stack. -/
def Stack.prim : Stack → Prim
  | .int => .int
  | .string => .string
  | .long => .long

theorem Stack.prim_lives (stack : Stack) : stack.prim.stack? = some stack := by
  cases stack <;> rfl

/-- The types of what an action takes and of what it leaves. -/
def Action.signature? (symbols : SymbolTable) : Action → Option (List Prim × List Prim)
  | .command name _ _ => (symbols.command? name).map fun info => (info.args, info.returns.flatten)
  | .call _ trigger name _ =>
    (symbols.script? trigger name).map fun info => (info.params, info.returns.flatten)
  | .readGlobal domain _ => some ([], [domain.stack.prim])
  | .writeGlobal domain _ => some ([domain.stack.prim], [])
  | .defineArray _ => some ([.int], [])
  | .readArray _ => some ([.int], [.int])
  | .writeArray _ => some ([.int, .int], [])

/-- Every action replaces values of the types that it takes by values of the types that it leaves.
What it does to the state outside is its own, and it may fail. -/
def Runtime.Conforms (runtime : Runtime ρ) (symbols : SymbolTable) : Prop :=
  ∀ action takes gives, action.signature? symbols = some (takes, gives) →
    ∀ world after (operands : Operands) words, Valued takes words →
    world.operands = operands.pushAll words →
      runtime.act action world = some after →
        ∃ results, HaveTypes gives results ∧ after.operands = operands.pushAll results

/-! ### What is left on the stacks -/

/-- What is done leaves values of these types on the stacks and takes none away. -/
def Pushes (effect : World ρ → Option (World ρ)) (prims : List Prim) : Prop :=
  ∀ world after, effect world = some after →
    ∃ words, Valued prims words ∧ after.operands = world.operands.pushAll words

/-- What is decided leaves the stacks as they are. -/
def Keeps (truth : World ρ → Option (Bool × World ρ)) : Prop :=
  ∀ world decision after, truth world = some (decision, after) → after.operands = world.operands

section

variable {effect other : World ρ → Option (World ρ)} {truth : World ρ → Option (Bool × World ρ)}
  {stack : Stack}

namespace Pushes

theorem single (pushes : Pushes effect [prim]) (lives : prim.stack? = some stack)
    (done : effect world = some after) :
    ∃ word : stack.Word, after.operands = world.operands.pushAll [⟨stack, word⟩] := by
  obtain ⟨words, valued, left⟩ := pushes world after done
  obtain ⟨word, rfl⟩ := valued.single lives
  exact ⟨word, left⟩

theorem append (first : Pushes effect prims) (second : Pushes other others) :
    Pushes (fun world => (effect world).bind other) (prims ++ others) := by
  intro world after done
  obtain ⟨middle, here, later⟩ := Option.bind_eq_some_iff.mp done
  obtain ⟨words, valued, left⟩ := first world middle here
  obtain ⟨more, valued', left'⟩ := second middle after later
  refine ⟨words ++ more, valued.append valued', ?_⟩
  rw [left', left, Operands.push_all_append]

theorem act (pushes : Pushes effect takes) (conforms : runtime.Conforms symbols) (action : Action)
    (signed : action.signature? symbols = some (takes, gives)) :
    Pushes (fun world => (effect world).bind (runtime.act action)) gives := by
  intro world after done
  obtain ⟨middle, here, later⟩ := Option.bind_eq_some_iff.mp done
  obtain ⟨words, valued, left⟩ := pushes world middle here
  obtain ⟨results, typed, left'⟩ := conforms action _ _ signed _ _ _ _ valued left later
  exact ⟨results, typed.valued, left'⟩

/-- The two values that an effect leaves can be popped again. -/
theorem pop_both (pushes : Pushes effect [prim, prim]) (lives : prim.stack? = some stack)
    (done : effect world = some after) :
    ∃ left right middle, after.pop stack = some (right, middle) ∧
      middle.pop stack = some (left, { after with operands := world.operands }) := by
  obtain ⟨words, valued, pushed⟩ := pushes world after done
  obtain ⟨left, rest, rfl, later⟩ := valued.of_cons lives
  obtain ⟨right, rfl⟩ := later.single lives
  rw [← singleton_append, Operands.push_all_append] at pushed
  exact ⟨left, right, _, World.pop_of_operands pushed, World.pop_of_operands rfl⟩

theorem calculate (pushes : Pushes effect [.int, .int]) (operator : Operator) :
    Pushes (fun world => (effect world).bind (World.calculate operator)) [.int] := by
  intro world after done
  obtain ⟨middle, here, computed⟩ := Option.bind_eq_some_iff.mp done
  obtain ⟨left, right, next, popped, popped'⟩ := pushes.pop_both rfl here
  simp only [World.calculate, popped, popped', Option.bind_eq_bind, Option.bind_some,
    Option.bind_eq_some_iff] at computed
  obtain ⟨result, -, ended⟩ := computed
  cases ended
  exact ⟨[⟨.int, result⟩], .value rfl .nil, rfl⟩

theorem join {count : Nat} (texts : Pushes effect (replicate count .string)) :
    Pushes (fun world => (effect world).bind (World.join count)) [.string] := by
  intro world after done
  obtain ⟨middle, here, joined⟩ := Option.bind_eq_some_iff.mp done
  obtain ⟨words, valued, left⟩ := texts world middle here
  have typed := valued.have_types fun prim member => (mem_replicate.mp member).2 ▸ rfl
  obtain ⟨texts, length, same⟩ := world.operands.push_all_texts typed
  rw [same] at left
  simp only [World.join, left, Function.update_self, length_append, length, Nat.le_add_right,
    if_true, Function.update_idem, drop_left' length, Option.some.injEq] at joined
  rw [← joined]
  exact ⟨[⟨.string, _⟩], .value rfl .nil, rfl⟩

theorem keeps (pushes : Pushes effect [.boolean]) :
    Keeps fun world => (effect world).bind runtime.popTruth := by
  intro world decision after done
  obtain ⟨middle, here, popped⟩ := Option.bind_eq_some_iff.mp done
  obtain ⟨word, left⟩ := pushes.single rfl here
  simp only [Runtime.popTruth, World.pop_of_operands left, Option.map_some, Option.some.injEq,
    Prod.mk.injEq] at popped
  rw [← popped.2]

theorem compare (pushes : Pushes effect [prim, prim]) (long : Bool) (operator : Operator)
    (lives : prim.stack? = some (if long then .long else .int)) :
    Keeps fun world => (effect world).bind (World.compare long operator) := by
  intro world decision after done
  obtain ⟨middle, here, compared⟩ := Option.bind_eq_some_iff.mp done
  cases long with
  | false =>
    have lives : prim.stack? = some .int := lives
    obtain ⟨left, right, next, popped, popped'⟩ := pushes.pop_both lives here
    simp only [World.compare, popped, popped', Bool.false_eq_true, if_false, Option.bind_eq_bind,
      Option.bind_some, Option.pure_def, Option.some.injEq, Prod.mk.injEq] at compared
    rw [← compared.2]
  | true =>
    have lives : prim.stack? = some .long := lives
    obtain ⟨left, right, next, popped, popped'⟩ := pushes.pop_both lives here
    simp only [World.compare, popped, popped', if_true, Option.bind_eq_bind, Option.bind_some,
      Option.pure_def, Option.some.injEq, Prod.mk.injEq] at compared
    rw [← compared.2]

end Pushes

theorem Keeps.pushes (keeps : Keeps truth) :
    Pushes (fun world => (truth world).bind fun (decision, world) =>
      some (world.pushValue (.int (Value.ofBool decision)))) [.boolean] := by
  intro world after done
  obtain ⟨⟨decision, middle⟩, here, ended⟩ := Option.bind_eq_some_iff.mp done
  cases ended
  rw [← keeps _ _ _ here]
  exact ⟨[⟨.int, Value.ofBool decision⟩], .value rfl .nil, rfl⟩

theorem Keeps.onward {second : World ρ → Option (Bool × World ρ)} (first : Keeps truth)
    (later : Keeps second) (wanted : Bool) :
    Keeps fun world => (truth world).bind fun (decision, world) =>
      if decision = wanted then second world else some (decision, world) := by
  intro world decision after done
  obtain ⟨⟨here, middle⟩, decided, done⟩ := Option.bind_eq_some_iff.mp done
  rw [← first _ _ _ decided]
  change (if here = wanted then second middle else some (here, middle)) =
    some (decision, after) at done
  by_cases same : here = wanted
  · rw [if_pos same] at done
    exact later _ _ _ done
  · rw [if_neg same] at done
    cases done
    rfl

end

end TriggerScript
