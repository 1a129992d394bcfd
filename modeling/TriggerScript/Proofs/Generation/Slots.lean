import TriggerScript.Proofs.Evaluation.Basic
import TriggerScript.Proofs.Typing.Statement

/-!
Variables and their slots.

The slots of a stack tell variables apart by their numbers, so storing into the slot of a variable
changes the value of this variable and of no other. A frame holds the variables of a scope if the
slot of each of them has its value.
-/

namespace TriggerScript

namespace LocalMap

variable {locals : LocalMap} {stack : Stack} {entry other : Local} {slot : Nat}

theorem slot_eq (lives : entry.prim.stack? = some stack) : locals.slot? entry =
      match (onStack stack locals.params).findIdx? fun other => other.id = entry.id with
      | some index => some index
      | none => ((onStack stack locals.declared).findIdx? fun other => other.id = entry.id).map
          (locals.paramCount stack + ·) := by
  simp only [slot?, lives, Option.bind_eq_bind, Option.bind_some]
  cases (onStack stack locals.params).findIdx? fun other => other.id = entry.id with
  | some index => rfl
  | none => cases (onStack stack locals.declared).findIdx? fun other => other.id = entry.id <;> rfl

theorem slot_congr (lives : entry.prim.stack? = some stack)
    (lives' : other.prim.stack? = some stack) (same : entry.id = other.id) :
    locals.slot? entry = locals.slot? other := by
  rw [slot_eq lives, slot_eq lives', same]

theorem id_of_find {entries : List Local} {id index : Nat}
    (found : (entries.findIdx? fun other => other.id = id) = some index) :
    ∃ bound : index < entries.length, entries[index].id = id := by
  obtain ⟨bound, here, -⟩ := List.findIdx?_eq_some_iff_getElem.mp found
  exact ⟨bound, by simpa using here⟩

theorem id_eq_of_slot_eq (lives : entry.prim.stack? = some stack)
    (lives' : other.prim.stack? = some stack) (placed : locals.slot? entry = some slot)
    (placed' : locals.slot? other = some slot) : entry.id = other.id := by
  rw [slot_eq lives] at placed
  rw [slot_eq lives'] at placed'
  -- A slot below the number of parameters is one of a parameter, any other one of a variable.
  cases found : (onStack stack locals.params).findIdx? fun other => other.id = entry.id with
  | some index =>
    obtain ⟨bound, here⟩ := id_of_find found
    simp only [found, Option.some.injEq] at placed
    cases found' : (onStack stack locals.params).findIdx? fun entry => entry.id = other.id with
    | some index' =>
      obtain ⟨bound', here'⟩ := id_of_find found'
      simp only [found', Option.some.injEq] at placed'
      subst placed placed'
      exact here.symm.trans here'
    | none =>
      simp only [found', Option.map_eq_some_iff] at placed'
      obtain ⟨index', -, placed'⟩ := placed'
      rw [paramCount] at placed'
      omega
  | none =>
    simp only [found, Option.map_eq_some_iff] at placed
    obtain ⟨index, found, placed⟩ := placed
    obtain ⟨bound, here⟩ := id_of_find found
    cases found' : (onStack stack locals.params).findIdx? fun entry => entry.id = other.id with
    | some index' =>
      obtain ⟨bound', here'⟩ := id_of_find found'
      simp only [found', Option.some.injEq] at placed'
      rw [paramCount] at placed
      omega
    | none =>
      simp only [found', Option.map_eq_some_iff] at placed'
      obtain ⟨index', found', placed'⟩ := placed'
      obtain ⟨bound', here'⟩ := id_of_find found'
      obtain rfl : index = index' := by omega
      exact here.symm.trans here'

theorem slot_of_registered (lives : entry.prim.stack? = some stack)
    (registered : (stack, entry) ∈ locals.declared) : ∃ slot, locals.slot? entry = some slot := by
  rw [slot_eq lives]
  cases (onStack stack locals.params).findIdx? fun other => other.id = entry.id with
  | some index => exact ⟨index, rfl⟩
  | none =>
    have member : entry ∈ onStack stack locals.declared := by
      simp only [onStack, List.mem_map, List.mem_filter, decide_eq_true_eq]
      exact ⟨(stack, entry), ⟨registered, rfl⟩, rfl⟩
    cases found : (onStack stack locals.declared).findIdx? fun other => other.id = entry.id with
    | some index => exact ⟨_, rfl⟩
    | none => simpa using List.findIdx?_eq_none_iff.mp found entry member

end LocalMap

namespace Frame

variable {target : Local} {stack : Stack} {slot : Nat}

/-- The slots of the variables in scope have their values. -/
def Holds (frame : Frame) (locals : LocalMap) (scope : Scope) (bindings : Bindings) : Prop :=
  ∀ entry ∈ scope.locals, ∃ stack slot, entry.prim.stack? = some stack ∧
    locals.slot? entry = some slot ∧ bindings stack entry.id = some (frame stack slot)

variable {frame : Frame} {locals : LocalMap} {scope inner : Scope} {bindings : Bindings}

theorem holds_empty : frame.Holds locals .empty bindings := fun _ member => nomatch member

theorem Holds.subset (holds : frame.Holds locals inner bindings)
    (subset : scope.locals ⊆ inner.locals) : frame.Holds locals scope bindings :=
  fun entry member => holds entry (subset member)

variable (holds : frame.Holds locals scope bindings)

include holds

/-- What is in scope stays in its slots when a variable is stored into its own. -/
theorem Holds.set (lives : target.prim.stack? = some stack)
    (placed : locals.slot? target = some slot) (word : stack.Word) {entry : Local}
    (visible : entry ∈ scope.locals ∨ entry = target) :
    ∃ stack' slot', entry.prim.stack? = some stack' ∧ locals.slot? entry = some slot' ∧
      bindings.set stack target.id word stack' entry.id =
      some (frame.set stack slot word stack' slot') := by
  by_cases same : entry.prim.stack? = some stack ∧ entry.id = target.id
  · obtain ⟨lives', same⟩ := same
    refine ⟨stack, slot, lives', (LocalMap.slot_congr lives' lives same).trans placed, ?_⟩
    simp [Bindings.set, Frame.set, same]
  · have member : entry ∈ scope.locals := by
      rcases visible with member | rfl
      · exact member
      · exact absurd ⟨lives, rfl⟩ same
    obtain ⟨stack', slot', lives', placed', bound⟩ := holds entry member
    refine ⟨stack', slot', lives', placed', ?_⟩
    by_cases other : stack' = stack
    · subst other
      have distinct : entry.id ≠ target.id := fun equal => same ⟨lives', equal⟩
      have apart : slot' ≠ slot := by
        rintro rfl
        exact distinct (LocalMap.id_eq_of_slot_eq lives' lives placed' placed)
      simp [Bindings.set, Frame.set, Function.update_of_ne distinct, Function.update_of_ne apart,
        bound]
    · simp [Bindings.set, Frame.set, Function.update_of_ne other, bound]

theorem Holds.assign (lives : target.prim.stack? = some stack)
    (placed : locals.slot? target = some slot) (word : stack.Word) :
    (frame.set stack slot word).Holds locals scope (bindings.set stack target.id word) :=
  fun _ member => holds.set lives placed word (.inl member)

theorem Holds.declare (opened : scope.declare target = some inner)
    (lives : target.prim.stack? = some stack) (placed : locals.slot? target = some slot)
    (word : stack.Word) :
    (frame.set stack slot word).Holds locals inner (bindings.set stack target.id word) :=
  fun _ member => holds.set lives placed word ((Scope.mem_declare opened).mp member)

end Frame

end TriggerScript
