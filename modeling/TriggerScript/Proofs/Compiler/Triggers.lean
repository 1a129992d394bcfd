import TriggerScript.Compiler.Basic
import TriggerScript.Proofs.Generation.Checked

/-!
Triggers that scripts can call.

The names of triggers stay distinct, whichever are registered, so a trigger that was found by its
operator is found again by its name. If each one with an operator also has a way to be called, every
call that is read can be made.
-/

namespace TriggerScript

open List

namespace Triggers

/-- Triggers are told apart by their names, and those that scripts can call have a way to be
called. -/
structure Callable (triggers : Triggers) : Prop where
  names : (triggers.entries.map Trigger.name).Nodup
  calls : ∀ trigger ∈ triggers.entries, trigger.operator.isSome = true → trigger.call.isSome = true

variable {triggers : Triggers} {trigger : Trigger}

theorem named_of_mem (names : (triggers.entries.map Trigger.name).Nodup)
    (member : trigger ∈ triggers.entries) : triggers.named? trigger.name = some trigger := by
  rw [named?]
  generalize triggers.entries = entries at names member
  induction entries with
  | nil => cases member
  | cons first rest ih =>
    rw [map_cons, nodup_cons] at names
    rcases mem_cons.mp member with rfl | later
    · simp
    · have other : first.name ≠ trigger.name :=
        fun same => names.1 (mem_map.mpr ⟨trigger, later, same.symm⟩)
      rw [find?_cons_of_neg (by simpa using other)]
      exact ih names.2 later

theorem Callable.calls_operator (callable : triggers.Callable)
    (found : triggers.withOperator? kind = some trigger) :
    Linkage.Calls ⟨symbols, triggers⟩ trigger.name := by
  have member := mem_of_find?_eq_some found
  have operator : trigger.operator = some kind := by simpa using find?_some found
  rw [Linkage.Calls, named_of_mem callable.names member]
  exact callable.calls trigger member (operator ▸ rfl)

theorem callable_builtin : builtin.Callable := by
  constructor <;> decide

theorem Callable.register (callable : triggers.Callable)
    (calls : trigger.operator.isSome = true → trigger.call.isSome = true) :
    (triggers.register trigger).Callable := by
  obtain ⟨names, existing⟩ := callable
  rw [Triggers.register]
  split
  · refine ⟨?_, fun entry member => ?_⟩
    · have kept : ∀ entry : Trigger, (if entry.name = trigger.name then trigger else entry).name =
        entry.name := by
        intro entry
        split
        · rename_i same
          exact same.symm
        · rfl
      simpa [Function.comp_def, kept] using names
    · obtain ⟨former, listed, rfl⟩ := mem_map.mp member
      split
      · exact calls
      · exact existing former listed
  · rename_i unknown
    refine ⟨?_, fun entry member => ?_⟩
    · rw [map_append, map_singleton, ← concat_eq_append, nodup_concat]
      refine ⟨fun member => unknown ?_, names⟩
      obtain ⟨former, listed, same⟩ := mem_map.mp member
      exact any_eq_true.mpr ⟨former, listed, decide_eq_true same⟩
    · rcases mem_append.mp member with listed | last
      · exact existing entry listed
      · obtain rfl := mem_singleton.mp last
        exact calls

theorem Callable.add {settings : TriggerSettings} (callable : triggers.Callable)
    (calls : settings.operator.isSome = true → settings.call.isSome = true)
    (added : add vocabulary triggers settings = .ok extended) : extended.Callable := by
  rw [Triggers.add] at added
  cases read : settings.operator.mapM (operatorToken vocabulary settings.name) with
  | error =>
    rw [read] at added
    cases added
  | ok operator =>
    rw [read] at added
    simp only [pure, Except.pure, bind, Except.bind] at added
    split at added
    · cases added
    · cases added
      refine callable.register fun has_operator => calls ?_
      cases described : settings.operator with
      | none =>
        rw [described] at read
        cases read
        exact has_operator
      | some => rfl

/-- Described triggers that can be called if they have an operator keep this so for all. -/
theorem callable_of_settings
    (calls : ∀ trigger ∈ settings, trigger.operator.isSome = true → trigger.call.isSome = true)
    (made : ofSettings vocabulary settings = .ok triggers) : triggers.Callable := by
  rw [ofSettings] at made
  refine holds_of_foldlM Callable made callable_builtin
    fun trigger listed known next callable added => ?_
  exact callable.add (calls trigger listed) added

end Triggers

theorem Grammar.admits_of_tables {triggers : Triggers} {known : SymbolTable}
    (callable : triggers.Callable)
    (hooks : ∀ name index, known.isHookArgument name index = true → hooked) :
    (Grammar.ofTables text triggers known).Admits ⟨Linkage.Calls ⟨symbols, triggers⟩, hooked,
      lenient⟩ := by
  refine ⟨fun _ => Vocabulary.scripts_plain, fun kind name found => ?_, hooks⟩
  obtain ⟨trigger, found_operator, rfl⟩ := Option.map_eq_some_iff.mp found
  exact callable.calls_operator found_operator

end TriggerScript
