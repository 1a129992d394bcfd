import TriggerScript.Compiler.Batch
import TriggerScript.Proofs.Compiler.Bindings
import TriggerScript.Proofs.Compiler.Triggers

/-!
Scripts of accepted files.

A draft goes through a compiler unchanged but for its faults and for the checking of its scripts. So
the scripts of a file without faults were read strictly and checked cleanly, and get code exactly if
what checking does not look at is as it should be.
-/

namespace TriggerScript

open List

variable {compiler : Compiler} {table : SymbolTable}

theorem Compiler.callable_of_settings {settings : Settings}
    (made : ofSettings settings = .ok compiler)
    (calls : ∀ trigger ∈ settings.triggers, trigger.operator.isSome = true →
      trigger.call.isSome = true) :
    compiler.triggers.Callable :=
  Triggers.callable_of_settings calls (triggers_made made)

theorem Contents.read_scripts {scripts : List Script}
    (read : Contents.read compiler extension source = (.scripts scripts, [])) :
    (Grammar.ofTables source compiler.triggers compiler.symbols).scripts = (scripts, []) := by
  rw [Contents.read] at read
  split at read
  · obtain ⟨same, clean⟩ := Prod.mk.inj read
    cases same
    exact Prod.ext rfl clean
  · split at read
    · cases read
    · split at read <;> cases read

theorem Contents.check_scripts {contents : Contents}
    (becomes : contents.check compiler table = (.scripts checked, [])) :
    ∃ scripts, contents = .scripts scripts ∧ ∀ script ∈ checked, ∃ source ∈ scripts,
      source.check table compiler.settings.arrayCapacity = (script, []) := by
  cases contents with
  | scripts scripts =>
    obtain ⟨same, clean⟩ := Prod.mk.inj becomes
    cases same
    refine ⟨scripts, rfl, fun script member => ?_⟩
    simp only [map_map, mem_map] at member
    obtain ⟨source, listed, rfl⟩ := member
    refine ⟨source, listed, Prod.ext rfl ?_⟩
    exact flatMap_eq_nil_iff.mp clean _ (mem_map_of_mem listed)
  | constants | configs | unsupported => cases becomes

/-- Defining the declarations of drafts changes nothing in them but adds faults. -/
theorem Draft.mem_define_all (member : draft ∈ (defineAll compiler table drafts).2) :
    ∃ former ∈ drafts, ∃ faults, draft = { former with faults := former.faults ++ faults } := by
  induction drafts generalizing table with
  | nil => cases member
  | cons first rest ih =>
    rcases mem_cons.mp member with rfl | later
    · exact ⟨first, mem_cons_self, _, rfl⟩
    · obtain ⟨former, listed, same⟩ := ih later
      exact ⟨former, mem_cons_of_mem _ listed, same⟩

/-- The scripts of a draft that went through without a fault come from its text, which was read and
checked without a fault. -/
theorem Draft.scripts_of_clean {files : List SourceFile}
    (member : draft ∈ (defineAll compiler compiler.symbols.enter (files.map (read compiler))).2.map
      (check compiler table))
    (clean : draft.faults = []) (contents : draft.contents = .scripts scripts) :
    ∃ text sources, (Grammar.ofTables text compiler.triggers compiler.symbols).scripts =
      (sources, []) ∧
      ∀ script ∈ scripts, ∃ source ∈ sources, source.check table compiler.settings.arrayCapacity =
      (script, []) := by
  obtain ⟨defined, listed, rfl⟩ := mem_map.mp member
  obtain ⟨former, held, faults, rfl⟩ := mem_define_all listed
  obtain ⟨file, _, rfl⟩ := mem_map.mp held
  obtain ⟨defined_clean, checked_clean⟩ := append_eq_nil_iff.mp clean
  obtain ⟨read_clean, _⟩ := append_eq_nil_iff.mp defined_clean
  obtain ⟨_, parsed_clean⟩ := append_eq_nil_iff.mp read_clean
  obtain ⟨sources, parsed, checked⟩ := Contents.check_scripts (Prod.ext contents checked_clean)
  exact ⟨_, sources, Contents.read_scripts (Prod.ext parsed parsed_clean), checked⟩

namespace Compiler

/-- Code is generated for a script of an accepted file if and only if what checking does not look at
is as it should be. -/
theorem accepted_generates_iff {settings : Settings} {files : List SourceFile}
    {defined : List Draft} {draft : Draft} {scripts : List Script} {script : Script}
    (made : ofSettings settings = .ok compiler)
    (calls : ∀ trigger ∈ settings.triggers, trigger.operator.isSome = true →
      trigger.call.isSome = true)
    (batch : Draft.defineAll compiler compiler.symbols.enter (files.map (Draft.read compiler)) =
      (table, defined))
    (member : draft ∈ defined.map (Draft.check compiler table)) (clean : draft.faults = [])
    (contents : draft.contents = .scripts scripts) (listed : script ∈ scripts) :
    (∃ routine, script.generate ⟨table, compiler.triggers⟩ = .ok routine) ↔ script.Realizable := by
  have same :
    (Draft.defineAll compiler compiler.symbols.enter (files.map (Draft.read compiler))).2 =
    defined := congrArg Prod.snd batch
  rw [← same] at member
  obtain ⟨text, sources, parsed, all_checked⟩ := Draft.scripts_of_clean member clean contents
  obtain ⟨source, held, checked⟩ := all_checked script listed
  obtain ⟨rfl, unfaulted⟩ := Prod.mk.inj parsed
  have callable := callable_of_settings made calls
  have read : source.Read (Linkage.Calls ⟨table, compiler.triggers⟩) True False :=
    Grammar.scripts_read (Grammar.admits_of_tables callable fun _ _ _ => trivial) held
      (.inr unfaulted)
  exact Script.generate_ok_iff read checked

/-- A script of an accepted file for which the outcome of generating code is as asked. -/
def generatesSome (settings : Settings) (files : List SourceFile)
    (asked : Except Diagnostic Routine → Bool) : Bool :=
  (ofSettings settings).toOption.any fun compiler =>
    let (table, defined) := Draft.defineAll compiler compiler.symbols.enter
      (files.map (Draft.read compiler))
    (defined.map (Draft.check compiler table)).any fun draft =>
      draft.faults.isEmpty && match draft.contents with
        | .scripts scripts =>
          scripts.any fun script => asked (script.generate ⟨table, compiler.triggers⟩)
        | _ => false

theorem exists_of_generates_some (settings : Settings) (files : List SourceFile)
    (asked : Except Diagnostic Routine → Bool) (found : generatesSome settings files asked = true) :
    ∃ compiler table defined draft scripts script, ofSettings settings = .ok compiler ∧
      Draft.defineAll compiler compiler.symbols.enter (files.map (Draft.read compiler)) =
      (table, defined) ∧
      draft ∈ defined.map (Draft.check compiler table) ∧ draft.faults = [] ∧
      draft.contents = .scripts scripts ∧ script ∈ scripts ∧
      asked (script.generate ⟨table, compiler.triggers⟩) = true := by
  rw [generatesSome] at found
  cases made : ofSettings settings with
  | error => simp [made, Except.toOption] at found
  | ok compiler =>
    simp only [made, Except.toOption, Option.any_some, any_eq_true, Bool.and_eq_true,
      List.isEmpty_iff] at found
    obtain ⟨draft, member, clean, holds⟩ := found
    cases contents : draft.contents with
    | scripts scripts =>
      simp only [contents, any_eq_true] at holds
      obtain ⟨script, listed, holds⟩ := holds
      exact ⟨compiler, _, _, draft, scripts, script, rfl, rfl, member, clean, contents, listed,
        holds⟩
    | constants | configs | unsupported => simp [contents] at holds

/-- A body that ends in a return may return a type that has no default. -/
theorem accepted_generates_return :
    ∃ compiler table defined draft scripts script, ofSettings .default = .ok compiler ∧
      Draft.defineAll compiler compiler.symbols.enter
          ([.ofPath ⟨"a.cs2"⟩ (utf8 "[proc,p]()(param) return(~p);")].map (Draft.read compiler)) =
          (table, defined) ∧
      draft ∈ defined.map (Draft.check compiler table) ∧ draft.faults = [] ∧
      draft.contents = .scripts scripts ∧ script ∈ scripts ∧
      (∃ routine, script.generate ⟨table, compiler.triggers⟩ = .ok routine) ∧
      script.Realizable := by
  obtain ⟨compiler, table, defined, draft, scripts, script, made, batch, member, clean, contents,
    listed, generates⟩ := exists_of_generates_some .default
      [.ofPath ⟨"a.cs2"⟩ (utf8 "[proc,p]()(param) return(~p);")]
      (fun outcome => outcome.toOption.isSome) (by decide +kernel)
  have generated : ∃ routine, script.generate ⟨table, compiler.triggers⟩ = .ok routine := by
    cases outcome : script.generate ⟨table, compiler.triggers⟩ with
    | error => simp [outcome, Except.toOption] at generates
    | ok routine => exact ⟨routine, rfl⟩
  exact ⟨compiler, table, defined, draft, scripts, script, made, batch, member, clean, contents,
    listed, generated,
    (accepted_generates_iff made (List.forall_mem_nil _) batch member clean contents listed).mp
      generated⟩

/-- No one looks at the types that a script returns. One without a default cannot be returned where
control falls out of the body. -/
theorem accepted_without_code :
    ∃ compiler table defined draft scripts script, ofSettings .default = .ok compiler ∧
      Draft.defineAll compiler compiler.symbols.enter
          ([.ofPath ⟨"a.cs2"⟩ (utf8 "[proc,p]()(param)")].map (Draft.read compiler)) =
          (table, defined) ∧
      draft ∈ defined.map (Draft.check compiler table) ∧ draft.faults = [] ∧
      draft.contents = .scripts scripts ∧ script ∈ scripts ∧
      ∃ diagnostic, script.generate ⟨table, compiler.triggers⟩ = .error diagnostic ∧
        diagnostic.fault = .internal (.noDefault .param) := by
  obtain ⟨compiler, table, defined, draft, scripts, script, made, batch, member, clean, contents,
    listed, fails⟩ :=
      exists_of_generates_some .default [.ofPath ⟨"a.cs2"⟩ (utf8 "[proc,p]()(param)")]
      (fun
        | .ok _ => false
        | .error diagnostic => diagnostic.fault = .internal (.noDefault .param)) (by decide +kernel)
  refine ⟨compiler, table, defined, draft, scripts, script, made, batch, member, clean, contents,
    listed, ?_⟩
  cases outcome : script.generate ⟨table, compiler.triggers⟩ with
  | error diagnostic =>
    rw [outcome] at fails
    exact ⟨diagnostic, rfl, of_decide_eq_true fails⟩
  | ok routine =>
    rw [outcome] at fails
    cases fails

end Compiler

end TriggerScript
