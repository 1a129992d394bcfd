import TriggerScript.Compiler.Draft
import TriggerScript.Proofs.Config.Bindings

/-!
What settings make of a compiler.

A binding is for a type of configurations, and the values of its properties are of types that have
encodings.
-/

namespace TriggerScript

/-- Every value of the property can be encoded. -/
def BoundProperty.Encodable (property : BoundProperty) : Prop :=
  ∀ prim ∈ property.components, prim.encoding?.isSome = true

namespace Binding

/-- Configurations are of a type of configurations, and their values have encodings. -/
structure Usable (binding : Binding) : Prop where
  group : binding.group.isConfig = true
  properties : ∀ property ∈ binding.properties, property.Encodable

theorem component_encodes (known : component property name = .ok prim) :
    prim.encoding?.isSome = true := by
  unfold component at known
  split at known
  · split at known
    · cases known
      assumption
    · cases known
  · cases known

theorem resolve_encodable {settings : PropertySettings} {properties : List BoundProperty}
    (resolved : resolve settings = .ok properties) :
    ∀ property ∈ properties, property.Encodable := by
  obtain ⟨components, found, _, described⟩ := resolve_described resolved
  intro property member prim listed
  rw [(described property member).1] at listed
  obtain ⟨name, _, known⟩ := exists_of_mem_mapM found listed
  exact component_encodes known

theorem usable_of_settings (made : ofSettings settings = .ok binding) : binding.Usable := by
  refine ⟨?_, forall_of_settings BoundProperty.Encodable resolve_encodable made⟩
  simp only [ofSettings, bind_eq_ok] at made
  obtain ⟨group, grouped, properties, _, _, _, _, _, made⟩ := made
  cases made
  unfold groupOf at grouped
  split at grouped
  · split at grouped
    · cases grouped
      assumption
    · cases grouped
  · cases grouped

end Binding

namespace Compiler

variable {settings : Settings} {compiler : Compiler}

section

variable (made : ofSettings settings = .ok compiler)

include made

theorem triggers_made :
    Triggers.ofSettings Vocabulary.scripts settings.triggers = .ok compiler.triggers := by
  simp only [ofSettings, bind_eq_ok] at made
  obtain ⟨triggers, mapped, _, _, _, _, _, _, _, _, made⟩ := made
  cases made
  cases known : Triggers.ofSettings Vocabulary.scripts settings.triggers with
  | error =>
    rw [known] at mapped
    cases mapped
  | ok triggers =>
    rw [known] at mapped
    cases mapped
    rfl

/-- A binding belongs to an extension of the settings, and was made from a description. -/
theorem binding_made (found : compiler.binding? extension = some binding) :
    extension ∈ settings.configs.map Prod.fst ∧ ∃ described,
      Binding.ofSettings described = .ok binding := by
  simp only [ofSettings, bind_eq_ok] at made
  obtain ⟨_, _, _, _, _, _, _, _, bindings, resolved, made⟩ := made
  obtain ⟨before, after, listed, _⟩ := List.lookup_eq_some_iff.mp found
  have member : (extension, binding) ∈ compiler.bindings := by
    rw [listed]
    exact List.mem_append_right _ List.mem_cons_self
  cases made
  obtain ⟨entry, held, resolves⟩ := exists_of_mem_mapM resolved member
  unfold resolveBinding at resolves
  split at resolves
  · cases resolves
    exact ⟨List.mem_map_of_mem held, _, ‹_›⟩
  · cases resolves

theorem usable_of_settings (found : compiler.binding? extension = some binding) : binding.Usable :=
  have ⟨_, _, described⟩ := binding_made made found
  Binding.usable_of_settings described

end

end Compiler

end TriggerScript
