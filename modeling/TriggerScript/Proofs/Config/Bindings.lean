import TriggerScript.Config.Binding
import TriggerScript.Proofs.Data.Checked

/-!
What settings make of a binding.

No two properties of a binding have one name, and every rule suits the value it is for: a bound on
numbers stands at a value that counts as `int`, and a property that is written empty has a single
truth value.
-/

namespace TriggerScript

open List

/-- The rule bounds a number. -/
def Rule.isNumeric : Rule → Bool
  | .range _ _ | .positive => true
  | .emptyIfTrue | .emptyIfFalse => false

/-- The truth value with which a rule has its property written empty. -/
def Rule.trigger? : Rule → Option Bool
  | .range _ _ | .positive => none
  | .emptyIfTrue => some true
  | .emptyIfFalse => some false

/-- The rule is for a value that there is, of a type that the rule can speak about. -/
structure ComponentRule.Suits (components : List Prim) (entry : ComponentRule) : Prop where
  numeric : entry.rule.isNumeric = true →
    ∃ prim, components[entry.component]? = some prim ∧ prim.agrees .int = true
  empty : ∀ {truth}, entry.rule.trigger? = some truth → components = [.boolean] ∧
    entry.component = 0

/-- Every rule of the property suits its value. -/
def BoundProperty.Suited (property : BoundProperty) : Prop :=
  ∀ entry ∈ property.rules, entry.Suits property.components

namespace Binding

def names (binding : Binding) : List String := binding.properties.map BoundProperty.name

variable {settings : PropertySettings} {properties before after : List BoundProperty}

theorem find_property_iff (properties : List BoundProperty)
    (distinct : (properties.map BoundProperty.name).Nodup) :
    property? properties name = some bound ↔ bound ∈ properties ∧ bound.name = name := by
  constructor
  · intro found
    exact ⟨mem_of_find?_eq_some found, of_decide_eq_true (find?_some found :)⟩
  · rintro ⟨member, rfl⟩
    cases found : property? properties bound.name with
    | none =>
      exact absurd rfl
        (of_decide_eq_false (Bool.eq_false_iff.mpr (find?_eq_none.mp found bound member)))
    | some other =>
      have named : other.name = bound.name := of_decide_eq_true (find?_some found :)
      rw [inj_on_of_nodup_map distinct (mem_of_find?_eq_some found) member named]

theorem find_property_none_iff (properties : List BoundProperty) (name : String) :
    property? properties name = none ↔ name ∉ properties.map BoundProperty.name := by
  simp [property?, find?_eq_none]

theorem check_rule_suits (checked : checkRule property components entry = .ok ()) :
    entry.Suits components := by
  obtain ⟨component, rule⟩ := entry
  unfold checkRule at checked
  split at checked
  · cases checked
  case h_2 prim found =>
    have alone : components = [.boolean] → component = 0 := fun single => by
      have inside := (List.getElem?_eq_some_iff.mp found).1
      rw [single, length_singleton] at inside
      exact Nat.lt_one_iff.mp inside
    cases rule <;> dsimp only at checked <;> split at checked <;> cases checked
    case range.isTrue number | positive.isTrue number =>
      exact ⟨fun _ => ⟨prim, found, number⟩, fun never => (nomatch never)⟩
    case emptyIfTrue.isTrue single | emptyIfFalse.isTrue single =>
      exact ⟨fun never => (nomatch never), fun _ => ⟨single, alone single⟩⟩

/-- Every property that a description stands for has the components and the rules described, and the
rules were checked. -/
theorem resolve_described (resolved : resolve settings = .ok properties) :
    ∃ components, settings.components.mapM (component settings.name) = .ok components ∧
      settings.rules.forM (checkRule settings.name components) = .ok () ∧
      ∀ property ∈ properties, property.components = components ∧
      property.rules = settings.rules := by
  rw [resolve, bind_eq_ok] at resolved
  obtain ⟨components, found, resolved⟩ := resolved
  refine ⟨components, found, ?_⟩
  split at resolved <;> split at resolved
  · cases resolved
  · simp only [bind_eq_ok] at resolved
    obtain ⟨_, checked, resolved⟩ := resolved
    cases resolved
    exact ⟨checked, forall_mem_singleton.mpr ⟨rfl, rfl⟩⟩
  · cases resolved
  · simp only [bind_eq_ok] at resolved
    obtain ⟨_, checked, resolved⟩ := resolved
    cases resolved
    exact ⟨checked, forall_mem_map.mpr fun _ _ => ⟨rfl, rfl⟩⟩

theorem resolve_suited (resolved : resolve settings = .ok properties) :
    ∀ property ∈ properties, property.Suited := by
  obtain ⟨components, _, checked, described⟩ := resolve_described resolved
  intro property member entry listed
  obtain ⟨has, rules⟩ := described property member
  rw [rules] at listed
  rw [has]
  exact check_rule_suits (forall_of_forM checked entry listed)

theorem bind_property_eq (bound : bindProperty before property = .ok after) :
    property.name ∉ before.map BoundProperty.name ∧ after = before ++ [property] := by
  unfold bindProperty at bound
  split at bound
  · cases bound
  case isFalse new =>
    cases bound
    rw [Option.not_isSome_iff_eq_none, find_property_none_iff] at new
    exact ⟨new, rfl⟩

/-- The properties of a binding are entered one by one, each under a new name. -/
theorem of_settings_induction (holds : List BoundProperty → Prop) (start : holds [])
    (step : ∀ {settings described}, resolve settings = .ok described →
      ∀ property ∈ described, ∀ known, property.name ∉ known.map BoundProperty.name → holds known →
      holds (known ++ [property]))
    {settings : BindingSettings} (made : ofSettings settings = .ok binding) :
    holds binding.properties := by
  simp only [ofSettings, bind_eq_ok] at made
  obtain ⟨_, _, properties, bound, _, _, _, _, made⟩ := made
  cases made
  refine holds_of_foldlM holds bound start fun description _ known next held added => ?_
  rw [bindAll, bind_eq_ok] at added
  obtain ⟨described, resolved, added⟩ := added
  refine holds_of_foldlM holds added held fun property listed state next kept entered => ?_
  obtain ⟨new, rfl⟩ := bind_property_eq entered
  exact step resolved property listed state new kept

/-- What every description gives to its properties, all properties of a binding have. -/
theorem forall_of_settings (holds : BoundProperty → Prop)
    (each : ∀ {settings properties}, resolve settings = .ok properties →
      ∀ property ∈ properties, holds property)
    {settings : BindingSettings} (made : ofSettings settings = .ok binding) :
    ∀ property ∈ binding.properties, holds property :=
  of_settings_induction (∀ property ∈ ·, holds property) (forall_mem_nil holds)
    (fun resolved property listed _ _ kept =>
    forall_mem_append.mpr ⟨kept, forall_mem_singleton.mpr (each resolved property listed)⟩) made

theorem suited_of_settings {settings : BindingSettings} (made : ofSettings settings = .ok binding) :
    ∀ property ∈ binding.properties, property.Suited :=
  forall_of_settings BoundProperty.Suited resolve_suited made

theorem names_distinct_of_settings {settings : BindingSettings}
    (made : ofSettings settings = .ok binding) : binding.names.Nodup := by
  refine of_settings_induction (fun known => (known.map BoundProperty.name).Nodup) nodup_nil
    (fun _ property _ known new kept => ?_) made
  rw [map_append]
  exact kept.append (nodup_singleton _) (disjoint_singleton.mpr new)

end Binding

end TriggerScript
