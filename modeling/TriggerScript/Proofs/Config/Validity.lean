import TriggerScript.Proofs.Config.Meaning

/-!
Valid configurations.

A configuration is without a fault exactly if it is valid: its keys are bound, no key occurs twice
unless it may, every property has the values that its binding asks for, and nothing that is required
is missing. The faults of keys are counted exactly, whatever else is wrong.
-/

namespace TriggerScript

open List Binding

/-- The cause is a key that no binding knows. -/
def Fault.isUnknownProperty : Fault → Bool
  | .semantic (.unknownProperty _) => true
  | _ => false

/-- The cause is a key as such, not the values behind it. -/
def Fault.concernsKey : Fault → Bool
  | .semantic (.unknownProperty _) | .semantic (.duplicateProperty _)
  | .semantic (.missingProperty _) => true
  | _ => false

theorem Fault.concerns_key_of_unknown {fault : Fault} (unknown : fault.isUnknownProperty = true) :
    fault.concernsKey = true := by
  unfold isUnknownProperty at unknown
  split at unknown
  · rfl
  · cases unknown

namespace Binding

/-- The key is bound and may not occur twice. -/
def Single (binding : Binding) (key : String) : Prop :=
  ∃ bound ∈ binding.properties, bound.name = key ∧ bound.allowDuplicates = false

/-- The key has to occur. -/
def Required (binding : Binding) (key : String) : Prop :=
  ∃ bound ∈ binding.properties, bound.name = key ∧ bound.required = true

instance (binding : Binding) (key : String) : Decidable (binding.Single key) :=
  inferInstanceAs (Decidable (∃ bound ∈ binding.properties, _))

instance (binding : Binding) (key : String) : Decidable (binding.Required key) :=
  inferInstanceAs (Decidable (∃ bound ∈ binding.properties, _))

end Binding

namespace Config

/-- The keys of the properties, in their order. -/
def keys (config : Config) : List String := config.properties.map fun property => property.key.text

/-- Every value could be read. -/
def Readable (config : Config) : Prop :=
  ∀ property ∈ config.properties, ∀ value ∈ property.values, value.form ≠ .error

/-- A property has what its binding asks for: a value for each component, of its type and within its
rules, and the property that it requires. -/
structure Accepts (table : SymbolTable) (config : Config) (bound : BoundProperty)
    (property : Property) :
    Prop where
  arity : property.values.length = bound.components.length
  values : ∀ (index : Nat) {value : ConfigValue} {expected : Prim},
    property.values[index]? = some value → bound.components[index]? = some expected →
      ∃ prim meant, value.form.Means table prim meant ∧ prim.agrees expected = true ∧
        ∀ entry ∈ bound.rules, entry.component = index → entry.rule.Admits meant
  requires : ∀ {required : String}, bound.requires = some required → required ∈ config.keys

structure Valid (table : SymbolTable) (binding : Binding) (config : Config) : Prop where
  known : ∀ key ∈ config.keys, key ∈ binding.names
  single : ∀ {key : String}, binding.Single key → config.keys.count key ≤ 1
  accepted : ∀ property ∈ config.properties, ∀ bound ∈ binding.properties,
    bound.name = property.key.text → config.Accepts table bound property
  required : ∀ {key : String}, binding.Required key → key ∈ config.keys

variable {table : SymbolTable} {binding : Binding} {config : Config} {bound : BoundProperty}
  {property : Property} {rest properties : List Property} {seen : List String}

theorem property_some_iff (config : Config) (key : String) :
    (config.property? key).isSome = true ↔ key ∈ config.keys := by
  simp [property?, keys, find?_isSome]

/-! ### Faults of values -/

theorem mem_rules_for :
    rule ∈ bound.rulesFor index ↔ ∃ entry ∈ bound.rules, entry.component = index ∧
      entry.rule = rule := by
  simp [BoundProperty.rulesFor, and_assoc]

theorem value_faults_eq_nil_iff :
    valueFaults table bound property = [] ↔
      ∀ {index : Nat} {value : ConfigValue} {expected : Prim},
      property.values[index]? = some value →
        bound.components[index]? = some expected →
        value.faults table expected (bound.rulesFor index) = [] := by
  rw [valueFaults, flatMap_eq_nil_iff]
  constructor
  · intro clean index value expected there asked
    exact clean ((value, expected), index)
      (mk_mem_zipIdx_iff_getElem?.mpr (getElem?_zip_eq_some.mpr ⟨there, asked⟩))
  · intro clean entry member
    obtain ⟨there, asked⟩ := getElem?_zip_eq_some.mp (mem_zipIdx_iff_getElem?.mp member)
    exact clean there asked

theorem required_fault_eq_nil_iff : config.requiredFault bound property = [] ↔
      ∀ {required : String}, bound.requires = some required → required ∈ config.keys := by
  unfold requiredFault
  split
  case h_1 nothing => simp [nothing]
  case h_2 required asked => simp [asked, ← property_some_iff, Option.isSome_iff_ne_none]

/-- A property has no fault of its own exactly if it is accepted. -/
theorem property_faults_eq_nil_iff (literal : table.Literal)
    (apart : ∀ {name info}, table.config? name = some info → info.prim.agrees .int = false)
    (suited : bound.Suited) (readable : ∀ value ∈ property.values, value.form ≠ .error) :
    propertyFaults table config bound property = [] ↔ config.Accepts table bound property := by
  have fits : ∀ {index : Nat} {value : ConfigValue} {expected : Prim},
      property.values[index]? = some value → bound.components[index]? = some expected →
        (value.faults table expected (bound.rulesFor index) = [] ↔
          ∃ prim meant, value.form.Means table prim meant ∧ prim.agrees expected = true ∧
            ∀ entry ∈ bound.rules, entry.component = index → entry.rule.Admits meant) := by
    intro index value expected there asked
    rw [ConfigValue.faults_eq_nil_iff literal apart (readable value (mem_of_getElem? there))]
    · simp only [mem_rules_for]
      grind
    · -- A bound on numbers stands where the settings ask for a number.
      intro rule listed numeric
      obtain ⟨entry, member, here, rfl⟩ := mem_rules_for.mp listed
      obtain ⟨prim, at_component, number⟩ := (suited entry member).numeric numeric
      rw [here, asked] at at_component
      cases at_component
      exact number
  unfold propertyFaults
  split
  case isTrue same =>
    rw [append_eq_nil_iff, value_faults_eq_nil_iff, required_fault_eq_nil_iff]
    constructor
    · rintro ⟨clean, requires⟩
      exact ⟨same.symm, fun _ _ _ there asked => (fits there asked).mp (clean there asked),
        requires⟩
    · intro accepted
      exact ⟨fun there asked => (fits there asked).mpr (accepted.values _ there asked),
        accepted.requires⟩
  case isFalse differs =>
    exact iff_of_false (cons_ne_nil _ _) fun accepted => differs accepted.arity.symm

/-! ### Faults in their order -/

/-- The faults of a property whose binding is known, behind those of the given keys. -/
def occurrenceFaults (table : SymbolTable) (config : Config) (seen : List String)
    (bound : BoundProperty) (property : Property) : List Diagnostic :=
  if seen.contains property.key.text && !bound.allowDuplicates then
    [⟨.semantic (.duplicateProperty property.key.text), property.key.span⟩]
  else propertyFaults table config bound property

theorem faults_from_unknown (unbound : property.key.text ∉ binding.names) :
    faultsFrom table binding config seen (property :: rest) =
      ⟨.semantic (.unknownProperty property.key.text), property.key.span⟩ ::
        faultsFrom table binding config seen rest := by
  simp only [faultsFrom, (find_property_none_iff ..).mpr unbound]

theorem faults_from_known
    (found : Binding.property? binding.properties property.key.text = some bound) :
    faultsFrom table binding config seen (property :: rest) = occurrenceFaults table config seen
      bound property ++
        faultsFrom table binding config (property.key.text :: seen) rest := by
  simp only [faultsFrom, found, occurrenceFaults]

theorem exists_bound (known : key ∈ binding.names) :
    ∃ bound, Binding.property? binding.properties key = some bound := by
  rw [← Option.isSome_iff_exists, Option.isSome_iff_ne_none, Ne, find_property_none_iff, not_not]
  exact known

theorem single_iff (distinct : binding.names.Nodup)
    (found : Binding.property? binding.properties key = some bound) :
    binding.Single key ↔ bound.allowDuplicates = false := by
  constructor
  · rintro ⟨other, member, named, single⟩
    rw [(find_property_iff _ distinct).mpr ⟨member, named⟩] at found
    cases found
    exact single
  · intro single
    obtain ⟨member, named⟩ := (find_property_iff _ distinct).mp found
    exact ⟨bound, member, named, single⟩

theorem occurrence_faults_eq_nil_iff (distinct : binding.names.Nodup)
    (found : Binding.property? binding.properties property.key.text = some bound) :
    occurrenceFaults table config seen bound property = [] ↔
      (binding.Single property.key.text → property.key.text ∉ seen) ∧
        propertyFaults table config bound property = [] := by
  rw [single_iff distinct found, occurrenceFaults]
  by_cases again : property.key.text ∈ seen <;> cases bound.allowDuplicates <;> simp [again]

/-- How often a key may still occur behind the given ones. -/
def room (seen : List String) (key : String) : Nat := if key ∈ seen then 0 else 1

theorem count_cons_le_room {keys : List String} : (key :: keys).count other ≤ room seen other ↔
      (other = key → key ∉ seen) ∧ keys.count other ≤ room (key :: seen) other := by
  by_cases same : other = key
  · subst same
    by_cases again : other ∈ seen <;> simp [room, again]
  · simp [room, same, count_cons_of_ne (Ne.symm same)]

theorem faults_from_eq_nil_iff (distinct : binding.names.Nodup) :
    faultsFrom table binding config seen properties = [] ↔
      (∀ property ∈ properties, ∃ bound,
        Binding.property? binding.properties property.key.text = some bound ∧
          propertyFaults table config bound property = []) ∧
      ∀ {key : String}, binding.Single key →
        (properties.map fun property => property.key.text).count key ≤ room seen key := by
  induction properties generalizing seen with
  | nil => simp [faultsFrom]
  | cons property rest ih =>
    by_cases known : property.key.text ∈ binding.names
    · obtain ⟨bound, found⟩ := exists_bound known
      rw [faults_from_known found, append_eq_nil_iff,
        occurrence_faults_eq_nil_iff distinct found, ih,
        forall_mem_cons, found]
      simp only [map_cons, count_cons_le_room, Option.some.injEq, exists_eq_left']
      constructor
      · rintro ⟨⟨first, clean⟩, behind, rooms⟩
        exact ⟨⟨clean, behind⟩, fun {key} single =>
          ⟨fun same => first (same ▸ single), rooms single⟩⟩
      · rintro ⟨⟨clean, behind⟩, rooms⟩
        exact ⟨⟨fun single => (rooms single).1 rfl, clean⟩, behind,
          fun {key} single => (rooms single).2⟩
    · rw [faults_from_unknown known]
      refine iff_of_false (cons_ne_nil _ _) fun valid => ?_
      obtain ⟨bound, found, _⟩ := valid.1 property mem_cons_self
      rw [(find_property_none_iff ..).mpr known] at found
      cases found

theorem missing_faults_eq_nil_iff :
    missingFaults binding config = [] ↔ ∀ {key : String}, binding.Required key →
      key ∈ config.keys := by
  rw [missingFaults, map_eq_nil_iff, filter_eq_nil_iff]
  constructor
  · rintro nothing key ⟨bound, member, rfl, required⟩
    have present := nothing bound member
    rw [required, Bool.true_and, Option.isNone_iff_eq_none, ← Ne,
      ← Option.isSome_iff_ne_none] at present
    exact (property_some_iff ..).mp present
  · intro present bound member missing
    rw [Bool.and_eq_true, Option.isNone_iff_eq_none] at missing
    have found := (property_some_iff ..).mpr (present ⟨bound, member, rfl, missing.1⟩)
    rw [missing.2] at found
    cases found

/-- A configuration that could be read is without a fault exactly if it is valid. -/
theorem faults_eq_nil_iff_valid (distinct : binding.names.Nodup)
    (suited : ∀ bound ∈ binding.properties, bound.Suited) (literal : table.Literal)
    (apart : ∀ {name info}, table.config? name = some info → info.prim.agrees .int = false)
    (readable : config.Readable) :
    config.faults table binding = [] ↔ config.Valid table binding := by
  have accepts : ∀ property ∈ config.properties, ∀ bound ∈ binding.properties,
      (propertyFaults table config bound property = [] ↔ config.Accepts table bound property) :=
    fun property listed bound member =>
      property_faults_eq_nil_iff literal apart (suited bound member) (readable property listed)
  rw [faults, append_eq_nil_iff, faults_from_eq_nil_iff distinct, missing_faults_eq_nil_iff]
  constructor
  · rintro ⟨⟨clean, rooms⟩, required⟩
    refine ⟨?_, rooms, ?_, required⟩
    · refine forall_mem_map.mpr fun property listed => ?_
      obtain ⟨bound, found, _⟩ := clean property listed
      obtain ⟨member, named⟩ := (find_property_iff _ distinct).mp found
      exact named ▸ List.mem_map_of_mem member
    · intro property listed bound member named
      obtain ⟨other, found, accepted⟩ := clean property listed
      rw [(find_property_iff _ distinct).mpr ⟨member, named⟩] at found
      cases found
      exact (accepts property listed bound member).mp accepted
  · intro valid
    refine ⟨⟨fun property listed => ?_, fun {key} => valid.single⟩, fun {key} => valid.required⟩
    obtain ⟨bound, found⟩ := exists_bound (valid.known _ (List.mem_map_of_mem listed))
    obtain ⟨member, named⟩ := (find_property_iff _ distinct).mp found
    exact ⟨bound, found, (accepts property listed bound member).mpr
      (valid.accepted property listed bound member named)⟩

/-! ### Faults of keys -/

theorem rule_fault_of_value {value : ConfigValue} :
    ∀ fault ∈ value.ruleFault table rule, fault.fault.concernsKey = false := by
  unfold ConfigValue.ruleFault
  split
  · split <;> simp [Fault.concernsKey]
  · split <;> simp [Fault.concernsKey]
  all_goals exact forall_mem_nil _

theorem type_fault_of_value {value : ConfigValue} :
    ∀ fault ∈ (value.typeOf table).2, fault.fault.concernsKey = false := by
  unfold ConfigValue.typeOf
  split
  case h_2 => split <;> simp [Fault.concernsKey]
  case h_3 => split <;> simp [Fault.concernsKey]
  all_goals exact forall_mem_nil _

theorem value_fault_of_value {value : ConfigValue} :
    ∀ fault ∈ value.faults table expected rules, fault.fault.concernsKey = false := by
  have typed : ∀ fault ∈ (value.typeOf table).2, fault.fault.concernsKey = false :=
    type_fault_of_value
  unfold ConfigValue.faults
  split
  case h_1 faults read =>
    rw [read] at typed
    exact typed
  case h_2 prim faults read =>
    rw [read] at typed
    refine forall_mem_append.mpr ⟨typed, ?_⟩
    split
    · intro fault member
      obtain ⟨rule, _, broken⟩ := mem_flatMap.mp member
      exact rule_fault_of_value fault broken
    · exact forall_mem_singleton.mpr rfl

/-- What is wrong with a property that may stand where it stands is no matter of its key. -/
theorem property_fault_of_value :
    ∀ fault ∈ propertyFaults table config bound property, fault.fault.concernsKey = false := by
  unfold propertyFaults
  split
  · refine forall_mem_append.mpr ⟨fun fault member => ?_, ?_⟩
    · obtain ⟨entry, _, wrong⟩ := mem_flatMap.mp member
      exact value_fault_of_value fault wrong
    · unfold requiredFault
      split
      · exact forall_mem_nil _
      · split
        · exact forall_mem_nil _
        · exact forall_mem_singleton.mpr rfl
  · exact forall_mem_singleton.mpr rfl

/-- The causes of faults, in their order. -/
def causes (faults : List Diagnostic) : List Fault := faults.map Diagnostic.fault

@[simp] theorem causes_cons (fault : Diagnostic) (rest : List Diagnostic) :
    causes (fault :: rest) = fault.fault :: causes rest := rfl

@[simp] theorem causes_append (first second : List Diagnostic) :
    causes (first ++ second) = causes first ++ causes second := map_append

theorem key_causes_of_property :
    (causes (propertyFaults table config bound property)).filter Fault.concernsKey = [] := by
  refine filter_eq_nil_iff.mpr (forall_mem_map.mpr fun fault listed => ?_)
  rw [property_fault_of_value fault listed]
  exact Bool.false_ne_true

/-- What is told of keys behind the given ones: those that are not bound, and those that may not
occur again. -/
def told (binding : Binding) : List String → List String → List Fault
  | _, [] => []
  | seen, key :: rest =>
    if key ∈ binding.names then
      (if binding.Single key ∧ key ∈ seen then [.semantic (.duplicateProperty key)] else []) ++
        told binding (key :: seen) rest
    else .semantic (.unknownProperty key) :: told binding seen rest

theorem key_causes_from (distinct : binding.names.Nodup) :
    (causes (faultsFrom table binding config seen properties)).filter Fault.concernsKey =
      told binding seen (properties.map fun property => property.key.text) := by
  induction properties generalizing seen with
  | nil => rfl
  | cons property rest ih =>
    rw [map_cons, told]
    by_cases known : property.key.text ∈ binding.names
    · obtain ⟨bound, found⟩ := exists_bound known
      rw [faults_from_known found, causes_append, filter_append, ih, if_pos known, occurrenceFaults]
      have again : (seen.contains property.key.text && !bound.allowDuplicates) = true ↔
          binding.Single property.key.text ∧ property.key.text ∈ seen := by
        simp [single_iff distinct found, and_comm]
      simp only [again]
      split
      · rfl
      · rw [key_causes_of_property]
    · rw [faults_from_unknown known, causes_cons, filter_cons_of_pos rfl, ih, if_neg known]

theorem count_causes_from (distinct : binding.names.Nodup) {cause : Fault}
    (keyed : cause.concernsKey = true) :
    (causes (faultsFrom table binding config seen properties)).count cause =
      (told binding seen (properties.map fun property => property.key.text)).count cause := by
  rw [← key_causes_from distinct, count_filter keyed]

/-- Keys that are not bound are told once for each time they occur. -/
theorem unknown_told {keys : List String} :
    (told binding seen keys).countP Fault.isUnknownProperty = keys.countP (· ∉ binding.names) := by
  induction keys generalizing seen with
  | nil => rfl
  | cons key rest ih =>
    rw [told]
    by_cases known : key ∈ binding.names
    · have other : (if binding.Single key ∧ key ∈ seen then
          [Fault.semantic (.duplicateProperty key)] else []).countP
            Fault.isUnknownProperty = 0 := by
        split <;> rfl
      rw [if_pos known, countP_append, other, Nat.zero_add, ih,
        countP_cons_of_neg (by simpa using known)]
    · rw [if_neg known, countP_cons_of_pos rfl, ih, countP_cons_of_pos (by simpa using known)]

/-- A key that may not occur twice is told once for each time it occurs again. -/
theorem duplicate_told {keys : List String} (key : String) :
    (told binding seen keys).count (.semantic (.duplicateProperty key)) =
      if binding.Single key then keys.count key - room seen key else 0 := by
  induction keys generalizing seen with
  | nil => simp [told]
  | cons first rest ih =>
    have bound : binding.Single key → key ∈ binding.names := by
      rintro ⟨bound, member, rfl, -⟩
      exact mem_map_of_mem member
    rw [told]
    by_cases same : first = key
    · subst same
      by_cases single : binding.Single first <;> by_cases again : first ∈ seen <;> by_cases known :
        first ∈ binding.names
      all_goals simp_all [room]
    · have other : key ≠ first := Ne.symm same
      split_ifs <;> simp_all [room]

theorem missing_told {keys : List String} (key : String) :
    Fault.semantic (.missingProperty key) ∉ told binding seen keys := by
  induction keys generalizing seen with
  | nil => exact not_mem_nil
  | cons first rest ih =>
    rw [told]
    split
    · split <;> simp [ih]
    · simp [ih]

theorem missing_causes (distinct : binding.names.Nodup) (key : String) :
    (causes (missingFaults binding config)).count (.semantic (.missingProperty key)) =
      if binding.Required key ∧ key ∉ config.keys then 1 else 0 := by
  -- The names that are told, a part of those of the binding.
  let missing := (binding.properties.filter fun bound =>
    bound.required && (config.property? bound.name).isNone).map BoundProperty.name
  have told : causes (missingFaults binding config) = missing.map fun key =>
    .semantic (.missingProperty key) := by
    simp [causes, missingFaults, missing, Function.comp_def]
  have once : missing.Nodup := distinct.sublist (filter_sublist.map _)
  have member : key ∈ missing ↔ binding.Required key ∧ key ∉ config.keys := by
    rw [← property_some_iff]
    simp only [missing, mem_map, mem_filter, Required, Bool.and_eq_true,
      Option.isNone_iff_eq_none, Bool.not_eq_true, Option.isSome_eq_false_iff]
    grind
  have injective : Function.Injective fun key => Fault.semantic (.missingProperty key) :=
    fun first second equal => by simpa using equal
  have counted := count_map_of_injective missing _ injective key
  rw [told, counted, Nodup.count once]
  simp only [member]

/-- What the faults of a configuration say, exactly. -/
theorem faults_exact {settings : BindingSettings}
    (made : Binding.ofSettings settings = .ok binding) :
    (∀ {table : SymbolTable} {config : Config}, table.Built →
      (∀ {name info}, table.config? name = some info → info.prim.agrees .int = false) →
      config.Readable →
        (config.faults table binding = [] ↔ config.Valid table binding)) ∧
        ∀ (table : SymbolTable) (config : Config),
      (causes (config.faults table binding)).countP Fault.isUnknownProperty = config.keys.countP
        (· ∉ binding.names) ∧
      ∀ key : String, (causes (config.faults table binding)).count
        (.semantic (.duplicateProperty key)) =
          (if binding.Single key then config.keys.count key - 1 else 0) ∧
        (causes (config.faults table binding)).count (.semantic (.missingProperty key)) =
          if binding.Required key ∧ key ∉ config.keys then 1 else 0 := by
  have distinct := Binding.names_distinct_of_settings made
  refine ⟨fun built apart readable => faults_eq_nil_iff_valid distinct
    (Binding.suited_of_settings made) built.literal apart readable, fun table config =>
    ⟨?_, fun key => ⟨?_, ?_⟩⟩⟩
  · have missing : (causes (missingFaults binding config)).countP Fault.isUnknownProperty = 0 := by
      simp [causes, missingFaults, List.countP_map, Fault.isUnknownProperty, Function.comp_def]
    rw [faults, causes_append, List.countP_append, missing, Nat.add_zero, keys, ← unknown_told,
      ← key_causes_from distinct, List.countP_filter]
    refine List.countP_congr fun cause _ => ?_
    rw [Bool.and_eq_true, and_iff_left_of_imp Fault.concerns_key_of_unknown]
  · have missing : (causes (missingFaults binding config)).count
      (.semantic (.duplicateProperty key)) = 0 := by
      simp [causes, missingFaults, List.count_eq_zero]
    rw [faults, causes_append, List.count_append, missing, Nat.add_zero,
      count_causes_from distinct rfl, duplicate_told]
    rfl
  · rw [faults, causes_append, List.count_append, count_causes_from distinct rfl,
      List.count_eq_zero.mpr (missing_told key), missing_causes distinct, Nat.zero_add]

/-! ### A stall and its wares -/

/-- Wares have a cost, may be hidden, and are swapped against numbers of others. -/
def waresSettings : BindingSettings := ⟨"obj", none, [
  ⟨"cost", 1, ["int"], true, false, [⟨0, .range 0 100⟩], none, none⟩,
  ⟨"hidden", 2, ["boolean"], false, false, [⟨0, .emptyIfTrue⟩], none, none⟩,
  ⟨"swap", 3, ["obj", "short"], false, true, [⟨1, .positive⟩], some "cost", some 2⟩]⟩

def wares : Binding := ⟨.obj, none, [
  ⟨"cost", 1, [.int], true, false, [⟨0, .range 0 100⟩], none⟩,
  ⟨"hidden", 2, [.boolean], false, false, [⟨0, .emptyIfTrue⟩], none⟩,
  ⟨"swap1", 3, [.obj, .short], false, true, [⟨1, .positive⟩], some "cost"⟩,
  ⟨"swap2", 3, [.obj, .short], false, true, [⟨1, .positive⟩], some "cost"⟩]⟩

theorem wares_made : ofSettings waresSettings = .ok wares := rfl

/-- A property at no place. -/
def written (key : String) (forms : List ValueForm) : Property :=
  ⟨⟨key, Span.empty⟩, forms.map fun form => ⟨form, Span.empty⟩, Span.empty⟩

/-- A table with the constant `price`. -/
def priceList : SymbolTable :=
  (Constant.defineAll .empty [⟨⟨"price", Span.empty⟩, ⟨.int 40, Span.empty⟩, Span.empty⟩]).1

/-- The object `coin` is known too. -/
def stall : SymbolTable := ((priceList.defineConfig "coin" .obj none).getD (0, priceList)).2

theorem stall_built : stall.Built := by
  have defined : priceList.defineConfig "coin" .obj none = some (0, stall) := rfl
  exact .config (.constants .empty _) defined

/-- The only configuration of the stall is an object. -/
theorem stall_config {name : String} (found : stall.config? name = some info) :
    info.prim = .obj := by
  obtain ⟨layer, member, inside⟩ := exists_of_findSome?_eq_some found
  obtain rfl := mem_singleton.mp member
  obtain rfl := mem_singleton.mp (mem_of_find?_eq_some inside)
  rfl

/-- A valid configuration. Its price is a constant, and one of its keys occurs twice. -/
def chest : Config := ⟨⟨"chest", Span.empty⟩, [
  written "cost" [.constant ⟨"price", Span.empty⟩], written "hidden" [.bool false],
  written "swap1" [.reference ⟨"coin", Span.empty⟩, .int 3],
  written "swap1" [.reference ⟨"coin", Span.empty⟩, .int 1]], Span.empty⟩

/-- A configuration with an unknown key and one that occurs three times, without a cost. -/
def crate : Config := ⟨⟨"crate", Span.empty⟩, [
  written "hidden" [.bool true], written "size" [.int 1], written "hidden" [.int 7],
  written "hidden" []], Span.empty⟩

theorem chest_valid_and_crate_counted :
    Binding.ofSettings waresSettings = .ok wares ∧ stall.Built ∧ chest.Readable ∧
      chest.Valid stall wares ∧ ¬ crate.Valid stall wares ∧
      (causes (crate.faults stall wares)).countP Fault.isUnknownProperty = 1 ∧
      (causes (crate.faults stall wares)).count (.semantic (.duplicateProperty "hidden")) = 2 ∧
      (causes (crate.faults stall wares)).count (.semantic (.missingProperty "cost")) = 1 := by
  have exact := faults_exact wares_made
  have apart : ∀ {name info}, stall.config? name = some info → info.prim.agrees .int = false :=
    fun found => by rw [stall_config found]; rfl
  have clean : chest.Readable := by unfold Readable; decide
  have readable : crate.Readable := by unfold Readable; decide
  obtain ⟨unknown, keyed⟩ := exact.2 stall crate
  refine ⟨wares_made, stall_built, clean, (exact.1 stall_built apart clean).mp (by decide), ?_, ?_,
    ?_, ?_⟩
  · rw [← exact.1 stall_built apart readable]
    decide
  · rw [unknown]
    decide
  · rw [(keyed "hidden").1]
    decide
  · rw [(keyed "cost").2]
    decide

/-! ### Configurations that pass for numbers

A binding gives configurations a type of configurations. A table takes any type: a configuration of
type `int` may stand for a number, which no rule looks at. -/

/-- The cost of a thing is positive. -/
def thingSettings : BindingSettings :=
  ⟨"obj", none, [⟨"cost", 1, ["int"], false, false, [⟨0, .positive⟩], none, none⟩]⟩

def thing : Binding := ⟨.obj, none, [⟨"cost", 1, [.int], false, false, [⟨0, .positive⟩], none⟩]⟩

/-- The configuration `coin` is the number zero. -/
def counted : SymbolTable := ((SymbolTable.empty.defineConfig "coin" .int none).getD (0, .empty)).2

theorem counted_built : counted.Built := by
  have defined : SymbolTable.empty.defineConfig "coin" .int none = some (0, counted) := rfl
  exact .config .empty defined

def gift : Config :=
  ⟨⟨"gift", Span.empty⟩, [written "cost" [.reference ⟨"coin", Span.empty⟩]], Span.empty⟩

theorem gift_faultless_not_valid :
    Binding.ofSettings thingSettings = .ok thing ∧ counted.Built ∧ gift.Readable ∧
      gift.faults counted thing = [] ∧ ¬ gift.Valid counted thing := by
  refine ⟨rfl, counted_built, by unfold Readable; decide, by decide, fun valid => ?_⟩
  have accepted := valid.accepted _ List.mem_cons_self _ List.mem_cons_self rfl
  obtain ⟨prim, meant, means, _, admits⟩ := accepted.values 0 rfl rfl
  have positive := admits _ List.mem_cons_self rfl
  cases means with
  | reference found =>
    cases found
    exact absurd positive (by unfold Rule.Admits; decide)

end Config

end TriggerScript
