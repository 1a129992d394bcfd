import TriggerScript.Proofs.Config.Validity

/-!
Records of valid configurations.

A configuration without a fault has a record. Each of its properties goes into the record in its
turn, with a value for each component that keeps the rules of that component. Only a property that
is written empty or not at all is without its value.
-/

namespace TriggerScript

open List RecordProperty

/-- The truth value with which the first rule to say so has the property written empty. -/
def BoundProperty.trigger? (bound : BoundProperty) : Option Bool :=
  bound.rules.findSome? fun entry => entry.rule.trigger?

variable (table : SymbolTable) (bound : BoundProperty) (property : Property) in
/-- What goes into a record for a property: its values, one for each component and within its rules;
nothing behind its opcode, if its truth value is the one for that; and else nothing at all. -/
inductive PropertyOutcome : Option RecordProperty → Prop where
  | full {values : List (Prim × Value)} (plain : bound.trigger? = none)
      (length : values.length = property.values.length)
      (typed : values.map Prod.fst = bound.components)
      (meant : ∀ (index : Nat) {prim : Prim} {meant : Value}, values[index]? = some (prim, meant) →
        ∃ value own, property.values[index]? = some value ∧ value.form.Means table own meant ∧
          own.agrees prim = true ∧ ∀ entry ∈ bound.rules, entry.component = index →
          entry.rule.Admits meant) :
      PropertyOutcome (some ⟨bound.opcode, values⟩)
  | empty (rule : bound.trigger? = some truth) (only : property.values = [value])
      (means : value.form.Means table .boolean (.bool truth)) :
      PropertyOutcome (some ⟨bound.opcode, []⟩)
  | dropped (rule : bound.trigger? = some truth) (only : property.values = [value])
      (means : value.form.Means table .boolean (.bool other)) (differs : other ≠ truth) :
      PropertyOutcome none

variable {table : SymbolTable} {binding : Binding} {config : Config} {bound : BoundProperty}
  {property : Property}

/-- Only the first value of a property can have it written empty. -/
theorem empty_when_eq (suited : bound.Suited) : bound.emptyWhen? = bound.trigger? := by
  unfold BoundProperty.emptyWhen? BoundProperty.rulesFor BoundProperty.trigger?
  unfold BoundProperty.Suited at suited
  generalize bound.rules = rules at suited
  induction rules with
  | nil => rfl
  | cons entry rest ih =>
    rw [forall_mem_cons] at suited
    have later := ih suited.2
    by_cases first : entry.component = 0
    · rw [filter_cons_of_pos (by simpa using first), map_cons, findSome?_cons, findSome?_cons,
        later]
      cases rule : entry.rule <;> rfl
    · have silent : entry.rule.trigger? = none := by
        cases told : entry.rule.trigger? with
        | none => rfl
        | some truth => exact absurd (suited.1.empty told).2 first
      rw [filter_cons_of_neg (by simpa using first), findSome?_cons, silent, later]

theorem Prim.eq_boolean_of_agrees {prim : Prim} (agrees : prim.agrees .boolean = true) :
    prim = .boolean := by
  revert agrees
  cases prim <;> decide

namespace Record

theorem emitted_plain {values : List (Prim × Value)} (plain : bound.emptyWhen? = none) :
    emitted bound values = some ⟨bound.opcode, values⟩ := by
  simp only [emitted, plain]

theorem emitted_truth (rule : bound.emptyWhen? = some truth) :
    emitted bound [(prim, .bool other)] =
      if other = truth then some ⟨bound.opcode, []⟩ else none := by
  simp only [emitted, rule]

/-- The value of a component, with its type. -/
def resolveComponent (table : SymbolTable) (pair : ConfigValue × Prim) :
    Except Diagnostic (Prim × Value) := do
  return (pair.2, ← pair.1.resolve table)

theorem resolve_component_eq :
    resolveComponent table pair = .ok result ↔ pair.1.resolve table = .ok result.2 ∧
      result.1 = pair.2 := by
  obtain ⟨prim, meant⟩ := result
  simp only [resolveComponent, bind_eq_ok, pure, Except.pure, Except.ok.injEq, Prod.mk.injEq]
  grind

theorem resolve_values (accepted : config.Accepts table bound property) :
    ∃ values, (property.values.zip bound.components).mapM (resolveComponent table) = .ok values ∧
      values.length = property.values.length ∧ values.map Prod.fst = bound.components ∧
      ∀ (index : Nat) {prim : Prim} {meant : Value}, values[index]? = some (prim, meant) →
        ∃ value own, property.values[index]? = some value ∧ value.form.Means table own meant ∧
          own.agrees prim = true ∧ ∀ entry ∈ bound.rules, entry.component = index →
          entry.rule.Admits meant := by
  have resolves : ∀ pair ∈ property.values.zip bound.components, ∃ result,
      resolveComponent table pair = .ok result ∧ pair.2 = result.1 := by
    intro pair member
    obtain ⟨index, at_index⟩ := mem_iff_getElem?.mp member
    obtain ⟨there, asked⟩ := getElem?_zip_eq_some.mp at_index
    obtain ⟨own, meant, means, _⟩ := accepted.values index there asked
    exact ⟨(pair.2, meant), resolve_component_eq.mpr ⟨ConfigValue.resolve_of_means means, rfl⟩, rfl⟩
  obtain ⟨values, resolved, pairs⟩ := exists_mapM resolves
  refine ⟨values, resolved, ?_, ?_, ?_⟩
  · rw [← pairs.length_eq, length_zip, accepted.arity, min_self]
  · have heads := forall₂_map_left_iff.mpr (forall₂_map_right_iff.mpr pairs)
    rw [forall₂_eq_eq_eq] at heads
    rw [← heads, map_snd_zip accepted.arity.ge]
  · intro index prim meant there
    obtain ⟨pair, at_index, computed⟩ := exists_of_getElem?_mapM resolved there
    obtain ⟨here, asked⟩ := getElem?_zip_eq_some.mp at_index
    obtain ⟨read, same⟩ := resolve_component_eq.mp computed
    obtain ⟨own, value, means, agrees, admits⟩ := accepted.values index here asked
    cases read.symm.trans (ConfigValue.resolve_of_means means)
    rw [← show prim = pair.2 from same] at agrees
    exact ⟨pair.1, own, here, means, agrees, admits⟩

theorem generate_accepted (literal : table.Literal)
    (apart : ∀ {name info}, table.config? name = some info → info.prim ≠ .boolean)
    (suited : bound.Suited)
    (found : Binding.property? binding.properties property.key.text = some bound)
    (accepted : config.Accepts table bound property) :
    ∃ outcome, generateProperty table binding property = .ok outcome ∧
      PropertyOutcome table bound property outcome := by
  obtain ⟨values, resolved, length, typed, meant⟩ := resolve_values accepted
  have generated : generateProperty table binding property = .ok (emitted bound values) := by
    simp only [generateProperty, found]
    exact bind_eq_ok.mpr ⟨values, resolved, rfl⟩
  refine ⟨_, generated, ?_⟩
  cases rule : bound.trigger? with
  | none =>
    rw [emitted_plain ((empty_when_eq suited).trans rule)]
    exact .full rule length typed meant
  | some truth =>
    -- The rule speaks about the truth value that is the only value of the property.
    obtain ⟨entry, member, told⟩ := exists_of_findSome?_eq_some rule
    obtain ⟨single, _⟩ := (suited entry member).empty told
    have alone : property.values.length = 1 := accepted.arity.trans (by rw [single]; rfl)
    obtain ⟨value, only⟩ := length_eq_one_iff.mp alone
    obtain ⟨⟨prim, result⟩, rfl⟩ := length_eq_one_iff.mp (length.trans alone)
    obtain ⟨written, own, here, means, agrees, _⟩ := meant 0 rfl
    rw [single] at typed
    cases typed
    obtain rfl := Prim.eq_boolean_of_agrees agrees
    rw [only] at here
    cases here
    obtain ⟨other, rfl⟩ := ConfigValue.truth_of_means literal apart means
    rw [emitted_truth ((empty_when_eq suited).trans rule)]
    split
    case isTrue same => exact .empty rule only (same ▸ means)
    case isFalse differs => exact .dropped rule only means differs

/-- A configuration without a fault has a record, with each property in its turn. -/
theorem generate_faultless {settings : BindingSettings}
    (made : Binding.ofSettings settings = .ok binding) (built : table.Built)
    (apart : ∀ {name info}, table.config? name = some info → info.prim.agrees .int = false ∧
      info.prim ≠ .boolean)
    (readable : config.Readable) (faultless : config.faults table binding = []) :
    ∃ record outcomes, generate table binding config = .ok record ∧ record.group = binding.group ∧
      record.name = config.name.text ∧
      List.Forall₂ (fun property outcome => ∃ bound ∈ binding.properties, bound.name =
        property.key.text ∧
        PropertyOutcome table bound property outcome) config.properties outcomes ∧
      record.properties = outcomes.filterMap id := by
  have distinct := Binding.names_distinct_of_settings made
  have suited := Binding.suited_of_settings made
  have valid := (Config.faults_eq_nil_iff_valid distinct suited built.literal
    (fun found => (apart found).1) readable).mp faultless
  have emitted : ∀ property ∈ config.properties, ∃ outcome,
      generateProperty table binding property = .ok outcome ∧
        ∃ bound ∈ binding.properties, bound.name = property.key.text ∧
        PropertyOutcome table bound property outcome := by
    intro property listed
    obtain ⟨bound, found⟩ := Config.exists_bound (valid.known _ (List.mem_map_of_mem listed))
    obtain ⟨member, named⟩ := (Binding.find_property_iff _ distinct).mp found
    obtain ⟨outcome, generated, emission⟩ :=
      generate_accepted built.literal (fun found => (apart found).2)
      (suited bound member) found (valid.accepted property listed bound member named)
    exact ⟨outcome, generated, bound, member, named, emission⟩
  obtain ⟨outcomes, generated, emissions⟩ := exists_mapM emitted
  exact ⟨_, outcomes, bind_eq_ok.mpr ⟨outcomes, generated, rfl⟩, rfl, rfl, emissions, rfl⟩

/-- The record of the chest: it is not hidden, so that nothing is said about that. -/
def chestRecord : Record := ⟨.obj, "chest", [
  ⟨1, [(.int, .int 40)]⟩, ⟨3, [(.obj, .int 0), (.short, .int 3)]⟩,
  ⟨3, [(.obj, .int 0), (.short, .int 1)]⟩]⟩

theorem chest_generates :
    Binding.ofSettings Config.waresSettings = .ok Config.wares ∧ Config.stall.Built ∧
      Config.chest.Readable ∧
      Config.chest.faults Config.stall Config.wares = [] ∧
      ∃ outcomes, generate Config.stall Config.wares Config.chest = .ok chestRecord ∧
        List.Forall₂ (fun property outcome => ∃ bound ∈ Config.wares.properties,
          bound.name = property.key.text ∧ PropertyOutcome Config.stall bound property outcome)
          Config.chest.properties outcomes ∧ chestRecord.properties = outcomes.filterMap id := by
  have apart : ∀ {name info}, Config.stall.config? name = some info →
      info.prim.agrees .int = false ∧ info.prim ≠ .boolean :=
    fun found => by rw [Config.stall_config found]; decide
  have readable : Config.chest.Readable := by unfold Config.Readable; decide
  have faultless : Config.chest.faults Config.stall Config.wares = [] := by decide
  obtain ⟨record, outcomes, generated, _, _, emissions, properties⟩ :=
    generate_faultless Config.wares_made Config.stall_built apart readable faultless
  have computed : generate Config.stall Config.wares Config.chest = .ok chestRecord := rfl
  cases generated.symm.trans computed
  exact ⟨Config.wares_made, Config.stall_built, readable, faultless, outcomes, computed, emissions,
    properties⟩

/-- A veil is written empty if it is true. -/
def veilSettings : BindingSettings :=
  ⟨"obj", none, [⟨"hidden", 2, ["boolean"], false, false, [⟨0, .emptyIfTrue⟩], none, none⟩]⟩

def veil : Binding :=
  ⟨.obj, none, [⟨"hidden", 2, [.boolean], false, false, [⟨0, .emptyIfTrue⟩], none⟩]⟩

/-- The configuration `flag` passes for a truth value. -/
def flagged : SymbolTable :=
  ((SymbolTable.empty.defineConfig "flag" .boolean none).getD (0, .empty)).2

theorem flagged_built : flagged.Built := by
  have defined : SymbolTable.empty.defineConfig "flag" .boolean none = some (0, flagged) := rfl
  exact .config .empty defined

def shroud : Config :=
  ⟨⟨"shroud", Span.empty⟩, [Config.written "hidden" [.reference ⟨"flag", Span.empty⟩]], Span.empty⟩

/-- Configurations of type `int` and `boolean` are written as the numbers they have, against the
rules. -/
theorem gift_and_shroud_written :
    (Binding.ofSettings Config.thingSettings = .ok Config.thing ∧ Config.counted.Built ∧
      Config.gift.Readable ∧
      Config.gift.faults Config.counted Config.thing = [] ∧
      generate Config.counted Config.thing Config.gift =
      .ok ⟨.obj, "gift", [⟨1, [(.int, .int 0)]⟩]⟩ ∧
      ¬ Rule.positive.Admits (.int 0)) ∧ Binding.ofSettings veilSettings = .ok veil ∧
      flagged.Built ∧ shroud.Readable ∧
      shroud.faults flagged veil = [] ∧
      generate flagged veil shroud = .ok ⟨.obj, "shroud", [⟨2, [(.boolean, .int 0)]⟩]⟩ := by
  refine ⟨⟨rfl, Config.counted_built, ?_, by decide, rfl, ?_⟩, rfl, flagged_built, ?_,
    by decide, rfl⟩
  · unfold Config.Readable
    decide
  · unfold Rule.Admits
    decide
  · unfold Config.Readable
    decide

end Record

end TriggerScript
