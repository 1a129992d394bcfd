import TriggerScript.Proofs.Compiler.Batches
import TriggerScript.Proofs.Config.Emission
import TriggerScript.Proofs.Value.Encoding

/-!
Bytes of valid configurations.

The encoding that a component has takes every value that checking lets through, with one exception:
a type is written as its code, in one byte. So a configuration without a fault has bytes exactly if
the types among its values have such codes.
-/

namespace TriggerScript

open List

/-! ### Bytes of records -/

namespace Record

theorem value_bytes_eq_ok {name : String} : valueBytes name entry = .ok spelled ↔
      ∃ encoding, entry.1.encoding? = some encoding ∧ encoding.write? entry.2 = some spelled := by
  unfold valueBytes
  split
  case h_1 found =>
    rw [Except.ok.injEq, ← Option.bind_eq_some_iff, found, Option.some.injEq]
  case h_2 missing =>
    rw [← Option.bind_eq_some_iff, missing]
    exact iff_of_false (fun never => by cases never) fun never => by cases never

theorem encode_cases {record : Record} (encoded : record.encode = .ok bytes) :
    ∃ spelled, List.Forall₂
        (fun property spelled => propertyBytes record.name property = .ok spelled)
        record.properties spelled ∧ bytes = spelled.flatten ++ [0] := by
  obtain ⟨spelled, written, joined⟩ := bind_eq_ok.mp encoded
  cases joined
  exact ⟨spelled, forall₂_of_mapM written, rfl⟩

/-- The value of a component can be written. -/
def Writable (entry : Prim × Value) : Prop :=
  ∃ encoding, entry.1.encoding? = some encoding ∧ (encoding.write? entry.2).isSome = true

theorem property_bytes_ok_iff (name : String) :
    (∃ spelled, propertyBytes name property = .ok spelled) ↔ ∀ entry ∈ property.values,
      Writable entry := by
  have each : ∀ entry, (∃ spelled, valueBytes name entry = .ok spelled) ↔ Writable entry := by
    intro entry
    simp only [value_bytes_eq_ok, Writable, Option.isSome_iff_exists]
    exact ⟨fun ⟨spelled, encoding, known, written⟩ => ⟨encoding, known, spelled, written⟩,
      fun ⟨encoding, known, spelled, written⟩ => ⟨spelled, encoding, known, written⟩⟩
  simp only [← each, ← exists_mapM_iff]
  constructor
  · rintro ⟨spelled, written⟩
    obtain ⟨values, spells, _⟩ := bind_eq_ok.mp written
    exact ⟨values, spells⟩
  · rintro ⟨values, spells⟩
    exact ⟨_, bind_eq_ok.mpr ⟨values, spells, rfl⟩⟩

/-- A record has bytes exactly if all its values can be written. -/
theorem encode_ok_iff {record : Record} : (∃ bytes, record.encode = .ok bytes) ↔
      ∀ property ∈ record.properties, ∀ entry ∈ property.values, Writable entry := by
  simp only [← property_bytes_ok_iff record.name, ← exists_mapM_iff]
  constructor
  · rintro ⟨bytes, encoded⟩
    obtain ⟨spelled, written, _⟩ := bind_eq_ok.mp encoded
    exact ⟨spelled, written⟩
  · rintro ⟨spelled, written⟩
    exact ⟨_, bind_eq_ok.mpr ⟨spelled, written, rfl⟩⟩

end Record

/-! ### Values of a type -/

namespace Prim

theorem widened_eq (prim : Prim) : prim.widened = if prim.agrees .int then .int else prim := by
  cases prim <;> rfl

theorem same_of_agrees {left : Prim} (agrees : left.agrees right = true)
    (other : left.agrees .int = false) : right = left := by
  have same : left.widened = right.widened := of_decide_eq_true agrees
  rw [widened_eq left, other, if_neg Bool.false_ne_true, widened_eq right] at same
  split at same
  · rw [same] at other
    cases other
  · exact same.symm

/-- A type that counts as `int` has an encoding for integers. -/
theorem width_of_number {prim : Prim} (number : prim.agrees .int = true) :
    prim.width?.isSome = true := by
  revert number
  cases prim <;> decide

theorem width_of_config {prim : Prim} (config : prim.isConfig = true)
    (encodes : prim.encoding? = some encoding) : encoding.width?.isSome = true := by
  revert config encodes
  cases prim <;> cases encoding <;> decide

theorem not_number_of_config {prim : Prim} (config : prim.isConfig = true) :
    prim.agrees .int = false := by
  revert config
  cases prim <;> decide

end Prim

theorem Encoding.write_int {encoding : Encoding} (wide : encoding.width?.isSome = true)
    (number : Int32) : (encoding.write? (.int number)).isSome = true := by
  obtain ⟨width, wide⟩ := Option.isSome_iff_exists.mp wide
  rw [write_number wide]
  rfl

namespace ConfigValue

variable {table : SymbolTable} {value : ConfigValue} {own : Prim} {encoding : Encoding}

/-- The type that the value stands for, if it is one, has a code of one byte. -/
def HasByteCode (table : SymbolTable) (value : ConfigValue) : Prop :=
  ∀ own named, value.form.Means table own (.type named) → named.code.toNat < 256

theorem has_byte_code_iff (means : value.form.Means table own meant) :
    value.HasByteCode table ↔ ∀ named, meant = .type named → named.code.toNat < 256 := by
  constructor
  · rintro small named rfl
    exact small own named means
  · intro small other named again
    exact small named (means_unique means again).2.symm

theorem write_literal_iff (literal : value.literal? = some (own, meant))
    (agrees : own.agrees prim = true) (encodes : prim.encoding? = some encoding) :
    (encoding.write? meant).isSome = true ↔ ∀ named, meant = .type named →
      named.code.toNat < 256 := by
  unfold literal? at literal
  split at literal <;> cases literal
  case h_2 number _ =>
    have counts : prim.agrees .int = true := by simpa [Prim.agrees, eq_comm] using agrees
    have wide := Prim.width_of_number counts
    rw [Prim.width?, encodes, Option.bind_some] at wide
    exact iff_of_true (Encoding.write_int wide number) fun _ never => by cases never
  all_goals
    obtain rfl := Prim.same_of_agrees agrees rfl
    cases encodes
  case h_5 named _ => simp [Encoding.write?, apply_ite]
  all_goals exact iff_of_true rfl fun _ never => by cases never

/-- A value stands for a literal or for the number of a configuration. -/
theorem literal_or_reference (literal : table.Literal) (means : value.form.Means table own meant) :
    (∃ written : ConfigValue, written.literal? = some (own, meant)) ∨
      ∃ name info, table.config? name = some info ∧ own = info.prim ∧
      meant = .int (Int32.ofNat info.id) := by
  generalize shape : value.form = form at means
  cases means with
  | constant found => exact .inl (literal.constant found)
  | reference found => exact .inr ⟨_, _, found, rfl, rfl⟩
  | _ => exact .inl ⟨value, by simp only [literal?, shape]⟩

/-- The encoding of a component takes a value of its type, if that is not a type with a code of more
than one byte. -/
theorem write_meant_iff (literal : table.Literal) (grouped : table.Grouped)
    (means : value.form.Means table own meant) (agrees : own.agrees prim = true)
    (encodes : prim.encoding? = some encoding) :
    (encoding.write? meant).isSome = true ↔ value.HasByteCode table := by
  rw [has_byte_code_iff means]
  rcases literal_or_reference literal means with ⟨written, reads⟩ | ⟨name, info, found, rfl, rfl⟩
  · exact write_literal_iff reads agrees encodes
  · have config := grouped.config found
    obtain rfl := Prim.same_of_agrees agrees (Prim.not_number_of_config config)
    exact iff_of_true (Encoding.write_int (Prim.width_of_config config encodes) _) fun _ never => by
      cases never

end ConfigValue

/-! ### Records of configurations -/

namespace Record

variable {table : SymbolTable} {binding : Binding} {config : Config} {bound : BoundProperty}
  {property : Property}

/-- What a property puts into a record can be written exactly if the types among its values have
codes of one byte. -/
theorem outcome_writable_iff (literal : table.Literal) (grouped : table.Grouped)
    (encodable : bound.Encodable) (emitted : PropertyOutcome table bound property outcome) :
    (∀ written, outcome = some written → ∀ entry ∈ written.values, Writable entry) ↔
      ∀ value ∈ property.values, value.HasByteCode table := by
  cases emitted with
  | @full values plain length typed meant =>
    simp only [Option.some.injEq, forall_eq']
    -- Values and entries stand at the same places, and each entry is what its value means.
    have each : ∀ (index : Nat) {value : ConfigValue} {entry : Prim × Value},
        property.values[index]? = some value → values[index]? = some entry →
          (Writable entry ↔ value.HasByteCode table) := by
      rintro index value ⟨prim, result⟩ there here
      obtain ⟨written, own, at_index, means, agrees, _⟩ := meant index here
      cases there.symm.trans at_index
      have listed : prim ∈ bound.components :=
        typed ▸ mem_map_of_mem (f := Prod.fst) (mem_of_getElem? here)
      obtain ⟨encoding, encodes⟩ := Option.isSome_iff_exists.mp (encodable prim listed)
      rw [← ConfigValue.write_meant_iff literal grouped means agrees encodes]
      simp [Writable, encodes]
    constructor
    · intro writable value member
      obtain ⟨index, there⟩ := mem_iff_getElem?.mp member
      have inside : index < values.length := length ▸ (List.getElem?_eq_some_iff.mp there).1
      have here := getElem?_eq_getElem inside
      exact (each index there here).mp (writable _ (mem_of_getElem? here))
    · intro small entry member
      obtain ⟨index, here⟩ := mem_iff_getElem?.mp member
      have inside : index < property.values.length := length ▸ (List.getElem?_eq_some_iff.mp here).1
      have there := getElem?_eq_getElem inside
      exact (each index there here).mpr (small _ (mem_of_getElem? there))
  | empty rule only means | dropped rule only means differs =>
    refine iff_of_true (by simp) ?_
    rw [only, forall_mem_singleton, ConfigValue.has_byte_code_iff means]
    exact fun _ never => by cases never

theorem generate_property_writable (literal : table.Literal) (grouped : table.Grouped)
    (suited : bound.Suited) (encodable : bound.Encodable)
    (found : Binding.property? binding.properties property.key.text = some bound)
    (accepted : config.Accepts table bound property) :
    ∃ outcome, generateProperty table binding property = .ok outcome ∧
      ((∀ written, outcome = some written → ∀ entry ∈ written.values, Writable entry) ↔
        ∀ value ∈ property.values, value.HasByteCode table) := by
  have apart : ∀ {name info}, table.config? name = some info → info.prim ≠ .boolean := by
    rintro name info known boolean
    have config := grouped.config known
    rw [boolean] at config
    cases config
  obtain ⟨outcome, generated, emitted⟩ := generate_accepted literal apart suited found accepted
  exact ⟨outcome, generated, outcome_writable_iff literal grouped encodable emitted⟩

theorem forall_mem_iff_of_forall₂ {α β : Type} {first : α → Prop} {second : β → Prop}
    {lefts : List α} {rights : List β}
    (alike : List.Forall₂ (fun left right => second right ↔ first left) lefts rights) :
    (∀ right ∈ rights, second right) ↔ ∀ left ∈ lefts, first left := by
  induction alike with
  | nil => simp
  | cons here _ ih => simp only [forall_mem_cons, here, ih]

/-- In a batch, a configuration without a fault has a record, which has bytes exactly if the types
among the values of the configuration have codes of one byte. -/
theorem encode_faultless_iff {settings : BindingSettings} {project : Settings} {compiler : Compiler}
    (made : Binding.ofSettings settings = .ok binding)
    (compiled : Compiler.ofSettings project = .ok compiler) (files : List SourceFile)
    (readable : config.Readable)
    (faultless : config.faults (compiler.symbolsOf files) binding = []) :
    ∃ record, generate (compiler.symbolsOf files) binding config = .ok record ∧
      ((∃ bytes, record.encode = .ok bytes) ↔
        ∀ property ∈ config.properties, ∀ value ∈ property.values,
        value.HasByteCode (compiler.symbolsOf files)) := by
  have batched := (Compiler.symbols_definite compiled files).toBatched
  generalize compiler.symbolsOf files = table at batched faultless ⊢
  have distinct := Binding.names_distinct_of_settings made
  have suited := Binding.suited_of_settings made
  have valid := (Config.faults_eq_nil_iff_valid distinct suited batched.literal
    (fun found => Prim.not_number_of_config (batched.grouped.config found)) readable).mp faultless
  have writable : ∀ property ∈ config.properties, ∃ outcome,
      generateProperty table binding property = .ok outcome ∧
        ((∀ written, outcome = some written → ∀ entry ∈ written.values, Writable entry) ↔
          ∀ value ∈ property.values, value.HasByteCode table) := by
    intro property listed
    obtain ⟨bound, found⟩ := Config.exists_bound (valid.known _ (mem_map_of_mem listed))
    obtain ⟨member, named⟩ := (Binding.find_property_iff _ distinct).mp found
    exact generate_property_writable batched.literal batched.grouped (suited bound member)
      ((Binding.usable_of_settings made).properties bound member) found
      (valid.accepted property listed bound member named)
  obtain ⟨outcomes, generated, alike⟩ := exists_mapM writable
  refine ⟨_, bind_eq_ok.mpr ⟨outcomes, generated, rfl⟩, ?_⟩
  rw [encode_ok_iff, ← forall_mem_iff_of_forall₂ alike]
  simp only [mem_filterMap, id_eq]
  constructor
  · rintro all outcome member written rfl
    exact all written ⟨_, member, rfl⟩
  · rintro all written ⟨outcome, member, here⟩
    exact all outcome member written here

/-- Of the types that a source may name, these have a longer code. -/
example :
    (Prim.all.filter fun prim => prim.isReferencable && 256 ≤ prim.code.toNat) =
      [.void, .param, .bas] := by
  decide

/-! ### Parameters -/

/-- The kind of configuration that describes parameters. -/
def params : Binding := ⟨.param, some "type", [
  ⟨"type", 1, [.type], true, false, [], none⟩,
  ⟨"default_int", 2, [.int], false, false, [], none⟩,
  ⟨"autodisable", 4, [.boolean], false, false, [⟨0, .emptyIfFalse⟩], none⟩,
  ⟨"default_str", 5, [.string], false, false, [], none⟩]⟩

theorem params_made : Binding.ofSettings .params = .ok params := rfl

/-- A batch with two constants. -/
def kinds : List SourceFile := [.ofPath ⟨"a.constant"⟩ (utf8 "^kind=obj\n^amount=-7\n")]

/-- A parameter whose type is a constant. -/
def limit : Config := ⟨⟨"limit", Span.empty⟩, [
  Config.written "type" [.constant ⟨"kind", Span.empty⟩],
  Config.written "default_int" [.constant ⟨"amount", Span.empty⟩],
  Config.written "autodisable" [.bool false], Config.written "default_str" [.text "none"]],
  Span.empty⟩

/-- The compiler of the default project reads the constants and accepts the parameter. -/
def acceptsLimit : Bool :=
  (Compiler.ofSettings .default).toOption.any fun compiler =>
    (compiler.symbolsOf kinds).constant? "kind" = some ⟨"kind", .type, .type .obj⟩ &&
      (compiler.symbolsOf kinds).constant? "amount" = some ⟨"amount", .int, .int (-7)⟩ &&
      limit.faults (compiler.symbolsOf kinds) params = []

theorem limit_encodes :
    ∃ compiler, Binding.ofSettings .params = .ok params ∧
      Compiler.ofSettings .default = .ok compiler ∧
      limit.Readable ∧ limit.faults (compiler.symbolsOf kinds) params = [] ∧
      ∃ record bytes, generate (compiler.symbolsOf kinds) params limit = .ok record ∧
      record.encode = .ok bytes := by
  have accepts : acceptsLimit = true := by decide +kernel
  rw [acceptsLimit] at accepts
  cases compiled : Compiler.ofSettings .default with
  | error => simp [compiled, Except.toOption] at accepts
  | ok compiler =>
    simp only [compiled, Except.toOption, Option.any_some, Bool.and_eq_true,
      decide_eq_true_eq] at accepts
    obtain ⟨⟨kind, amount⟩, faultless⟩ := accepts
    have readable : limit.Readable := by unfold Config.Readable; decide
    obtain ⟨record, generated, encodes⟩ :=
      encode_faultless_iff params_made compiled kinds readable faultless
    have small : ∀ property ∈ limit.properties, ∀ value ∈ property.values,
        value.HasByteCode (compiler.symbolsOf kinds) := by
      simp only [limit, Config.written, map_cons, map_nil, forall_mem_cons, not_mem_nil,
        IsEmpty.forall_iff, implies_true, and_true]
      refine ⟨?_, ?_, ?_, ?_⟩
      · refine (ConfigValue.has_byte_code_iff (.constant kind)).mpr fun named same => ?_
        cases same
        decide
      · exact (ConfigValue.has_byte_code_iff (.constant amount)).mpr fun _ never => by cases never
      · exact (ConfigValue.has_byte_code_iff (.bool false)).mpr fun _ never => by cases never
      · exact (ConfigValue.has_byte_code_iff (.text "none")).mpr fun _ never => by cases never
    obtain ⟨bytes, encoded⟩ := encodes.mpr small
    exact ⟨compiler, params_made, rfl, readable, faultless, record, bytes, generated, encoded⟩

/-- A parameter of a type whose code is no byte. -/
def stance : Config := ⟨⟨"stance", Span.empty⟩, [Config.written "type" [.type .bas]], Span.empty⟩

/-- Nothing is wrong with the parameter, whatever the batch, but it cannot be written. -/
theorem stance_without_bytes :
    (∃ compiler, Compiler.ofSettings .default = .ok compiler) ∧
      Binding.ofSettings .params = .ok params ∧
      stance.Readable ∧ ∀ (compiler : Compiler) (files : List SourceFile),
        stance.faults (compiler.symbolsOf files) params = [] ∧
        ∃ record, generate (compiler.symbolsOf files) params stance = .ok record ∧
          record.encode = .error ⟨.internal (.unencodable (.type .bas) .type "stance"),
            Span.empty⟩ := by
  have builds : (Compiler.ofSettings .default).toOption.isSome = true := by decide +kernel
  refine ⟨?_, params_made, ?_, fun _ _ => ⟨rfl, _, rfl, rfl⟩⟩
  · cases compiled : Compiler.ofSettings .default with
    | error => simp [compiled, Except.toOption] at builds
    | ok compiler => exact ⟨compiler, rfl⟩
  · unfold Config.Readable
    decide

end Record

end TriggerScript
