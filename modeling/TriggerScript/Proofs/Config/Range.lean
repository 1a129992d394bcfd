import TriggerScript.Proofs.Config.Encoding
import TriggerScript.Proofs.Compiler.Bindings

/-!
Ranges of written integers.

Checking compares narrow types as `int`, and an integer is cut to the width of its encoding, so
nothing but rules keeps it in range. Where the rules of a binding do so for its narrow components,
and configurations are few enough for the encoding of their type, every integer that is written can
be told from its bytes.
-/

namespace TriggerScript

/-- The rules for each component that counts as `int` let no integer through but those in the range
of its encoding. -/
def Binding.Guarded (binding : Binding) : Prop :=
  ∀ bound ∈ binding.properties, ∀ (index : Nat) (prim : Prim) (width : Nat),
    bound.components[index]? = some prim → prim.agrees .int = true → prim.width? = some width →
      ∀ number : Int32, (∀ entry ∈ bound.rules, entry.component = index →
        entry.rule.Admits (.int number)) → FitsWord width number.toInt

/-- Configurations that are written in two bytes have numbers that two bytes can count. -/
def SymbolTable.NumbersFit (table : SymbolTable) : Prop :=
  ∀ {name info}, table.config? name = some info → info.prim.encoding? = some .short →
    info.id < 2 ^ 16

/-- Every integer is in the range of four bytes. -/
theorem fits_four_bytes (number : Int32) : FitsWord 4 number.toInt := by
  have least := number.le_toInt
  have below := number.toInt_lt
  constructor <;> norm_num at * <;> omega

theorem fits_two_bytes (small : number < 2 ^ 16) : FitsWord 2 (Int32.ofNat number).toInt := by
  rw [Int32.toInt_ofNat_of_lt (by omega)]
  constructor <;> omega

variable {table : SymbolTable} {binding : Binding} {config : Config} {bound : BoundProperty}
  {property : Property}

/-! ### Where the values of a record come from -/

theorem RecordProperty.mem_emitted {values : List (Prim × Value)} {property : RecordProperty}
    (written : emitted bound values = some property) :
    ∀ entry ∈ property.values, entry ∈ values := by
  unfold emitted at written
  split at written
  · split at written
    · cases written
      exact List.forall_mem_nil _
    · cases written
  · cases written
    exact fun _ member => member

namespace Record

theorem entry_of_property (generated : generateProperty table binding property = .ok (some written))
    (member : entry ∈ written.values) :
    ∃ bound, Binding.property? binding.properties property.key.text = some bound ∧
      ∃ (index : Nat) (value : ConfigValue), property.values[index]? = some value ∧
        bound.components[index]? = some entry.1 ∧ value.resolve table = .ok entry.2 := by
  unfold generateProperty at generated
  split at generated
  · cases generated
  case h_2 bound found =>
    obtain ⟨values, resolved, emitted⟩ := bind_eq_ok.mp generated
    have listed := RecordProperty.mem_emitted (Except.ok.inj emitted) entry member
    obtain ⟨pair, zipped, computed⟩ := exists_of_mem_mapM resolved listed
    obtain ⟨read, same⟩ := resolve_component_eq.mp computed
    obtain ⟨index, at_index⟩ := List.mem_iff_getElem?.mp zipped
    obtain ⟨there, asked⟩ := List.getElem?_zip_eq_some.mp at_index
    exact ⟨bound, found, index, pair.1, there, same ▸ asked, read⟩

/-- Every value of a record is what a value of the configuration resolves to, under the binding of
its key. -/
theorem entry_of_generate (generated : generate table binding config = .ok record)
    (member : written ∈ record.properties) (inside : entry ∈ written.values) :
    ∃ property ∈ config.properties, ∃ bound,
      Binding.property? binding.properties property.key.text = some bound ∧
        ∃ (index : Nat) (value : ConfigValue), property.values[index]? = some value ∧
          bound.components[index]? = some entry.1 ∧ value.resolve table = .ok entry.2 := by
  obtain ⟨outcomes, emitted, made⟩ := bind_eq_ok.mp generated
  cases made
  obtain ⟨outcome, listed, rfl⟩ := List.mem_filterMap.mp member
  obtain ⟨property, there, here⟩ := exists_of_mem_mapM emitted listed
  exact ⟨property, there, entry_of_property here inside⟩

/-- The bytes of each value stand together in those of the record. -/
theorem value_bytes_infix {record : Record} (encoded : record.encode = .ok bytes)
    (member : written ∈ record.properties) (inside : entry ∈ written.values) :
    ∃ spelled, valueBytes record.name entry = .ok spelled ∧ spelled <:+: bytes := by
  obtain ⟨properties, each, joined⟩ := bind_eq_ok.mp encoded
  cases joined
  obtain ⟨whole, listed, spells⟩ := mem_mapM each member
  obtain ⟨values, parts, put⟩ := bind_eq_ok.mp spells
  cases put
  obtain ⟨spelled, there, here⟩ := mem_mapM parts inside
  refine ⟨spelled, here, ?_⟩
  calc spelled <:+: values.flatten := List.infix_of_mem_flatten there
    _ <:+: written.opcode :: values.flatten := (List.suffix_cons _ _).isInfix
    _ <:+: properties.flatten := List.infix_of_mem_flatten listed
    _ <:+: properties.flatten ++ [0] := (List.prefix_append _ _).isInfix

end Record

/-! ### What checking makes sure of -/

theorem Config.value_faultless (distinct : binding.names.Nodup)
    (faultless : config.faults table binding = []) (listed : property ∈ config.properties)
    (found : Binding.property? binding.properties property.key.text = some bound)
    {value : ConfigValue} (there : property.values[index]? = some value)
    (asked : bound.components[index]? = some prim) :
    value.faults table prim (bound.rulesFor index) = [] := by
  obtain ⟨clean, _⟩ := List.append_eq_nil_iff.mp faultless
  obtain ⟨other, again, unfaulted⟩ := ((faults_from_eq_nil_iff distinct).mp clean).1 property listed
  cases found.symm.trans again
  unfold propertyFaults at unfaulted
  split at unfaulted
  · exact value_faults_eq_nil_iff.mp (List.append_eq_nil_iff.mp unfaulted).1 there asked
  · cases unfaulted

namespace ConfigValue

variable {value : ConfigValue} {own prim : Prim}

theorem agrees_of_valid (typed : value.typeOf table = (some prim, []))
    (valid : value.faults table expected rules = []) : prim.agrees expected = true := by
  rw [ConfigValue.faults, typed] at valid
  dsimp only at valid
  split at valid
  · assumption
  · cases valid

theorem means_of_resolve (resolved : value.resolve table = .ok meant) :
    ∃ own, value.form.Means table own meant := by
  obtain ⟨form, span⟩ := value
  cases form with
  | constant name =>
    cases found : table.constant? name.text with
    | none => simp [resolve, found] at resolved
    | some info =>
      simp only [resolve, found, Except.ok.injEq] at resolved
      subst resolved
      exact ⟨_, .constant found⟩
  | reference name =>
    cases found : table.config? name.text with
    | none => simp [resolve, found] at resolved
    | some info =>
      simp only [resolve, found, Except.ok.injEq] at resolved
      subst resolved
      exact ⟨_, .reference found⟩
  | error => cases resolved
  | _ =>
    cases resolved
    exact ⟨_, by constructor⟩

theorem kept_of_faultless (means : value.form.Means table own meant)
    (faultless : value.faults table prim rules = []) :
    ∀ rule ∈ rules, value.ruleFault table rule = [] := by
  rw [faults, type_of_means means] at faultless
  dsimp only at faultless
  split at faultless
  · exact List.flatMap_eq_nil_iff.mp faultless
  · cases faultless

/-- A component that counts as `int` gets a number of which its rules hold. -/
theorem admits_of_faultless (batched : table.Batched) (means : value.form.Means table own meant)
    (number : own.agrees .int = true)
    (faultless : value.faults table prim (bound.rulesFor index) = []) :
    ∃ number, meant = .int number ∧
      ∀ entry ∈ bound.rules, entry.component = index → entry.rule.Admits (.int number) := by
  obtain ⟨number, rfl, denotes⟩ := number_of_means batched.literal
    (fun found => Prim.not_number_of_config (batched.grouped.config found)) means number
  refine ⟨number, rfl, fun entry member here => ?_⟩
  have kept :=
    kept_of_faultless means faultless entry.rule
      (Config.mem_rules_for.mpr ⟨entry, member, here, rfl⟩)
  exact (rule_fault_eq_nil_iff fun _ => ⟨number, rfl, denotes⟩).mp kept

theorem fits_literal (literal : value.literal? = some (own, meant))
    (other : own.agrees .int = false) (wide : own.width? = some width)
    (integer : meant.asInt? = some number) : FitsWord width number.toInt := by
  unfold literal? at literal
  split at literal <;> cases literal
  case h_2 => cases other
  case h_6 =>
    cases wide
    exact fits_four_bytes number
  all_goals cases wide

theorem fits_reference (grouped : table.Grouped) (few : table.NumbersFit)
    (found : table.config? name = some info) (wide : info.prim.width? = some width) :
    FitsWord width (Int32.ofNat info.id).toInt := by
  obtain ⟨encoding, encodes, wide⟩ := Prim.encoding_of_width wide
  have config := grouped.config found
  have either : encoding = .short ∨ encoding = .int := by
    revert config encodes
    cases info.prim <;> cases encoding <;> decide
  rcases either with rfl | rfl <;> cases wide
  · exact fits_two_bytes (few found encodes)
  · exact fits_four_bytes _

/-- A value without a fault is in the range of its component, if the rules see to it. -/
theorem fits_of_faultless (batched : table.Batched) (guarded : binding.Guarded)
    (few : table.NumbersFit) (listed : bound ∈ binding.properties)
    (asked : bound.components[index]? = some prim) (wide : prim.width? = some width)
    (means : value.form.Means table own meant)
    (faultless : value.faults table prim (bound.rulesFor index) = [])
    (integer : meant.asInt? = some number) : FitsWord width number.toInt := by
  have agrees := agrees_of_valid (type_of_means means) faultless
  cases counts : own.agrees .int with
  | true =>
    obtain ⟨found, rfl, admits⟩ := admits_of_faultless batched means counts faultless
    cases integer
    have component : prim.agrees .int = true := by
      simp only [Prim.agrees, decide_eq_true_eq] at agrees counts ⊢
      exact agrees.symm.trans counts
    exact guarded bound listed index prim width asked component wide number admits
  | false =>
    -- Else the component has the very type of the value: that of a literal, or of a configuration.
    obtain rfl := Prim.same_of_agrees agrees counts
    rcases literal_or_reference batched.literal means with ⟨written, reads⟩ | ⟨name, info, found,
      rfl, rfl⟩
    · exact fits_literal reads counts wide integer
    · cases integer
      exact fits_reference batched.grouped few found wide

end ConfigValue

/-! ### Integers in records -/

namespace Record

theorem fits_of_generate {record : Record} (made : Binding.ofSettings settings = .ok binding)
    (batched : table.Batched) (guarded : binding.Guarded) (few : table.NumbersFit)
    (faultless : config.faults table binding = [])
    (generated : generate table binding config = .ok record) {written : RecordProperty}
    (member : written ∈ record.properties) (inside : entry ∈ written.values) {number : Int32}
    (wide : entry.1.width? = some width) (integer : entry.2.asInt? = some number) :
    FitsWord width number.toInt := by
  have distinct := Binding.names_distinct_of_settings made
  obtain ⟨property, listed, bound, found, index, value, there, asked, resolved⟩ :=
    entry_of_generate generated member inside
  obtain ⟨own, means⟩ := ConfigValue.means_of_resolve resolved
  have clean := Config.value_faultless distinct faultless listed found there asked
  have known := ((Binding.find_property_iff _ distinct).mp found).1
  exact ConfigValue.fits_of_faultless batched guarded few known asked wide means clean integer

/-- The bytes of an integer denote it modulo what they can count, and so they tell it exactly if it
is in their range. It is, if rules guard the binding and configurations are few. -/
theorem integer_bytes {record : Record} {bytes : List Byte} {settings : BindingSettings}
    (made : Binding.ofSettings settings = .ok binding)
    (faultless : config.faults table binding = [])
    (generated : generate table binding config = .ok record) (encoded : record.encode = .ok bytes) :
    ∀ written ∈ record.properties, ∀ entry ∈ written.values, ∀ (width : Nat) (number : Int32),
      entry.1.width? = some width → entry.2.asInt? = some number →
        (∃ spelled, valueBytes record.name entry = .ok spelled ∧ spelled <:+: bytes ∧
          spelled.length = width ∧ (ofBigEndian spelled : Int) = number.toInt % 256 ^ width ∧
          (FitsWord width number.toInt ↔
            number.toInt = ofBigEndian spelled ∨ number.toInt = Int.bmod (ofBigEndian spelled)
              (256 ^ width))) ∧
        (table.Batched → binding.Guarded → table.NumbersFit → FitsWord width number.toInt) := by
  intro written member entry inside width number wide integer
  refine ⟨?_, fun batched guarded few =>
    fits_of_generate made batched guarded few faultless generated member inside wide integer⟩
  obtain ⟨spelled, spells, among⟩ := value_bytes_infix encoded member inside
  obtain ⟨encoding, encodes, written_as⟩ := value_bytes_eq_ok.mp spells
  obtain ⟨other, encodes', wide⟩ := Prim.encoding_of_width wide
  cases encodes.symm.trans encodes'
  rw [Encoding.write_number wide, integer] at written_as
  cases written_as
  exact ⟨_, spells, among, Encoding.length_narrow _ _, Encoding.of_big_endian_narrow wide number,
    Encoding.fits_iff_denoted wide number⟩

/-! ### Parcels -/

/-- Parcels have a weight, and are swapped against numbers of coins. -/
def parcelSettings : BindingSettings := ⟨"obj", none, [
  ⟨"weight", 1, ["byte"], true, false, [⟨0, .range (-128) 255⟩], none, none⟩,
  ⟨"swap", 2, ["obj", "short"], false, false, [⟨1, .positive⟩, ⟨1, .range 0 500⟩], none, none⟩]⟩

def parcels : Binding :=
  ⟨.obj, none, [ ⟨"weight", 1, [.byte], true, false, [⟨0, .range (-128) 255⟩], none⟩,
  ⟨"swap", 2, [.obj, .short], false, false, [⟨1, .positive⟩, ⟨1, .range 0 500⟩], none⟩]⟩

theorem parcels_made : Binding.ofSettings parcelSettings = .ok parcels := rfl

theorem parcels_guarded : parcels.Guarded := by
  intro bound member index prim width asked counts wide number admits
  simp only [parcels, List.mem_cons, List.not_mem_nil, or_false] at member
  rcases member with rfl | rfl
  · match index with
    | 0 =>
      cases asked
      cases wide
      obtain ⟨least, greatest⟩ := admits _ (List.mem_singleton_self _) rfl
      exact ⟨Int32.le_iff_toInt_le.mp least, Int32.le_iff_toInt_le.mp greatest⟩
  · match index with
    | 0 =>
      cases asked
      cases counts
    | 1 =>
      cases asked
      cases wide
      obtain ⟨least, greatest⟩ := admits ⟨1, .range 0 500⟩ (by simp) rfl
      have nonnegative : 0 ≤ number.toInt := Int32.le_iff_toInt_le.mp least
      have below : number.toInt ≤ 500 := Int32.le_iff_toInt_le.mp greatest
      constructor <;> norm_num <;> omega

theorem stall_batched : Config.stall.Batched :=
  ⟨List.forall_mem_singleton.mpr (List.forall_mem_singleton.mpr ⟨⟨.int 40, Span.empty⟩, rfl⟩),
    List.forall_mem_singleton.mpr (List.forall_mem_singleton.mpr rfl)⟩

theorem stall_numbers : Config.stall.NumbersFit := by
  intro name info found _
  obtain ⟨layer, member, inside⟩ := List.exists_of_findSome?_eq_some found
  obtain rfl := List.mem_singleton.mp member
  obtain rfl := List.mem_singleton.mp (List.mem_of_find?_eq_some inside)
  decide

/-- A parcel that weighs what is the price, and is swapped against 300 coins. -/
def parcel : Config :=
  ⟨⟨"parcel", Span.empty⟩, [Config.written "weight" [.constant ⟨"price", Span.empty⟩],
    Config.written "swap" [.reference ⟨"coin", Span.empty⟩, .int 300]], Span.empty⟩

theorem parcel_written :
    Binding.ofSettings parcelSettings = .ok parcels ∧ Config.stall.Batched ∧ parcels.Guarded ∧
      Config.stall.NumbersFit ∧ parcel.faults Config.stall parcels = [] ∧
      ∃ record bytes, generate Config.stall parcels parcel = .ok record ∧
      record.encode = .ok bytes ∧
        bytes = [1, 40, 2, 0, 0, 1, 44, 0] ∧
        ∀ written ∈ record.properties, ∀ entry ∈ written.values, ∀ (width : Nat) (number : Int32),
          entry.1.width? = some width → entry.2.asInt? = some number →
          FitsWord width number.toInt := by
  have faultless : parcel.faults Config.stall parcels = [] := by decide
  refine ⟨parcels_made, stall_batched, parcels_guarded, stall_numbers, faultless, _, _, rfl, rfl,
    rfl, ?_⟩
  intro written member entry inside width number wide integer
  exact (integer_bytes parcels_made faultless rfl rfl written member entry inside width number wide
    integer).2
    stall_batched parcels_guarded stall_numbers

/-- Crates have a size of one byte, with no rule for it. -/
def crateSettings : BindingSettings :=
  ⟨"obj", none, [⟨"size", 1, ["byte"], false, false, [], none, none⟩]⟩

def crates : Binding := ⟨.obj, none, [⟨"size", 1, [.byte], false, false, [], none⟩]⟩

def crate : Config := ⟨⟨"crate", Span.empty⟩, [Config.written "size" [.int 300]], Span.empty⟩

/-- Nothing is wrong with the crate, and its size is written as another number. -/
theorem crate_cut : Binding.ofSettings crateSettings = .ok crates ∧ SymbolTable.empty.Batched ∧
      SymbolTable.empty.NumbersFit ∧ crate.faults .empty crates = [] ∧
      generate .empty crates crate = .ok ⟨.obj, "crate", [⟨1, [(.byte, .int 300)]⟩]⟩ ∧
      encode ⟨.obj, "crate", [⟨1, [(.byte, .int 300)]⟩]⟩ = .ok [1, 44, 0] ∧ ¬ FitsWord 1 300 :=
  ⟨rfl, SymbolTable.Definite.empty.toBatched, nofun, by decide, rfl, rfl, by decide⟩

end Record

end TriggerScript
