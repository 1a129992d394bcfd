import TriggerScript.Config.Record
import TriggerScript.Config.Validity
import TriggerScript.Proofs.Config.Bindings

/-!
The meaning of property values.

A value that is written stands for a value of a type, or for nothing if it names what a table does
not have. The check of a value and its place in a record read it in two ways; both read its meaning.
That is so in tables whose constants stand for literals and whose configurations are no numbers.
-/

namespace TriggerScript

open List

variable (table : SymbolTable) in
/-- The type and the value that a written value stands for. -/
inductive ValueForm.Means : ValueForm → Prim → Value → Prop where
  | text (value : String) : Means (.text value) .string (.text value)
  | int (value : Int32) : Means (.int value) .int (.int value)
  | long (value : Int64) : Means (.long value) .long (.long value)
  | bool (value : Bool) : Means (.bool value) .boolean (.bool value)
  | type (prim : Prim) : Means (.type prim) .type (.type prim)
  | coordgrid (value : Int32) : Means (.coordgrid value) .coordgrid (.int value)
  | constant {name : Ident} {info : ConstantInfo} (found : table.constant? name.text = some info) :
      Means (.constant name) info.prim info.value
  | reference {name : Ident} (found : table.config? name.text = some info) :
      Means (.reference name) info.prim (.int (Int32.ofNat info.id))

/-- The rule holds of a value. A property may be written empty whatever its value is. -/
def Rule.Admits : Rule → Value → Prop
  | .range least greatest, .int number => least ≤ number ∧ number ≤ greatest
  | .positive, .int number => 1 ≤ number
  | .range _ _, _ | .positive, _ => False
  | .emptyIfTrue, _ | .emptyIfFalse, _ => True

/-! ### Tables -/

namespace SymbolTable

/-- Tables that are built by definitions, with constants from what is written only. -/
inductive Built : SymbolTable → Prop where
  | empty : Built empty
  | enter (built : Built table) : Built table.enter
  | leave {table outer : SymbolTable} (built : Built table) (left : table.leave? = some outer) :
      Built outer
  | constants (built : Built table) (constants : List Constant) :
      Built (Constant.defineAll table constants).1
  | command {table next : SymbolTable} {info : CommandInfo} (built : Built table)
      (defined : table.defineCommand info = some next) : Built next
  | global {table next : SymbolTable} {info : GlobalInfo} (built : Built table)
      (defined : table.defineGlobal info = some next) : Built next
  | script {table next : SymbolTable} {trigger name : String} {params : List Prim} {returns : Ty}
      {id : Nat}
      (built : Built table)
      (defined : table.defineScript trigger name params returns = some (id, next)) : Built next
  | config {table next : SymbolTable} {name : String} {prim : Prim} {content : Option Prim}
      {id : Nat}
      (built : Built table) (defined : table.defineConfig name prim content = some (id, next)) :
      Built next
  | undefine (built : Built table) (trigger name : String) :
      Built (table.undefineScript trigger name).2
  | content (built : Built table) (name : String) (prim : Prim) : Built (table.setContent name prim)

/-- Every constant stands for a literal. -/
def Literal (table : SymbolTable) : Prop :=
  ∀ layer ∈ table.layers, ∀ info ∈ layer.constants,
    ∃ value : ConfigValue, value.literal? = some (info.prim, info.value)

variable {table next : SymbolTable}

/-- Only the constants of the innermost layer matter to a definition. -/
theorem literal_of_constants (literal : table.Literal) (outer : next.outer = table.outer)
    (same : next.top.constants = table.top.constants) : next.Literal := by
  intro layer member
  rw [layers, mem_cons, outer] at member
  rcases member with rfl | behind
  · rw [same]
    exact literal table.top mem_cons_self
  · exact literal layer (mem_cons_of_mem _ behind)

theorem literal_define_constant {constant : Constant} (literal : table.Literal) :
    (constant.define table).1.Literal := by
  unfold Constant.define
  split
  · split <;> exact literal
  case h_2 prim value reads =>
    unfold defineConstant
    split
    case h_1 added defined =>
      split at defined
      · cases defined
      · cases defined
        refine forall_mem_cons.mpr ⟨?_, (forall_mem_cons.mp literal).2⟩
        exact forall_mem_append.mpr ⟨(forall_mem_cons.mp literal).1,
          forall_mem_singleton.mpr ⟨constant.value, reads⟩⟩
    · exact literal

theorem literal_define_constants (literal : table.Literal) :
    (Constant.defineAll table constants).1.Literal := by
  induction constants generalizing table with
  | nil => exact literal
  | cons constant rest ih => exact ih (literal_define_constant literal)

theorem Built.literal (built : table.Built) : table.Literal := by
  induction built with
  | empty => exact forall_mem_singleton.mpr (forall_mem_nil _)
  | enter _ literal => exact forall_mem_cons.mpr ⟨forall_mem_nil _, literal⟩
  | leave _ left literal =>
    unfold leave? at left
    split at left
    · cases left
    case h_2 top outer behind =>
      cases left
      have kept := (forall_mem_cons.mp literal).2
      rwa [behind] at kept
  | constants _ _ literal => exact literal_define_constants literal
  | command _ defined literal | global _ defined literal | script _ defined literal
  | config _ defined literal =>
    simp only [defineCommand, defineGlobal, defineScript, defineConfig] at defined
    split at defined <;> cases defined
    exact literal_of_constants literal rfl rfl
  | undefine _ _ _ literal | content _ _ _ literal => exact literal_of_constants literal rfl rfl

theorem Literal.constant {name : String} {info : ConstantInfo} (literal : table.Literal)
    (found : table.constant? name = some info) :
    ∃ value : ConfigValue, value.literal? = some (info.prim, info.value) := by
  obtain ⟨layer, member, inside⟩ := exists_of_findSome?_eq_some found
  exact literal layer member info (mem_of_find?_eq_some inside)

end SymbolTable

/-! ### Values -/

namespace ConfigValue

variable {table : SymbolTable} {value : ConfigValue}

/-- A literal that counts as `int` is a number. -/
theorem number_of_literal (literal : value.literal? = some (prim, meant))
    (number : prim.agrees .int = true) : ∃ number, meant = .int number := by
  unfold literal? at literal
  split at literal <;> cases literal
  case h_2 value _ => exact ⟨value, rfl⟩
  all_goals cases number

theorem truth_of_literal (literal : value.literal? = some (.boolean, meant)) :
    ∃ truth, meant = .bool truth := by
  unfold literal? at literal
  split at literal <;> cases literal
  exact ⟨_, rfl⟩

section

variable (means : value.form.Means table prim meant)

include means

theorem resolve_of_means : value.resolve table = .ok meant := by
  obtain ⟨form, span⟩ := value
  cases means with
  | constant found | reference found => simp only [resolve, found]
  | _ => rfl

theorem type_of_means : value.typeOf table = (some prim, []) := by
  obtain ⟨form, span⟩ := value
  cases means with
  | constant found | reference found => simp only [typeOf, found]
  | _ => rfl

theorem means_unique (again : value.form.Means table other value') :
    other = prim ∧ value' = meant := by
  have typed := (type_of_means again).symm.trans (type_of_means means)
  have resolved := (resolve_of_means again).symm.trans (resolve_of_means means)
  exact ⟨Option.some.inj (Prod.mk.inj typed).1, Except.ok.inj resolved⟩

end

/-- A value that means nothing is faulty, unless it could not be read at all. -/
theorem type_of_meaningless (meaningless : ∀ prim meant, ¬ value.form.Means table prim meant)
    (readable : value.form ≠ .error) : ∃ fault, value.typeOf table = (none, [fault]) := by
  obtain ⟨form, span⟩ := value
  cases form with
  | constant name =>
    cases found : table.constant? name.text with
    | none =>
      simp only [typeOf, found]
      exact ⟨_, rfl⟩
    | some info => exact (meaningless _ _ (.constant found)).elim
  | reference name =>
    cases found : table.config? name.text with
    | none =>
      simp only [typeOf, found]
      exact ⟨_, rfl⟩
    | some info => exact (meaningless _ _ (.reference found)).elim
  | error => exact absurd rfl readable
  | _ => exact (meaningless _ _ (by constructor)).elim

/-- A value that counts as `int` is a number, and the check of its rules sees that number. -/
theorem number_of_means (literal : table.Literal)
    (apart : ∀ {name info}, table.config? name = some info → info.prim.agrees .int = false)
    (means : value.form.Means table prim meant) (number : prim.agrees .int = true) :
    ∃ number, meant = .int number ∧ value.number? table = some number := by
  obtain ⟨form, span⟩ := value
  cases means with
  | int value => exact ⟨value, rfl, rfl⟩
  | @constant name info found =>
    obtain ⟨written, reads⟩ := literal.constant found
    obtain ⟨number, equal⟩ := number_of_literal reads number
    exact ⟨number, equal, by simp [number?, found, equal, Value.asInt?]⟩
  | reference found => simp [apart found] at number
  | _ => cases number

/-- A value of type `boolean` is a truth value. -/
theorem truth_of_means (literal : table.Literal)
    (apart : ∀ {name info}, table.config? name = some info → info.prim ≠ .boolean)
    (means : value.form.Means table .boolean meant) : ∃ truth, meant = .bool truth := by
  obtain ⟨form, span⟩ := value
  generalize kind : Prim.boolean = prim at means
  cases means with
  | bool value => exact ⟨value, rfl⟩
  | constant found =>
    obtain ⟨written, reads⟩ := literal.constant found
    rw [← kind] at reads
    exact truth_of_literal reads
  | reference found => exact absurd kind.symm (apart found)
  | _ => cases kind

theorem rule_fault_eq_nil_iff {rule : Rule} (seen : rule.isNumeric = true →
      ∃ number, meant = .int number ∧ value.number? table = some number) :
    value.ruleFault table rule = [] ↔ rule.Admits meant := by
  cases rule with
  | range least greatest | positive =>
    obtain ⟨number, rfl, denotes⟩ := seen rfl
    simp [ruleFault, denotes, Rule.Admits, Int32.not_lt]
  | emptyIfTrue | emptyIfFalse => exact iff_of_true rfl trivial

/-- A value is without a fault exactly if it stands for a value of the expected type of which the
rules hold. -/
theorem faults_eq_nil_iff {expected : Prim} (literal : table.Literal)
    (apart : ∀ {name info}, table.config? name = some info → info.prim.agrees .int = false)
    (readable : value.form ≠ .error)
    (suited : ∀ rule ∈ rules, rule.isNumeric = true → expected.agrees .int = true) :
    value.faults table expected rules = [] ↔
      ∃ prim meant, value.form.Means table prim meant ∧ prim.agrees expected = true ∧
        ∀ rule ∈ rules, rule.Admits meant := by
  by_cases meaningless : ∀ prim meant, ¬ value.form.Means table prim meant
  · obtain ⟨fault, unknown⟩ := type_of_meaningless meaningless readable
    simp [faults, unknown, meaningless]
  simp only [not_forall, not_not] at meaningless
  obtain ⟨prim, meant, means⟩ := meaningless
  have only : (∃ prim meant, value.form.Means table prim meant ∧ prim.agrees expected = true ∧
      ∀ rule ∈ rules, rule.Admits meant) ↔ prim.agrees expected = true ∧ ∀ rule ∈ rules,
      rule.Admits meant := by
    constructor
    · rintro ⟨other, value', again, fits⟩
      obtain ⟨rfl, rfl⟩ := means_unique means again
      exact fits
    · exact fun fits => ⟨prim, meant, means, fits⟩
  rw [only]
  simp only [faults, type_of_means means, nil_append]
  by_cases agrees : prim.agrees expected = true
  · have admits : ∀ rule ∈ rules, value.ruleFault table rule = [] ↔ rule.Admits meant := by
      intro rule member
      refine rule_fault_eq_nil_iff fun numeric => number_of_means literal apart means ?_
      have number := suited rule member numeric
      simp only [Prim.agrees, decide_eq_true_eq] at agrees number ⊢
      exact agrees.trans number
    simp only [agrees, if_true, true_and, flatMap_eq_nil_iff]
    exact forall₂_congr admits
  · simp [agrees]

end ConfigValue

end TriggerScript
