import TriggerScript.Proofs.Data.Checked
import TriggerScript.Proofs.Generation.Shape

/-!
Stages of an emission.

Emission only adds: items behind those that are there, tables behind those that are there, and
variables behind those that are registered. `Grows` says what was added between two stages, `Shows`
that a routine keeps the tables and variables added between them.
-/

namespace TriggerScript

open List

variable {index : Nat} {table : SwitchTable}

namespace Emission

/-- Pass over the numbers of so many labels. -/
def skip (emission : Emission) (count : Nat) : Emission :=
  { emission with nextLabel := emission.nextLabel + count }

theorem skip_skip (emission : Emission) (first second : Nat) :
    (emission.skip first).skip second = emission.skip (first + second) := by
  simp [skip, Nat.add_assoc]

@[simp] theorem skip_label (emission : Emission) (count : Nat) :
    (emission.skip count).nextLabel = emission.nextLabel + count := rfl

/-- Jump behind the code, unless the flow has ended. -/
def leave (emission : Emission) (target : Label) : Emission :=
  if emission.current.endsFlow then emission else emission.add (.core .branch (.label target))

def reserve (emission : Emission) : Emission :=
  { emission with tables := emission.tables ++ [SwitchTable.empty] }

def fill (emission : Emission) (index : Nat) (table : SwitchTable) : Emission :=
  { emission with tables := emission.tables.set index table }

@[simp] theorem fill_label (emission : Emission) (index : Nat) (table : SwitchTable) :
    (emission.fill index table).nextLabel = emission.nextLabel := rfl

@[simp] theorem bind_label (emission : Emission) (label : Label) :
    (emission.bind label).nextLabel = emission.nextLabel := rfl

end Emission

namespace Emit

variable {α β : Type} {emission final : Emission} {result : Unit}

theorem run_bind_eq_ok {first : Emit α} {next : α → Emit β} {result : β} :
    (first >>= next).run emission = .ok (result, final) ↔ ∃ value middle,
      first.run emission = .ok (value, middle) ∧
        (next value).run middle = .ok (result, final) := by
  rw [StateT.run_bind, bind_eq_ok]
  constructor
  · rintro ⟨⟨value, middle⟩, here, later⟩
    exact ⟨value, middle, here, later⟩
  · rintro ⟨value, middle, here, later⟩
    exact ⟨(value, middle), here, later⟩

theorem run_demand_eq_ok {span : Span} {result : α} :
    (demand value cause span).run emission = .ok (result, final) ↔ value = some result ∧
      final = emission := by
  cases value with
  | none =>
    have fails : (demand none cause span : Emit α).run emission = .error ⟨.internal cause, span⟩ :=
      rfl
    simp [fails]
  | some found =>
    have passes : (demand (some found) cause span).run emission = .ok (found, emission) := rfl
    simp [passes, @eq_comm _ emission]

theorem run_fail_ne_ok {span : Span} {result : α} :
    (fail cause span).run emission ≠ .ok (result, final) := by
  have fails : (fail cause span : Emit α).run emission = .error ⟨.internal cause, span⟩ := rfl
  simp [fails]

theorem run_fresh_label_eq_ok : (freshLabel name).run emission = .ok (label, final) ↔
      label = ⟨emission.nextLabel, name⟩ ∧ final = emission.skip 1 := by
  have runs : (freshLabel name).run emission = .ok (⟨emission.nextLabel, name⟩, emission.skip 1) :=
    rfl
  simp [runs, eq_comm]

theorem run_bind_label_eq_ok :
    (bindLabel label).run emission = .ok (result, final) ↔ final = emission.bind label := by
  have runs : (bindLabel label).run emission = .ok ((), emission.bind label) := rfl
  simp [runs, eq_comm]

theorem run_instruction_eq_ok :
    (instruction added).run emission = .ok (result, final) ↔ final = emission.add added := by
  have runs : (instruction added).run emission = .ok ((), emission.add added) := rfl
  simp [runs, eq_comm]

theorem run_core_eq_ok : (core opcode operand).run emission = .ok (result, final) ↔
      final = emission.add (.core opcode operand) := run_instruction_eq_ok

theorem run_jump_eq_ok : (jump opcode target).run emission = .ok (result, final) ↔
      final = emission.add (.core opcode (.label target)) := run_instruction_eq_ok

theorem run_push_value_eq_ok : (pushValue value).run emission = .ok (result, final) ↔
      final = emission.add value.instruction := by
  cases value <;> exact run_instruction_eq_ok

theorem run_jump_if_open_eq_ok : (jumpIfOpen target).run emission = .ok (result, final) ↔
      final = emission.leave target := by
  unfold Emission.leave
  cases ended : emission.current.endsFlow with
  | false =>
    have runs : (jumpIfOpen target).run emission =
      .ok ((), emission.add (.core .branch (.label target))) := by
      simp [jumpIfOpen, ended]
      rfl
    simp [runs, eq_comm]
  | true =>
    have runs : (jumpIfOpen target).run emission = .ok ((), emission) := by
      simp [jumpIfOpen, ended]
      rfl
    simp [runs, eq_comm]

theorem run_reserve_table_eq_ok : reserveTable.run emission = .ok (index, final) ↔
      index = emission.tables.length ∧ final = emission.reserve := by
  have runs : reserveTable.run emission = .ok (emission.tables.length, emission.reserve) := rfl
  simp [runs, eq_comm]

theorem run_set_table_eq_ok : (setTable index table).run emission = .ok (result, final) ↔
      final = emission.fill index table := by
  have runs : (setTable index table).run emission = .ok ((), emission.fill index table) := rfl
  simp [runs, eq_comm]

theorem run_pure_eq_ok {result : α} : (pure value : Emit α).run emission = .ok (result, final) ↔
      result = value ∧ final = emission := by
  have runs : (pure value : Emit α).run emission = .ok (value, emission) := rfl
  simp [runs, eq_comm]

end Emit

namespace Emission

variable {first second third before after : Emission} {code tail : List Item}
  {tables : List SwitchTable}
  {locals : LocalMap}

/-- The second stage has the code of the first and some more. -/
structure Grows (before : Emission) (code : List Item) (after : Emission) : Prop where
  items_eq : after.items = before.items ++ code
  label_le : before.nextLabel ≤ after.nextLabel
  length_le : before.tables.length ≤ after.tables.length
  table_eq : ∀ index < before.tables.length, after.tables[index]? = before.tables[index]?
  params_eq : after.locals.params = before.locals.params
  declared_sub : before.locals.declared ⊆ after.locals.declared
  tidy : Item.Tidy before.items → Item.Tidy after.items
  /-- The code names every table that was added. -/
  named : ∀ index, before.tables.length ≤ index → index < after.tables.length →
    .op (.core .switch (.switch index)) ∈ code

theorem Grows.refl (emission : Emission) : emission.Grows [] emission :=
  ⟨(append_nil _).symm, le_rfl, le_rfl, fun _ _ => rfl, rfl,
    Subset.refl _, id, fun _ new old => absurd old (Nat.not_lt.mpr new)⟩

theorem Grows.trans (left : first.Grows code second) (right : second.Grows tail third) :
    first.Grows (code ++ tail) third where
  items_eq := by rw [right.items_eq, left.items_eq, append_assoc]
  label_le := Nat.le_trans left.label_le right.label_le
  length_le := Nat.le_trans left.length_le right.length_le
  table_eq := by
    intro index old
    rw [right.table_eq index (Nat.lt_of_lt_of_le old left.length_le), left.table_eq index old]
  params_eq := right.params_eq.trans left.params_eq
  declared_sub := Subset.trans left.declared_sub right.declared_sub
  tidy := right.tidy ∘ left.tidy
  named := by
    intro index new old
    rcases Nat.lt_or_ge index second.tables.length with known | later
    · exact mem_append_left _ (left.named index new known)
    · exact mem_append_right _ (right.named index later old)

theorem grows_bind (emission : Emission) (label : Label) :
    emission.Grows [.mark label] (emission.bind label) := by
  refine ⟨items_bind emission label, le_rfl, le_rfl, fun _ _ => rfl, rfl,
    Subset.refl _, fun tidy => ?_, fun _ new old => absurd old (Nat.not_lt.mpr new)⟩
  rw [items_bind]
  exact Item.tidy_append_mark tidy label

theorem grows_append {emission : Emission} (goes_on : emission.current.endsFlow = false)
    (instruction : Instruction) :
    emission.Grows [.op instruction] (emission.append instruction) := by
  refine ⟨items_append emission instruction, le_rfl, le_rfl, fun _ _ => rfl, rfl,
    Subset.refl _, fun tidy => ?_, fun _ new old => absurd old (Nat.not_lt.mpr new)⟩
  rw [ends_flow_eq] at goes_on
  rw [items_append]
  exact Item.tidy_append_op tidy goes_on instruction

theorem grows_skip (emission : Emission) (count : Nat) : emission.Grows [] (emission.skip count) :=
  ⟨(append_nil _).symm, Nat.le_add_right _ _, le_rfl, fun _ _ => rfl, rfl,
    Subset.refl _, id, fun _ new old => absurd old (Nat.not_lt.mpr new)⟩

theorem add_of_open {emission : Emission} (open_end : emission.current.endsFlow = false)
    (instruction : Instruction) : emission.add instruction = emission.append instruction := by
  simp [add, open_end]

theorem ends_flow_bind (emission : Emission) (label : Label) :
    (emission.bind label).current.endsFlow = false := rfl

theorem ends_flow_append (emission : Emission) (instruction : Instruction) :
    (emission.append instruction).current.endsFlow = instruction.endsFlow := by
  simp [append, Block.endsFlow]

/-- Instructions were put behind the code. -/
def Lays (instructions : List Instruction) (before after : Emission) : Prop :=
  ∃ code, before.Grows code after ∧ Laid instructions before.nextLabel after.nextLabel code

theorem lays_add (emission : Emission) (instruction : Instruction) :
    Lays [instruction] emission (emission.add instruction) := by
  unfold add
  split
  · refine ⟨_, ?_, .apart .nil⟩
    have labelled :=
      (grows_skip emission 1).trans (grows_bind _ ⟨emission.nextLabel, "unreachable"⟩)
    exact labelled.trans (grows_append (ends_flow_bind _ _) instruction)
  · rename_i goes_on
    exact ⟨_, grows_append (by simpa using goes_on) instruction, .here .nil⟩

theorem mem_of_laid (laid : Laid instructions low high code) :
    .op instruction ∈ code ↔ instruction ∈ instructions := by
  induction laid with
  | nil => simp
  | here _ ih => simp [ih]
  | apart _ ih => simp [ih]

theorem laid_append {first second : List Instruction} (left : Laid first low mid code)
    (right : Laid second mid high tail) : Laid (first ++ second) low high (code ++ tail) := by
  induction left with
  | nil => exact right
  | here _ ih => exact .here (ih right)
  | apart _ ih => exact .apart (ih right)

theorem Lays.append {first second : List Instruction} (left : Lays first before middle)
    (right : Lays second middle after) : Lays (first ++ second) before after := by
  obtain ⟨code, grows, laid⟩ := left
  obtain ⟨tail, grows', laid'⟩ := right
  exact ⟨code ++ tail, grows.trans grows', laid_append laid laid'⟩

/-- The tables and variables are those that were added between two stages. -/
structure Shows (before after : Emission) (tables : List SwitchTable) (locals : LocalMap) :
    Prop where
  table_eq : ∀ index, before.tables.length ≤ index → index < after.tables.length →
    tables[index]? = after.tables[index]?
  declared_sub : after.locals.declared ⊆ locals.declared

theorem Shows.left (shows_all : first.Shows third tables locals) (grows : second.Grows code third) :
    first.Shows second tables locals where
  table_eq := by
    intro index new old
    rw [shows_all.table_eq index new (Nat.lt_of_lt_of_le old grows.length_le),
      grows.table_eq index old]
  declared_sub := Subset.trans grows.declared_sub shows_all.declared_sub

theorem Shows.right (shows_all : first.Shows third tables locals)
    (grows : first.Grows code second) :
    second.Shows third tables locals where
  table_eq index new old :=
    shows_all.table_eq index (Nat.le_trans grows.length_le new) old
  declared_sub := shows_all.declared_sub

theorem Shows.between (shows_all : first.Shows fourth tables locals)
    (earlier : first.Grows code second) (later : third.Grows tail fourth) :
    second.Shows third tables locals := (shows_all.left later).right earlier

theorem ends_flow_of_grows (grows : (before.bind label).Grows code after) :
    after.current.endsFlow = Item.endsFlow code := by
  rw [ends_flow_eq, grows.items_eq, items_bind]
  by_cases empty : code = []
  · rw [empty, append_nil, Item.ends_flow_append_mark]
    rfl
  · exact Item.ends_flow_append _ empty

theorem grows_leave (grows : (before.bind label).Grows code after) (target : Label) :
    after.Grows (leaving target code) (after.leave target) := by
  unfold leaving leave
  rw [ends_flow_of_grows grows]
  split
  · exact .refl after
  · rename_i goes_on
    have still : after.current.endsFlow = false := by
      simpa [ends_flow_of_grows grows] using goes_on
    rw [add_of_open still]
    exact grows_append still _

@[simp] theorem leave_label (emission : Emission) (target : Label) :
    (emission.leave target).nextLabel = emission.nextLabel := by
  unfold leave
  split
  · rfl
  · rename_i goes_on
    rw [add_of_open (by simpa using goes_on)]
    rfl

def register (emission : Emission) (stack : Stack) (target : Local) : Emission :=
  { emission with locals := emission.locals.addVariable stack target }

theorem mem_register (emission : Emission) (stack : Stack) (target : Local) :
    (stack, target) ∈ (emission.register stack target).locals.declared := by
  unfold register LocalMap.addVariable
  dsimp only
  split
  · rename_i known
    simpa using known
  · simp

theorem grows_register (emission : Emission) (stack : Stack) (target : Local) :
    emission.Grows [] (emission.register stack target) := by
  refine ⟨(append_nil _).symm, le_rfl, le_rfl, fun _ _ => rfl, ?_, ?_, id,
    fun _ new old => absurd old (Nat.not_lt.mpr new)⟩
  · unfold register LocalMap.addVariable
    dsimp only
    split <;> rfl
  · unfold register LocalMap.addVariable
    dsimp only
    split
    · exact Subset.refl _
    · exact subset_append_left _ _

theorem Grows.reserve (grows : before.reserve.Grows code after)
    (names : .op (.core .switch (.switch before.tables.length)) ∈ code) :
    before.Grows code after := by
  have longer : before.reserve.tables.length = before.tables.length + 1 := by
    simp [Emission.reserve]
  refine ⟨grows.items_eq, grows.label_le, ?_, fun index old => ?_, grows.params_eq,
    grows.declared_sub, grows.tidy, fun index new old => ?_⟩
  · exact Nat.le_trans (by omega) grows.length_le
  · rw [grows.table_eq index (by omega)]
    exact getElem?_append_left old
  · rcases Nat.eq_or_lt_of_le new with rfl | later
    · exact names
    · exact grows.named index (by omega) old

theorem Grows.fill (grows : before.Grows code after) (new : before.tables.length ≤ index)
    (table : SwitchTable) : before.Grows code (after.fill index table) where
  items_eq := grows.items_eq
  label_le := grows.label_le
  length_le := by simpa [Emission.fill] using grows.length_le
  table_eq := by
    intro other old
    rw [Emission.fill, List.getElem?_set_ne (by omega)]
    exact grows.table_eq other old
  params_eq := grows.params_eq
  declared_sub := grows.declared_sub
  tidy := grows.tidy
  named index new old := grows.named index new (by simpa [Emission.fill] using old)

variable (shows_all : first.Shows (third.fill index table) tables locals)

include shows_all

theorem Shows.before_fill (grows : second.Grows code third) (old : second.tables.length ≤ index) :
    first.Shows second tables locals :=
  shows_all.left (grows.fill old table)

theorem Shows.behind_fill (grows : first.Grows code second) (new : index < second.tables.length) :
    second.Shows third tables locals where
  table_eq := by
    intro other later known
    have held := shows_all.table_eq other (Nat.le_trans grows.length_le later)
      (by simpa [Emission.fill] using known)
    rw [held, Emission.fill, List.getElem?_set_ne (by omega)]
  declared_sub := shows_all.declared_sub

theorem Shows.filled (new : first.tables.length ≤ index) (known : index < third.tables.length) :
    tables[index]? = some table := by
  rw [shows_all.table_eq index new (by simpa [Emission.fill] using known), Emission.fill,
    getElem?_set_self known]

end Emission

end TriggerScript
