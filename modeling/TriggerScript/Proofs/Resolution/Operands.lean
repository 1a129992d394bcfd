import TriggerScript.Bytecode.Resolve
import TriggerScript.Proofs.Data.Checked
import TriggerScript.Proofs.Execution.Basic

/-!
What operands resolve to.

A label resolves to the distance from the instruction behind the jump to the first instruction of
the block it marks. The instructions that name a table are numbered in their order, and the table of
each holds for every key the distance from that instruction to the block of the key's case.
-/

namespace TriggerScript

open List Instruction

variable {entries : List (Int32 × Int32)} {address : Nat}

/-! ### Tables -/

namespace JumpTable

variable {collected : Collected}

/-- The keys in hand are those that have a distance. -/
def Collected.Consistent (collected : Collected) : Prop :=
  ∀ key, collected.distances.contains key = true ↔ key ∈ collected.keys

theorem Collected.put_of_new (consistent : collected.Consistent) {entry : Int32 × Int32}
    (fresh : entry.1 ∉ collected.keys) :
    (collected.put entry).keys = entry.1 :: collected.keys ∧ (collected.put entry).Consistent := by
  have absent : collected.distances.contains entry.1 = false := by
    cases known : collected.distances.contains entry.1 with
    | false => rfl
    | true => exact absurd ((consistent entry.1).mp known) fresh
  have keys : (collected.put entry).keys = entry.1 :: collected.keys := by simp [put, absent]
  refine ⟨keys, fun key => ?_⟩
  rw [keys, mem_cons, ← consistent key]
  simp only [put, Std.HashMap.contains_insert, Bool.or_eq_true, beq_iff_eq]
  rw [@eq_comm _ entry.1]

/-- Collecting entries with new keys puts the keys in front, and leaves other keys alone. -/
theorem Collected.foldl_put (consistent : collected.Consistent)
    (distinct : (entries.map Prod.fst).Nodup)
    (fresh : ∀ entry ∈ entries, entry.1 ∉ collected.keys) :
    (entries.foldl put collected).keys = (entries.map Prod.fst).reverse ++ collected.keys ∧
      (∀ entry ∈ entries, (entries.foldl put collected).distances.getD entry.1 0 = entry.2) ∧
      ∀ key, key ∉ entries.map Prod.fst →
        (entries.foldl put collected).distances.getD key 0 = collected.distances.getD key 0 := by
  induction entries generalizing collected with
  | nil => simp
  | cons entry rest ih =>
    simp only [map_cons, nodup_cons] at distinct
    obtain ⟨keys, consistent'⟩ := put_of_new consistent (fresh entry (.head rest))
    have later : ∀ other ∈ rest, other.1 ∉ (collected.put entry).keys := by
      intro other member
      rw [keys, mem_cons, not_or]
      refine ⟨fun same => distinct.1 ?_, fresh other (.tail entry member)⟩
      exact same ▸ mem_map_of_mem member
    obtain ⟨collects, holds, leaves⟩ := ih consistent' distinct.2 later
    refine ⟨?_, ?_, ?_⟩
    · simp [collects, keys]
    · intro other member
      rcases mem_cons.mp member with rfl | member
      · rw [foldl_cons, leaves _ distinct.1]
        simp [put]
      · exact holds other member
    · intro key other
      simp only [map_cons, mem_cons, not_or] at other
      rw [foldl_cons, leaves key other.2]
      simp [put, Std.HashMap.getD_insert, Ne.symm other.1]

theorem of_entries_eq (distinct : (entries.map Prod.fst).Nodup) : ofEntries entries = entries := by
  have start : Collected.Consistent ⟨[], ∅⟩ := by simp [Collected.Consistent]
  obtain ⟨keys, holds, _⟩ := Collected.foldl_put start distinct (by simp)
  unfold ofEntries
  simp only [keys, append_nil, reverse_reverse, map_map]
  conv_rhs => rw [← map_id entries]
  apply map_congr_left
  intro entry member
  exact Prod.ext rfl (holds entry member)

end JumpTable

/-- No key stands in the table twice. -/
def SwitchTable.KeysDistinct (table : SwitchTable) : Prop :=
  (table.cases.flatMap SwitchCase.keys).Nodup

/-! ### Addresses -/

namespace Routine

variable {routine : Routine} {label : Label} {source : Nat}

/-- So many instructions stand before the block with a label. -/
def LabelAt (routine : Routine) (label : Label) (address : Nat) : Prop :=
  ∃ before block after, routine.blocks = before ++ block :: after ∧ block.label.id = label.id ∧
    (before.flatMap Block.instructions).length = address

/-- The label of a block leads to it, with the instructions of the blocks before it left out. -/
theorem enter_of_label_at (distinct : routine.LabelsDistinct)
    (marked : routine.LabelAt label address) :
    ∃ place, routine.enter? label = some place ∧ ∃ front,
      routine.instructions = front ++ place.code ∧ front.length = address := by
  obtain ⟨before, block, after, blocks, same, counted⟩ := marked
  refine ⟨⟨block.instructions, after⟩, ?_, before.flatMap Block.instructions, ?_, counted⟩
  · unfold LabelsDistinct at distinct
    rw [blocks] at distinct
    rw [enter?, blocks, ← same]
    exact Block.seek_of_distinct distinct
  · rw [instructions, blocks, flatMap_append, flatMap_cons, Position.code]

/-- A label marks one block only. -/
theorem label_at_unique (distinct : routine.LabelsDistinct) (left : routine.LabelAt label first)
    (right : routine.LabelAt label second) : first = second := by
  obtain ⟨place, entered, front, split, rfl⟩ := enter_of_label_at distinct left
  obtain ⟨other, entered', front', split', rfl⟩ := enter_of_label_at distinct right
  obtain rfl := Option.some.inj (entered.symm.trans entered')
  rw [append_cancel_right (split.symm.trans split')]

theorem mem_addresses_from {blocks : List Block} {id : Nat}
    (member : (id, address) ∈ addressesFrom start blocks) :
    ∃ before block after, blocks = before ++ block :: after ∧ block.label.id = id ∧
      start + (before.flatMap Block.instructions).length = address := by
  induction blocks generalizing start with
  | nil => simp [addressesFrom] at member
  | cons block rest ih =>
    rw [addressesFrom, mem_cons] at member
    rcases member with here | later
    · obtain ⟨rfl, rfl⟩ := Prod.mk.inj here
      exact ⟨[], block, rest, rfl, rfl, rfl⟩
    · obtain ⟨before, other, after, rfl, same, counted⟩ := ih later
      refine ⟨block :: before, other, after, rfl, same, ?_⟩
      rw [flatMap_cons, length_append, ← counted]
      omega

theorem label_at_of_address (found : routine.address? label = some address) :
    routine.LabelAt label address := by
  obtain ⟨first, last, split, _⟩ := lookup_eq_some_iff.mp found
  have member : (label.id, address) ∈ addressesFrom 0 routine.blocks := by
    rw [← mem_reverse, split]
    simp
  obtain ⟨before, block, after, blocks, same, counted⟩ := mem_addresses_from member
  exact ⟨before, block, after, blocks, same, by omega⟩

/-- The distance that leads from an instruction to the block with a label. -/
def Leads (routine : Routine) (source : Nat) (label : Label) (offset : Int32) : Prop :=
  ∃ target, routine.LabelAt label target ∧ (source : Int) + 1 + offset.toInt = target

theorem leads_of_jump (jumped : routine.jump source label = .ok offset) :
    routine.Leads source label offset := by
  unfold jump at jumped
  split at jumped
  · cases jumped
  · rename_i target found
    refine ⟨target, label_at_of_address found, ?_⟩
    simp only [distance, Bool.and_eq_true, decide_eq_true_eq] at jumped
    split at jumped
    · rename_i fits
      obtain rfl := Except.ok.inj jumped
      rw [Int32.toInt_ofInt_of_le fits.1 (Int.lt_of_le_of_lt fits.2 (by decide))]
      omega
    · cases jumped

/-- Only one distance leads to a label. -/
theorem leads_unique (distinct : routine.LabelsDistinct) (left : routine.Leads source label first)
    (right : routine.Leads source label second) : first = second := by
  obtain ⟨target, marked, leads⟩ := left
  obtain ⟨target', marked', leads'⟩ := right
  obtain rfl := label_at_unique distinct marked marked'
  exact Int32.toInt_inj.mp (by omega)

theorem case_entries_eq {entry : SwitchCase}
    (resolved : routine.caseEntries source entry = .ok entries) :
    ∃ offset, routine.Leads source entry.label offset ∧ entries = entry.keys.map fun key =>
      (key, offset) := by
  obtain ⟨offset, jumped, filled⟩ := bind_eq_ok.mp resolved
  obtain rfl := Except.ok.inj filled
  exact ⟨offset, leads_of_jump jumped, rfl⟩

/-- The entries of all cases: their keys in order, each with the distance to its case. -/
theorem entries_of_cases (distinct : routine.LabelsDistinct) {entries : List (List (Int32 × Int32))}
    (resolved : Forall₂ (fun entry found => routine.caseEntries source entry = .ok found)
      cases entries) :
    entries.flatten.map Prod.fst = cases.flatMap SwitchCase.keys ∧
      (∀ entry ∈ cases, ∃ offset, routine.Leads source entry.label offset) ∧
      ∀ key offset, (key, offset) ∈ entries.flatten ↔
        ∃ entry ∈ cases, key ∈ entry.keys ∧ routine.Leads source entry.label offset := by
  induction resolved with
  | nil => simp
  | @cons entry found cases entries here _ ih =>
    obtain ⟨offset, leads, rfl⟩ := case_entries_eq here
    obtain ⟨keys, reached, members⟩ := ih
    refine ⟨?_, forall_mem_cons.mpr ⟨⟨offset, leads⟩, reached⟩, fun key other => ?_⟩
    · rw [flatten_cons, map_append, keys, flatMap_cons, map_map]
      simp [Function.comp_def]
    · have this_case : (key, other) ∈ entry.keys.map (fun key => (key, offset)) ↔
          key ∈ entry.keys ∧ routine.Leads source entry.label other := by
        rw [mem_map]
        constructor
        · rintro ⟨_, member, same⟩
          cases same
          exact ⟨member, leads⟩
        · rintro ⟨member, leads'⟩
          exact ⟨key, member, by rw [leads_unique distinct leads leads']⟩
      rw [flatten_cons, mem_append, members, this_case]
      simp

theorem jump_table_entries (distinct : routine.LabelsDistinct) {table : SwitchTable}
    (keys : table.KeysDistinct) (resolved : routine.jumpTable source table = .ok jumps) :
    jumps.map Prod.fst = table.cases.flatMap SwitchCase.keys ∧
      (∀ entry ∈ table.cases, ∃ offset, routine.Leads source entry.label offset) ∧ ∀ key offset,
      (key, offset) ∈ jumps ↔
        ∃ entry ∈ table.cases, key ∈ entry.keys ∧ routine.Leads source entry.label offset := by
  obtain ⟨entries, found, filled⟩ := bind_eq_ok.mp resolved
  have cases := entries_of_cases distinct (forall₂_of_mapM found)
  obtain rfl := Except.ok.inj filled
  rw [JumpTable.of_entries_eq (cases.1 ▸ keys)]
  exact cases

end Routine

/-! ### Instructions -/

variable (routine : Routine) (address named : Nat) in
/-- What an operand at an address denotes, with so many tables named before it. -/
inductive Operand.Denotes : Operand → ResolvedOperand → Prop where
  | int {value : Int32} : Denotes (.int value) (.int value)
  | long {value : Int64} : Denotes (.long value) (.long value)
  | text : Denotes (.text value) (.text value)
  | bool {value : Bool} : Denotes (.bool value) (.int (Value.ofBool value))
  | script {id : Int32} : Denotes (.script trigger name id) (.int id)
  | label {target : Label} {offset : Int32} (leads : routine.Leads address target offset) :
      Denotes (.label target) (.int offset)
  | localVar {entry : Local} {slot : Nat} {word : Int32}
      (found : routine.locals.slot? entry = some slot) (same : word.toInt = slot) :
      Denotes (.localVar entry) (.int word)
  | switch {table : Nat} {number : Int32} (same : number.toInt = named) :
      Denotes (.switch table) (.int number)

namespace Routine

variable {routine : Routine} {numbering : Numbering} {place : Addressed} {operand : ResolvedOperand}

theorem resolve_instruction_cases
    (resolved : routine.resolveInstruction numbering place = .ok result) :
    routine.resolveOperand place = .ok (result.1.operand, result.2) ∧
      result.1.code = operationCode numbering place.instruction.operation ∧
      result.1.large = place.instruction.operation.isLarge := by
  obtain ⟨⟨operand, table⟩, found, filled⟩ := bind_eq_ok.mp resolved
  obtain rfl := Except.ok.inj filled
  exact ⟨found, rfl, rfl⟩

theorem counted_eq (fits : counted value quantity = .ok word) : word.toInt = value := by
  unfold counted at fits
  split at fits
  · rename_i small
    obtain rfl := Except.ok.inj fits
    exact Int32.toInt_ofNat_of_lt (by simp [Int32.maxValue] at small; omega)
  · cases fits

theorem resolve_operand_switch (names : place.instruction.operand = .switch index)
    (resolved : routine.resolveOperand place = .ok (operand, brought)) :
    ∃ table jumps ordinal, routine.tables[index]? = some table ∧ brought = some jumps ∧
      routine.jumpTable place.address table = .ok jumps ∧ operand = .int ordinal ∧
      ordinal.toInt = place.ordinal := by
  unfold resolveOperand at resolved
  simp only [names] at resolved
  split at resolved
  · cases resolved
  · rename_i table found
    obtain ⟨jumps, tabled, later⟩ := bind_eq_ok.mp resolved
    obtain ⟨ordinal, numbered, filled⟩ := bind_eq_ok.mp later
    obtain ⟨rfl, rfl⟩ := Prod.mk.inj (Except.ok.inj filled)
    exact ⟨table, jumps, ordinal, found, rfl, tabled, rfl, counted_eq numbered⟩

/-- Operands resolve to what they denote, and exactly those that name a table bring one along. -/
theorem resolve_operand_denotes (resolved : routine.resolveOperand place = .ok (operand, table)) :
    place.instruction.operand.Denotes routine place.address place.ordinal operand ∧
      table.isSome = place.instruction.namesTable := by
  unfold namesTable
  cases names : place.instruction.operand with
  | switch index =>
    obtain ⟨_, _, number, _, rfl, _, rfl, numbered⟩ := resolve_operand_switch names resolved
    exact ⟨.switch numbered, rfl⟩
  | label label =>
    simp only [resolveOperand, names] at resolved
    obtain ⟨offset, jumped, filled⟩ := bind_eq_ok.mp resolved
    cases filled
    exact ⟨.label (leads_of_jump jumped), rfl⟩
  | localVar entry =>
    simp only [resolveOperand, names] at resolved
    split at resolved
    · cases resolved
    · rename_i slot found
      obtain ⟨word, fits, filled⟩ := bind_eq_ok.mp resolved
      cases filled
      exact ⟨.localVar found (counted_eq fits), rfl⟩
  | int _ | long _ | text _ | bool _ | script _ _ _ =>
    simp only [resolveOperand, names] at resolved
    cases resolved
    exact ⟨by constructor, rfl⟩

/-- Every instruction is resolved at its address, with the number of tables named before it. If it
brings a table along, that table has this number. -/
theorem resolved_at {instructions : List Instruction}
    (resolved : Forall₂ (fun place result => routine.resolveInstruction numbering place =
      .ok result) (addressed address ordinal instructions) results)
    (found : instructions[index]? = some instruction) :
    ∃ result, results[index]? = some result ∧ routine.resolveInstruction numbering ⟨address + index,
        ordinal + (instructions.take index).countP namesTable, instruction⟩ = .ok result ∧
      ∀ table, result.2 = some table → (results.filterMap Prod.snd)[
        (instructions.take index).countP namesTable]? = some table := by
  induction instructions generalizing address ordinal results index with
  | nil => simp at found
  | cons first rest ih =>
    rw [addressed] at resolved
    cases resolved with
    | @cons _ result _ results here later =>
      cases index with
      | zero =>
        obtain rfl := Option.some.inj found
        refine ⟨result, rfl, by simpa using here, fun table brought => ?_⟩
        simp [brought]
      | succ index =>
        rw [getElem?_cons_succ] at found
        obtain ⟨other, listed, resolves, tables⟩ := ih later found
        have brings := (resolve_operand_denotes (resolve_instruction_cases here).1).2
        dsimp only at brings
        refine ⟨other, listed, ?_, fun table brought => ?_⟩
        · rw [← resolves, take_succ_cons, countP_cons]
          congr 2
          · omega
          · split <;> omega
        · have numbered := tables table brought
          rw [take_succ_cons, countP_cons, ← brings]
          cases kept : result.2 with
          | none => simpa [kept] using numbered
          | some first => simpa [kept] using numbered

theorem length_addressed (address ordinal : Nat) (instructions : List Instruction) :
    (addressed address ordinal instructions).length = instructions.length := by
  induction instructions generalizing address ordinal with
  | nil => rfl
  | cons instruction rest ih => rw [addressed, length_cons, ih, length_cons]

theorem resolve_cases (resolved : routine.resolve numbering = .ok bytecode) :
    ∃ results, Forall₂
        (fun place result => routine.resolveInstruction numbering place = .ok result)
        (addressed 0 0 routine.instructions) results ∧
        bytecode.instructions = results.map Prod.fst ∧
      bytecode.tables = results.filterMap Prod.snd := by
  obtain ⟨results, found, filled⟩ := bind_eq_ok.mp resolved
  obtain rfl := Except.ok.inj filled
  exact ⟨results, forall₂_of_mapM found, rfl, rfl⟩

end Routine

end TriggerScript
