import TriggerScript.Proofs.Resolution.Operands

/-!
Bytecode goes where the routine goes.

Control in bytecode is an address. A place in a routine has the address of the instruction that
comes next, which may stand in a later block if the blocks between are empty. Along every sequence
of choices the routine and the bytecode stay at the same address.
-/

namespace TriggerScript

open List

variable {address : Nat} {offset : Int32} {place : Position}

namespace Position

/-- The instruction that comes next, and the place behind it. Control falls through empty blocks. -/
def fetch : Position → Option (Instruction × Position)
  | ⟨instruction :: ahead, behind⟩ => some (instruction, ⟨ahead, behind⟩)
  | ⟨[], behind⟩ => fetchFrom behind
where
  /-- The first instruction of the blocks. -/
  fetchFrom : List Block → Option (Instruction × Position)
    | [] => none
    | ⟨_, instruction :: ahead⟩ :: rest => some (instruction, ⟨ahead, rest⟩)
    | ⟨_, []⟩ :: rest => fetchFrom rest

theorem code_of_fetch_from (blocks : List Block) :
    blocks.flatMap Block.instructions = match fetch.fetchFrom blocks with
      | some (instruction, next) => instruction :: next.code
      | none => [] := by
  fun_induction fetch.fetchFrom blocks with
  | case1 => rfl
  | case2 label instruction ahead rest => rfl
  | case3 label rest ih => simpa using ih

theorem code_eq (position : Position) : position.code = match position.fetch with
      | some (instruction, next) => instruction :: next.code
      | none => [] := by
  obtain ⟨ahead, behind⟩ := position
  cases ahead with
  | nil => exact code_of_fetch_from behind
  | cons instruction ahead => rfl

end Position

/-- Where a sequence of choices leads, one for each instruction on the way. -/
def Routine.travel (routine : Routine) : Position → List Choice → Option Position
  | place, [] => some place
  | place, choice :: rest => do
    let (instruction, next) ← place.fetch
    let place ← routine.follow instruction next choice
    travel routine place rest

/-- The address of the instruction that comes next. -/
def Routine.addressOf (routine : Routine) (place : Position) : Nat :=
  routine.instructions.length - place.code.length

namespace Bytecode

/-- The address at a distance from the instruction behind this one. -/
def hop (address : Nat) (offset : Int32) : Option Nat :=
  let target := (address : Int) + 1 + offset.toInt
  if 0 ≤ target then some target.toNat else none

/-- Where control goes from an address. A table is named by the operand. -/
def follow (bytecode : Bytecode) (address : Nat) (choice : Choice) : Option Nat := do
  let instruction ← bytecode.instructions[address]?
  match choice, instruction.operand with
  | .onward, _ => some (address + 1)
  | .jump, .int offset => hop address offset
  | .select key, .int number =>
    let table ← bytecode.tables[number.toInt.toNat]?
    match table.lookup key with
    | some offset => hop address offset
    | none => some (address + 1)
  | _, _ => none

/-- Where a sequence of choices leads, one for each instruction on the way. -/
def travel (bytecode : Bytecode) : Nat → List Choice → Option Nat
  | address, [] => some address
  | address, choice :: rest => do
    let address ← bytecode.follow address choice
    travel bytecode address rest

theorem hop_eq {target : Nat} (lands : (address : Int) + 1 + offset.toInt = target) :
    hop address offset = some target := by
  simp [hop, lands]

variable {bytecode : Bytecode} {address : Nat} {instruction : ResolvedInstruction}

variable (listed : bytecode.instructions[address]? = some instruction)

include listed

theorem follow_onward : bytecode.follow address .onward = some (address + 1) := by
  simp only [follow, listed, bind, Option.bind]

theorem follow_jump (operand : instruction.operand = .int offset) :
    bytecode.follow address .jump = hop address offset := by
  simp only [follow, listed, operand, bind, Option.bind]

theorem follow_select (operand : instruction.operand = .int number)
    (tabled : bytecode.tables[number.toInt.toNat]? = some table) (key : Int32) :
    bytecode.follow address (.select key) = match table.lookup key with
      | some offset => hop address offset
      | none => some (address + 1) := by
  simp only [follow, listed, operand, tabled, bind, Option.bind]

end Bytecode

theorem JumpTable.lookup_of_mem {jumps : JumpTable} (distinct : (jumps.map Prod.fst).Nodup)
    (member : (key, offset) ∈ jumps) : jumps.lookup key = some offset := by
  obtain ⟨before, after, rfl⟩ := append_of_mem member
  rw [lookup_eq_some_iff]
  refine ⟨before, after, rfl, fun entry earlier => ?_⟩
  simp only [map_append, map_cons, nodup_append, mem_map, mem_cons] at distinct
  have other := distinct.2.2 entry.1 ⟨entry, earlier, rfl⟩ key (.inl rfl)
  simpa using other.symm

namespace Routine

variable {routine : Routine} {numbering : Numbering} {bytecode : Bytecode}
  {instruction : Instruction}

/-- How often a table is named before an address. -/
def tablesBefore (routine : Routine) (address : Nat) : Nat :=
  (routine.instructions.take address).countP Instruction.namesTable

/-- What stands at an address of the bytecode: the instruction with the operation there, and a table
for one that names a table. -/
theorem instruction_at (resolved : routine.resolve numbering = .ok bytecode)
    (found : routine.instructions[address]? = some instruction) :
    ∃ result, bytecode.instructions[address]? = some result ∧
      result.code = operationCode numbering instruction.operation ∧
      result.large = instruction.operation.isLarge ∧
      ∃ brought, routine.resolveOperand ⟨address, routine.tablesBefore address, instruction⟩ =
          .ok (result.operand, brought) ∧
        ∀ table, brought = some table → bytecode.tables[routine.tablesBefore address]? =
        some table := by
  obtain ⟨results, places, instructions, tables⟩ := resolve_cases resolved
  obtain ⟨result, listed, resolves, brings⟩ := resolved_at places found
  simp only [Nat.zero_add] at resolves
  obtain ⟨operand, code, large⟩ := resolve_instruction_cases resolves
  refine ⟨result.1, ?_, code, large, result.2, operand, ?_⟩
  · rw [instructions, getElem?_map, listed, Option.map_some]
  · rw [tables]
    exact brings

/-- The table of an instruction that names one, under the number of such instructions before it. -/
theorem table_at (resolved : routine.resolve numbering = .ok bytecode)
    (found : routine.instructions[address]? = some instruction)
    (names : instruction.operand = .switch index) :
    ∃ result number table jumps, bytecode.instructions[address]? = some result ∧
      result.operand = .int number ∧
      number.toInt = routine.tablesBefore address ∧ routine.tables[index]? = some table ∧
      bytecode.tables[routine.tablesBefore address]? = some jumps ∧
      routine.jumpTable address table = .ok jumps := by
  obtain ⟨result, listed, _, _, brought, operand, brings⟩ := instruction_at resolved found
  obtain ⟨table, jumps, number, tabled, rfl, jumped, same, numbered⟩ :=
    resolve_operand_switch names operand
  exact ⟨result, number, table, jumps, listed, same, numbered, tabled, brings jumps rfl, jumped⟩

/-! ### Places and addresses -/

/-- The place is in the code of the routine. -/
def Holds (routine : Routine) (place : Position) : Prop := place.code <:+ routine.instructions

theorem address_of_eq (split : routine.instructions = front ++ place.code) :
    routine.addressOf place = front.length := by
  rw [addressOf, split, length_append, Nat.add_sub_cancel]

theorem fetch_at {next : Position} (inside : routine.Holds place)
    (fetched : place.fetch = some (instruction, next)) :
    routine.instructions[routine.addressOf place]? = some instruction ∧ routine.Holds next ∧
      routine.addressOf next = routine.addressOf place + 1 := by
  obtain ⟨front, split⟩ := inside
  have code := place.code_eq
  rw [fetched] at code
  have behind : routine.instructions = (front ++ [instruction]) ++ next.code := by
    rw [← split, code, append_assoc, singleton_append]
  rw [address_of_eq split.symm, address_of_eq behind]
  refine ⟨?_, ⟨_, behind.symm⟩, by simp⟩
  rw [← split, code]
  simp

variable (distinct : routine.LabelsDistinct)

include distinct

theorem hop_to_label (leads : routine.Leads source label offset)
    (entered : routine.enter? label = some place) :
    Bytecode.hop source offset = some (routine.addressOf place) ∧ routine.Holds place := by
  obtain ⟨target, marked, lands⟩ := leads
  obtain ⟨other, found, front, split, rfl⟩ := enter_of_label_at distinct marked
  obtain rfl := Option.some.inj (found.symm.trans entered)
  refine ⟨?_, front, split.symm⟩
  rw [address_of_eq split]
  exact Bytecode.hop_eq lands

theorem lookup_case {table : SwitchTable} (keys : table.KeysDistinct)
    (resolved : routine.jumpTable source table = .ok jumps) (key : Int32) :
    match table.case? key with
    | some entry => ∃ offset, jumps.lookup key = some offset ∧
        routine.Leads source entry.label offset
    | none => jumps.lookup key = none := by
  obtain ⟨listed, reached, members⟩ := jump_table_entries distinct keys resolved
  have unique : (jumps.map Prod.fst).Nodup := listed ▸ keys
  cases found : table.case? key with
  | some entry =>
    have case := mem_of_find?_eq_some found
    have holds : key ∈ entry.keys := by simpa using find?_some found
    obtain ⟨offset, leads⟩ := reached entry case
    have member := (members key offset).mpr ⟨entry, case, holds, leads⟩
    exact ⟨offset, JumpTable.lookup_of_mem unique member, leads⟩
  | none =>
    rw [SwitchTable.case?, find?_eq_none] at found
    cases looked : jumps.lookup key with
    | none => rfl
    | some offset =>
      obtain ⟨before, after, rfl, _⟩ := lookup_eq_some_iff.mp looked
      obtain ⟨entry, case, holds, _⟩ := (members key offset).mp (by simp)
      exact absurd holds (by simpa using found entry case)

/-- One step: the bytecode goes from the address of a place to the address of the place that the
routine goes to. -/
theorem follow_at (keys : ∀ table ∈ routine.tables, table.KeysDistinct)
    (resolved : routine.resolve numbering = .ok bytecode) {next : Position}
    (inside : routine.Holds place) (fetched : place.fetch = some (instruction, next))
    (followed : routine.follow instruction next choice = some target) :
    bytecode.follow (routine.addressOf place) choice = some (routine.addressOf target) ∧
      routine.Holds target := by
  obtain ⟨found, holds, next_address⟩ := fetch_at inside fetched
  cases choice with
  | onward =>
    obtain rfl := Option.some.inj followed
    obtain ⟨result, listed, _⟩ := instruction_at resolved found
    exact ⟨by rw [Bytecode.follow_onward listed, next_address], holds⟩
  | jump =>
    obtain ⟨label, names, entered⟩ := Option.bind_eq_some_iff.mp followed
    have operand : instruction.operand = .label label := by
      unfold Instruction.target? at names
      split at names
      · cases names
        assumption
      · cases names
    obtain ⟨result, listed, _, _, brought, resolves, _⟩ := instruction_at resolved found
    have denotes := (resolve_operand_denotes resolves).1
    dsimp only at denotes
    rw [operand] at denotes
    generalize same : result.operand = target_operand at denotes
    cases denotes with
    | label leads =>
      obtain ⟨hops, inside⟩ := hop_to_label distinct leads entered
      exact ⟨by rw [Bytecode.follow_jump listed same, hops], inside⟩
  | select key =>
    simp only [follow] at followed
    split at followed
    · rename_i index names
      obtain ⟨result, number, table, jumps, listed, same, numbered, tabled, tables, jumped⟩ :=
        table_at resolved found names
      rw [tabled, Option.bind_some] at followed
      have looked := lookup_case distinct (keys table (mem_of_getElem? tabled)) jumped key
      have brought : bytecode.tables[number.toInt.toNat]? = some jumps := by
        rw [numbered, Int.toNat_natCast, tables]
      split at followed
      · rename_i entry matched
        rw [matched] at looked
        obtain ⟨offset, finds, leads⟩ := looked
        obtain ⟨hops, inside⟩ := hop_to_label distinct leads followed
        refine ⟨?_, inside⟩
        rw [Bytecode.follow_select listed same brought, finds]
        exact hops
      · rename_i unmatched
        rw [unmatched] at looked
        obtain rfl := Option.some.inj followed
        refine ⟨?_, holds⟩
        rw [Bytecode.follow_select listed same brought, looked, next_address]
    · cases followed

/-- All steps: the bytecode travels the addresses of the places that the routine travels. -/
theorem travel_at (keys : ∀ table ∈ routine.tables, table.KeysDistinct)
    (resolved : routine.resolve numbering = .ok bytecode) (choices : List Choice)
    (inside : routine.Holds start) (travels : routine.travel start choices = some target) :
    bytecode.travel (routine.addressOf start) choices = some (routine.addressOf target) ∧
      routine.Holds target := by
  induction choices generalizing start with
  | nil =>
    obtain rfl := Option.some.inj travels
    exact ⟨rfl, inside⟩
  | cons choice rest ih =>
    obtain ⟨⟨instruction, next⟩, fetched, later⟩ := Option.bind_eq_some_iff.mp travels
    obtain ⟨place, followed, onward⟩ := Option.bind_eq_some_iff.mp later
    obtain ⟨step, holds⟩ := follow_at distinct keys resolved inside fetched followed
    rw [Bytecode.travel, step]
    exact ih holds onward

end Routine

/-- The bytecode is the code of the routine with addresses for labels. -/
structure Bytecode.Mirrors (bytecode : Bytecode) (routine : Routine) (numbering : Numbering) :
    Prop where
  /-- There is nothing but the instructions of the blocks. -/
  length_eq : bytecode.instructions.length = (routine.blocks.flatMap Block.instructions).length
  /-- At each address stands the instruction of the blocks, with what its operand denotes. -/
  instruction_eq : ∀ (address : Nat) (instruction : Instruction),
    (routine.blocks.flatMap Block.instructions)[address]? = some instruction →
    ∃ result : ResolvedInstruction, bytecode.instructions[address]? = some result ∧
      result.code = Routine.operationCode numbering instruction.operation ∧
      result.large = instruction.operation.isLarge ∧
      instruction.operand.Denotes routine address (routine.tablesBefore address) result.operand
  /-- Each naming of a table has a table of its own, with the keys of the one it names and the
  distances from there to their cases. -/
  table_eq : ∀ (address : Nat) (instruction : Instruction) (index : Nat),
    (routine.blocks.flatMap Block.instructions)[address]? = some instruction →
    instruction.operand = .switch index →
    ∃ (table : SwitchTable) (jumps : JumpTable), routine.tables[index]? = some table ∧
      bytecode.tables[routine.tablesBefore address]? = some jumps ∧
      jumps.map Prod.fst = table.cases.flatMap SwitchCase.keys ∧
      ∀ key offset, (key, offset) ∈ jumps ↔
        ∃ entry ∈ table.cases, key ∈ entry.keys ∧ routine.Leads address entry.label offset
  /-- From every place and along all choices both come to the same instruction. -/
  travel_eq : ∀ start choices target, routine.Holds start →
    routine.travel start choices = some target →
    bytecode.travel (routine.addressOf start) choices = some (routine.addressOf target) ∧
      (routine.blocks.flatMap Block.instructions)[routine.addressOf target]? =
        target.fetch.map Prod.fst

namespace Routine

variable {routine : Routine} {numbering : Numbering} {bytecode : Bytecode}

/-- The instruction at the address of a place is the one that comes next, if there is one. -/
theorem instruction_of_address (inside : routine.Holds place) :
    routine.instructions[routine.addressOf place]? = place.fetch.map Prod.fst := by
  cases fetched : place.fetch with
  | some next => exact (fetch_at inside fetched).1
  | none =>
    have code := place.code_eq
    rw [fetched] at code
    simp [addressOf, code]

/-- Resolving keeps the control flow of a routine. -/
theorem resolve_mirrors (distinct : routine.LabelsDistinct)
    (keys : ∀ table ∈ routine.tables, table.KeysDistinct)
    (resolved : routine.resolve numbering = .ok bytecode) : bytecode.Mirrors routine numbering where
  length_eq := by
    obtain ⟨results, places, instructions, _⟩ := resolve_cases resolved
    rw [instructions, List.length_map, ← places.length_eq, length_addressed]
    rfl
  instruction_eq := by
    intro address instruction found
    obtain ⟨result, listed, code, large, brought, resolves, _⟩ := instruction_at resolved found
    exact ⟨result, listed, code, large, (resolve_operand_denotes resolves).1⟩
  table_eq := by
    intro address instruction index found names
    obtain ⟨_, _, table, jumps, _, _, _, tabled, tables, jumped⟩ := table_at resolved found names
    obtain ⟨listed, _, members⟩ :=
      jump_table_entries distinct (keys table (List.mem_of_getElem? tabled)) jumped
    exact ⟨table, jumps, tabled, tables, listed, members⟩
  travel_eq := by
    intro start choices target inside travels
    obtain ⟨arrives, holds⟩ := travel_at distinct keys resolved choices inside travels
    exact ⟨arrives, instruction_of_address holds⟩

/-- A loop around a switch, with an empty block before it and a jump back to that block. -/
def switchLoop : Routine where
  name := "loop"
  blocks := [
    ⟨⟨0, "entry"⟩, [.core .pushIntConstant (.int 4)]⟩,
    ⟨⟨1, "again"⟩, []⟩,
    ⟨⟨2, "choose"⟩, [.core .switch (.switch 1), .core .branch (.label ⟨4, "done"⟩)]⟩,
    ⟨⟨3, "case"⟩, [.core .branch (.label ⟨1, "again"⟩)]⟩,
    ⟨⟨4, "done"⟩, [.core .returnFlow (.int 0)]⟩]
  tables := [.empty, ⟨[⟨[4, 7], ⟨3, "case"⟩⟩, ⟨[], ⟨4, "done"⟩⟩]⟩]
  locals := .empty

def switchLoopBytecode : Bytecode where
  name := "loop"
  instructions := [⟨0, true, .int 4⟩, ⟨60, true, .int 0⟩, ⟨6, true, .int 1⟩, ⟨6, true, .int (-3)⟩,
    ⟨21, false, .int 0⟩]
  params := ⟨0, 0, 0⟩
  locals := ⟨0, 0, 0⟩
  tables := [[(4, 1), (7, 1)]]

/-- A loop around a switch resolves, and its bytecode mirrors it. -/
theorem resolve_switch_loop : switchLoop.resolve .usual = .ok switchLoopBytecode ∧
      switchLoopBytecode.Mirrors switchLoop .usual := by
  have distinct : switchLoop.LabelsDistinct := by
    unfold LabelsDistinct
    decide
  have keys : ∀ table ∈ switchLoop.tables, table.KeysDistinct := by
    unfold SwitchTable.KeysDistinct
    decide
  have resolved : switchLoop.resolve .usual = .ok switchLoopBytecode := by cbv
  exact ⟨resolved, resolve_mirrors distinct keys resolved⟩

end Routine

end TriggerScript
