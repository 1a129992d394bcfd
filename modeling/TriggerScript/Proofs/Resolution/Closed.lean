import TriggerScript.Proofs.Execution.Closed
import TriggerScript.Proofs.Resolution.Simulation

/-!
Resolving closed routines.

Every operand of a closed routine denotes something, so resolving it fails only where a number is
too large. Every distance that it resolves to leads to an instruction, since behind every block
stands the last one, which is not empty.
-/

namespace TriggerScript

open List

/-- Nothing fails for want of what an operand names. -/
def Resolvable {α : Type} (result : Except WriteFault α) : Prop :=
  ∀ operand, result ≠ .error (.unresolved operand)

namespace Resolvable

variable {α β : Type}

theorem ok (value : α) : Resolvable (.ok value) := nofun

theorem bind {next : α → Except WriteFault β} (first : Resolvable result)
    (later : ∀ value, result = .ok value → Resolvable (next value)) :
    Resolvable (result >>= next) := by
  cases result with
  | error fault =>
    intro operand failed
    exact first operand (congrArg Except.error (Except.error.inj failed))
  | ok value => exact later value rfl

theorem mapM {resolve : α → Except WriteFault β} {items : List α}
    (each : ∀ item ∈ items, Resolvable (resolve item)) : Resolvable (items.mapM resolve) := by
  induction items with
  | nil => exact ok []
  | cons item rest ih =>
    rw [mapM_cons]
    rw [forall_mem_cons] at each
    refine each.1.bind fun first _ => (ih each.2).bind fun others _ => ok _

end Resolvable

namespace JumpTable

/-- The keys in hand have distances that were put with them. -/
def Collected.From (entries : List (Int32 × Int32)) (collected : Collected) : Prop :=
  ∀ key, (∀ distance, collected.distances[key]? = some distance → (key, distance) ∈ entries) ∧
    (key ∈ collected.keys → ∃ distance, collected.distances[key]? = some distance)

theorem Collected.From.put {collected : Collected} (known : collected.From entries)
    (member : entry ∈ entries) : (collected.put entry).From entries := by
  intro key
  obtain ⟨listed, held⟩ := known key
  simp only [Collected.put, Std.HashMap.getElem?_insert, beq_iff_eq]
  by_cases same : entry.1 = key
  · subst same
    simp only [if_true, Option.some.injEq]
    refine ⟨fun distance here => ?_, fun _ => ⟨_, rfl⟩⟩
    rw [← here]
    exact member
  · rw [if_neg same]
    refine ⟨listed, fun found => held ?_⟩
    split at found
    · exact found
    · exact (mem_cons.mp found).resolve_left (Ne.symm same)

theorem of_entries_subset (entries : List (Int32 × Int32)) : ofEntries entries ⊆ entries := by
  have collects : ∀ (rest : List (Int32 × Int32)) (collected : Collected), rest ⊆ entries →
      collected.From entries → (rest.foldl Collected.put collected).From entries := by
    intro rest
    induction rest with
    | nil => exact fun _ _ known => known
    | cons entry rest ih =>
      intro collected inside known
      rw [cons_subset] at inside
      exact ih _ inside.2 (known.put inside.1)
  have known := collects entries ⟨[], ∅⟩ (Subset.refl _) fun key => by simp
  intro entry member
  obtain ⟨key, listed, rfl⟩ := mem_map.mp member
  obtain ⟨distance, held⟩ := (known key).2 (mem_reverse.mp listed)
  rw [Std.HashMap.getD_eq_getD_getElem?, held]
  exact (known key).1 distance held

end JumpTable

namespace Routine

variable {routine : Routine} {numbering : Numbering} {bytecode : Bytecode}

theorem mem_addresses {blocks : List Block} (member : block ∈ blocks) (start : Nat) :
    ∃ address, (block.label.id, address) ∈ addressesFrom start blocks := by
  induction blocks generalizing start with
  | nil => cases member
  | cons first rest ih =>
    rw [addressesFrom]
    rcases mem_cons.mp member with rfl | later
    · exact ⟨start, mem_cons_self⟩
    · obtain ⟨address, held⟩ := ih later _
      exact ⟨address, mem_cons_of_mem _ held⟩

theorem address_of_marks (marks : routine.Marks label) :
    ∃ address, routine.address? label = some address := by
  obtain ⟨block, member, same⟩ := marks
  obtain ⟨address, held⟩ := mem_addresses member 0
  rw [same] at held
  cases found : routine.address? label with
  | some address => exact ⟨address, rfl⟩
  | none =>
    have absent := lookup_eq_none_iff.mp found (label.id, address) (mem_reverse.mpr held)
    simp at absent

theorem jump_resolvable (marks : routine.Marks label) (source : Nat) :
    Resolvable (routine.jump source label) := by
  obtain ⟨address, found⟩ := address_of_marks marks
  unfold jump distance
  simp only [found]
  split <;> nofun

theorem counted_resolvable (value : Nat) (quantity : Quantity) :
    Resolvable (counted value quantity) := by
  unfold counted
  split <;> nofun

namespace Closed

theorem jump_table_resolvable (closed : routine.Closed) (source : Nat) {table : SwitchTable}
    (listed : table ∈ routine.tables) : Resolvable (routine.jumpTable source table) := by
  refine (Resolvable.mapM fun entry member => ?_).bind fun _ _ => .ok _
  exact (jump_resolvable (closed.cases table listed entry member) source).bind fun _ _ => .ok _

theorem operand_resolvable (closed : routine.Closed) {place : Addressed}
    (member : place.instruction ∈ routine.instructions) :
    Resolvable (routine.resolveOperand place) := by
  have known := closed.operands place.instruction member
  unfold resolveOperand
  cases names : place.instruction.operand with
  | label label =>
    rw [names] at known
    exact (jump_resolvable known place.address).bind fun _ _ => .ok _
  | localVar target =>
    rw [names] at known
    obtain ⟨slot, found⟩ := known
    simp only [found]
    exact (counted_resolvable slot .slot).bind fun _ _ => .ok _
  | switch index =>
    rw [names] at known
    obtain ⟨table, found⟩ := known
    simp only [found]
    refine (closed.jump_table_resolvable place.address (mem_of_getElem? found)).bind fun _ _ => ?_
    exact (counted_resolvable place.ordinal .switchIndex).bind fun _ _ => .ok _
  | int | long | text | bool | script => exact .ok _

theorem resolvable (closed : routine.Closed) (numbering : Numbering) :
    Resolvable (routine.resolve numbering) := by
  have inside : ∀ (instructions : List Instruction) (address ordinal : Nat),
      ∀ place ∈ Instruction.addressed address ordinal instructions,
      place.instruction ∈ instructions := by
    intro instructions
    induction instructions with
    | nil => exact fun _ _ _ member => nomatch member
    | cons instruction rest ih =>
      intro address ordinal place member
      rcases mem_cons.mp member with rfl | later
      · exact mem_cons_self
      · exact mem_cons_of_mem _ (ih _ _ place later)
  refine (Resolvable.mapM fun place member => ?_).bind fun _ _ => .ok _
  exact (closed.operand_resolvable (inside _ 0 0 place member)).bind fun _ _ => .ok _

end Closed

/-- Every distance of the bytecode leads to one of its instructions. -/
structure Lands (routine : Routine) (bytecode : Bytecode) : Prop where
  length_eq : bytecode.instructions.length = routine.instructions.length
  jumps : ∀ address instruction label, routine.instructions[address]? = some instruction →
    instruction.operand = .label label → ∃ result offset target,
      bytecode.instructions[address]? = some result ∧ result.operand = .int offset ∧
        Bytecode.hop address offset = some target ∧ target < bytecode.instructions.length
  selects : ∀ address instruction index, routine.instructions[address]? = some instruction →
    instruction.operand = .switch index → ∃ result number table,
      bytecode.instructions[address]? = some result ∧ result.operand = .int number ∧
        bytecode.tables[number.toInt.toNat]? = some table ∧
        ∀ entry ∈ table, ∃ target, Bytecode.hop address entry.2 = some target ∧
          target < bytecode.instructions.length

theorem length_of_resolved (resolved : routine.resolve numbering = .ok bytecode) :
    bytecode.instructions.length = routine.instructions.length := by
  obtain ⟨results, places, instructions, -⟩ := resolve_cases resolved
  rw [instructions, length_map, ← places.length_eq, length_addressed]

theorem Closed.hop_lt (closed : routine.Closed) (leads : routine.Leads source label offset) :
    ∃ target, Bytecode.hop source offset = some target ∧ target < routine.instructions.length := by
  obtain ⟨target, ⟨before, block, after, split, -, counted⟩, lands⟩ := leads
  refine ⟨target, Bytecode.hop_eq lands, ?_⟩
  have more := length_pos_iff.mpr (closed.suffix_ends split).ne_nil
  rw [instructions, split, flatMap_append, length_append, counted]
  omega

theorem jump_table_leads {source : Nat} {table : SwitchTable} {jumps : JumpTable}
    (resolved : routine.jumpTable source table = .ok jumps) {entry : Int32 × Int32}
    (member : entry ∈ jumps) : ∃ case ∈ table.cases, routine.Leads source case.label entry.2 := by
  obtain ⟨entries, found, filled⟩ := bind_eq_ok.mp resolved
  obtain rfl := Except.ok.inj filled
  obtain ⟨part, listed, held⟩ := mem_flatten.mp (JumpTable.of_entries_subset _ member)
  obtain ⟨case, inside, made⟩ := exists_of_mem_mapM found listed
  obtain ⟨offset, leads, rfl⟩ := case_entries_eq made
  obtain ⟨key, -, rfl⟩ := mem_map.mp held
  exact ⟨case, inside, leads⟩

theorem Closed.lands (closed : routine.Closed)
    (resolved : routine.resolve numbering = .ok bytecode) :
    routine.Lands bytecode := by
  have length_eq := length_of_resolved resolved
  refine ⟨length_eq, fun address instruction label found names => ?_,
    fun address instruction index found names => ?_⟩
  · obtain ⟨result, listed, -, -, brought, operand, -⟩ := instruction_at resolved found
    have denotes := (resolve_operand_denotes operand).1
    dsimp only at denotes
    rw [names] at denotes
    generalize same : result.operand = denoted at denotes
    cases denotes with
    | @label _ offset leads =>
      obtain ⟨target, hops, inside⟩ := closed.hop_lt leads
      exact ⟨result, offset, target, listed, same, hops, length_eq ▸ inside⟩
  · obtain ⟨result, number, table, jumps, listed, operand, numbered, tabled, brought, resolved⟩ :=
      table_at resolved found names
    refine ⟨result, number, jumps, listed, operand, ?_, fun entry member => ?_⟩
    · rw [numbered, Int.toNat_natCast]
      exact brought
    · obtain ⟨case, -, leads⟩ := jump_table_leads resolved member
      obtain ⟨target, hops, inside⟩ := closed.hop_lt leads
      exact ⟨target, hops, length_eq ▸ inside⟩

theorem Inside.address_lt (inside : routine.Inside position) :
    routine.addressOf position < routine.instructions.length := by
  have more := length_pos_iff.mpr inside.ends.ne_nil
  have fits := inside.suffix.length_le
  rw [addressOf]
  omega

/-- Nothing leads out of the routine: no operand when it is resolved, no distance of its bytecode,
and no step when it runs. -/
structure Contained (routine : Routine) : Prop where
  closed : routine.Closed
  resolvable : ∀ numbering operand, routine.resolve numbering ≠ .error (.unresolved operand)
  lands : ∀ numbering bytecode, routine.resolve numbering = .ok bytecode → routine.Lands bytecode
  returns : ∀ {σ : Type} (semantics : Semantics σ) (state final : σ),
    ¬ routine.Stops semantics state .ranOff final
  inside : ∀ {σ : Type} (semantics : Semantics σ) (count : Nat) (state now : σ)
    (position : Position), routine.run semantics count (.running routine.entry state) =
    .running position now →
      routine.Holds position ∧ routine.addressOf position < routine.instructions.length

theorem Closed.contained (closed : routine.Closed) : routine.Contained where
  closed := closed
  resolvable := closed.resolvable
  lands _ _ resolved := closed.lands resolved
  returns := closed.never_runs_off
  inside _ _ _ _ _ reached :=
    have inside := closed.inside_of_running reached
    ⟨inside.suffix, inside.address_lt⟩

end Routine

end TriggerScript
