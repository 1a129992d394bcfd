import TriggerScript.Proofs.Symbol.Entries

/-!
What a table goes through.

A table is made by definitions, by forgetting scripts, by setting the types behind configurations
and by entering and leaving layers. Whatever is done, no two definitions that are visible have the
same name or the same number. A number is given once by a layer and the layers inside it, and what
happens inside a layer leaves the table around it as it was.
-/

namespace TriggerScript

open List

/-- What can be done to a table. -/
inductive TableAction where
  | define (definition : Definition)
  | undefine (trigger name : String)
  | content (name : String) (prim : Prim)
  | enter
  | leave

namespace TableAction

/-- No script with a comma in its trigger is defined. -/
def Plain : TableAction → Prop
  | .define definition => definition.name.Plain
  | .undefine .. | .content .. | .enter | .leave => True

instance : (action : TableAction) → Decidable action.Plain
  | .define definition => inferInstanceAs (Decidable definition.name.Plain)
  | .undefine .. | .content .. | .enter | .leave => .isTrue trivial

end TableAction

namespace SymbolTable

/-- A definition that fails changes nothing, and the outermost layer cannot be left. -/
def perform (table : SymbolTable) : TableAction → SymbolTable
  | .define definition => ((table.define? definition).map Prod.snd).getD table
  | .undefine trigger name => (table.undefineScript trigger name).2
  | .content name prim => table.setContent name prim
  | .enter => table.enter
  | .leave => table.leave?.getD table

def run (table : SymbolTable) (actions : List TableAction) : SymbolTable :=
  actions.foldl perform table

end SymbolTable

/-! ### Names and numbers -/

/-- What tells definitions apart: their names, and the numbers of those that have one. -/
def SymbolEntry.mark (entry : SymbolEntry) : SymbolName × Option (Series × Nat) :=
  (entry.name, entry.number?)

def SymbolEntry.script? : SymbolEntry → Option ScriptInfo
  | .script info => some info
  | _ => none

def SymbolEntry.config? : SymbolEntry → Option ConfigInfo
  | .config info => some info
  | _ => none

theorem SymbolEntry.eq_script {entry : SymbolEntry} {info : ScriptInfo}
    (found : entry.script? = some info) : entry = .script info := by
  cases entry <;> cases found
  rfl

theorem SymbolEntry.eq_config {entry : SymbolEntry} {info : ConfigInfo}
    (found : entry.config? = some info) : entry = .config info := by
  cases entry <;> cases found
  rfl

/-- Neither name nor number is the same. -/
def Apart (first second : SymbolName × Option (Series × Nat)) : Prop :=
  first.1 ≠ second.1 ∧ ∀ number, first.2 = some number → second.2 ≠ some number

theorem apart_symm {first second : SymbolName × Option (Series × Nat)}
    (apart : Apart first second) :
    Apart second first :=
  ⟨apart.1.symm, fun number here there => apart.2 number there here⟩

namespace SymbolTable

variable {table next : SymbolTable}

def marks (table : SymbolTable) : List (SymbolName × Option (Series × Nat)) :=
  table.entries.map SymbolEntry.mark

/-- Definitions have names and numbers of their own, and the next number of each series is new. -/
structure Distinct (table : SymbolTable) : Prop where
  plain : ∀ mark ∈ table.marks, mark.1.Plain
  apart : table.marks.Pairwise Apart
  bounded : ∀ mark ∈ table.marks, ∀ {series number}, mark.2 = some (series, number) →
    number < table.top.next series

/-- Nothing but the names and numbers of definitions matters, and fewer are as distinct. -/
theorem Distinct.of_marks (distinct : table.Distinct) (fewer : next.marks.Sublist table.marks)
    (counters : next.top.next = table.top.next) : next.Distinct where
  plain mark member := distinct.plain mark (fewer.subset member)
  apart := distinct.apart.sublist fewer
  bounded mark member _ _ numbered :=
  counters ▸ distinct.bounded mark (fewer.subset member) numbered

theorem Distinct.define {definition : Definition} {entry : SymbolEntry} (distinct : table.Distinct)
    (plain : definition.name.Plain) (unseen : ¬ table.Visible definition.name)
    (defines : table.Defines definition entry next) : next.Distinct := by
  have marks : next.marks.Perm (entry.mark :: table.marks) := defines.inserts.perm.map _
  refine ⟨?_, ?_, ?_⟩
  · intro mark member
    rcases mem_cons.mp (marks.mem_iff.mp member) with rfl | old
    · rwa [SymbolEntry.mark, defines.name]
    · exact distinct.plain mark old
  · rw [marks.pairwise_iff apart_symm, pairwise_cons]
    refine ⟨fun mark old => ⟨?_, ?_⟩, distinct.apart⟩
    · -- The name is new, since it was not visible.
      intro same
      obtain ⟨other, listed, rfl⟩ := mem_map.mp old
      exact unseen ⟨other, listed, same.symm.trans defines.name⟩
    · -- The number is new, since those given before are smaller.
      rintro ⟨series, number⟩ given again
      have below := distinct.bounded mark old again
      exact absurd (defines.given given).1 (Nat.ne_of_lt below)
  · intro mark member series number numbered
    rcases mem_cons.mp (marks.mem_iff.mp member) with rfl | old
    · rw [(defines.given numbered).2]
      exact Nat.lt_succ_self number
    · exact (distinct.bounded mark old numbered).trans_le (defines.counters_mono series)

/-- The table is so far inside a layer around which the base is, and from that layer inwards no
series is below the given numbers. -/
def Above (base : List Layer) (low : Series → Nat) (depth : Nat) (table : SymbolTable) : Prop :=
  ∃ inner, table.outer = inner ++ base ∧ inner.length = depth ∧
    ∀ layer ∈ table.top :: inner, ∀ series, low series ≤ layer.next series

variable {base : List Layer} {low : Series → Nat} {depth final : Nat}

theorem Above.of_top (above : table.Above base low depth) (outer : next.outer = table.outer)
    (counters : ∀ series, table.top.next series ≤ next.top.next series) :
    next.Above base low depth := by
  obtain ⟨inner, split, length, bounds⟩ := above
  obtain ⟨here, behind⟩ := forall_mem_cons.mp bounds
  exact ⟨inner, outer.trans split, length,
    forall_mem_cons.mpr ⟨fun series => (here series).trans (counters series), behind⟩⟩

theorem entries_filter {α : Type} (part : SymbolEntry → Option α) {infos : Layer → List α}
    (each : ∀ layer : Layer, layer.entries.filterMap part = infos layer) :
    table.entries.filterMap part = table.layers.flatMap infos := by
  rw [entries, filterMap_flatMap]
  exact congrArg (table.layers.flatMap ·) (funext each)

theorem scripts_eq (table : SymbolTable) :
    table.entries.filterMap SymbolEntry.script? = table.layers.flatMap Layer.scripts :=
  entries_filter _ fun layer => by
    simp [Layer.entries, SymbolEntry.script?, filterMap_map, Function.comp_def]

theorem configs_eq (table : SymbolTable) :
    table.entries.filterMap SymbolEntry.config? = table.layers.flatMap Layer.configs :=
  entries_filter _ fun layer => by
    simp [Layer.entries, SymbolEntry.config?, filterMap_map, Function.comp_def]

/-- What tells definitions apart tells those of one kind apart. -/
theorem Distinct.nodup {α β : Type} (distinct : table.Distinct) {part : SymbolEntry → Option α}
    {key : α → β}
    (tells : ∀ {first second one two}, Apart (SymbolEntry.mark first) (SymbolEntry.mark second) →
      part first = some one → part second = some two → key one ≠ key two) :
    ((table.entries.filterMap part).map key).Nodup := by
  rw [List.Nodup, pairwise_map, pairwise_filterMap]
  exact (pairwise_map.mp distinct.apart).imp fun apart one here two there =>
    tells apart here there

theorem Distinct.scripts (distinct : table.Distinct) :
    ((table.layers.flatMap Layer.scripts).map fun info => (info.trigger, info.name)).Nodup ∧
      ((table.layers.flatMap Layer.scripts).map ScriptInfo.id).Nodup := by
  rw [← scripts_eq]
  constructor
  · refine distinct.nodup fun apart here there same => apart.1 ?_
    rw [SymbolEntry.eq_script here, SymbolEntry.eq_script there]
    obtain ⟨trigger, name⟩ := Prod.mk.inj same
    exact congrArg₂ SymbolName.script trigger name
  · refine distinct.nodup fun apart here there same => ?_
    rw [SymbolEntry.eq_script here, SymbolEntry.eq_script there] at apart
    exact apart.2 _ rfl (by rw [SymbolEntry.mark, SymbolEntry.number?, same])

theorem Distinct.configs (distinct : table.Distinct) :
    ((table.layers.flatMap Layer.configs).map fun info => (info.prim, info.id)).Nodup := by
  rw [← configs_eq]
  refine distinct.nodup fun apart here there same => ?_
  rw [SymbolEntry.eq_config here, SymbolEntry.eq_config there] at apart
  obtain ⟨prim, id⟩ := Prod.mk.inj same
  exact apart.2 _ rfl (by rw [SymbolEntry.mark, SymbolEntry.number?, prim, id])

end SymbolTable

end TriggerScript
