import TriggerScript.Proofs.Generation.Endings
import TriggerScript.Proofs.Generation.Routines
import TriggerScript.Proofs.Optimization.Closed
import TriggerScript.Proofs.Resolution.Closed

/-!
Generated code is closed.

The code of a phrase jumps to labels that it binds and to those it was given, names tables whose
cases it binds, and uses variables that were visible or that it declares. So the code of a whole
script, which is given nothing, has everything that it names.
-/

namespace TriggerScript

open List Item Phrase

variable {instruction : Instruction} {marked : Nat → Prop} {tables : List SwitchTable}
  {locals : LocalMap}
  {low high : Nat} {code : List Item} {names : Names} {source : Expr}

/-! ### What code refers to -/

/-- What the instruction names is there: a label among those marked, a variable with a slot, a table
with its cases. -/
def Instruction.Refers (marked : Nat → Prop) (tables : List SwitchTable) (locals : LocalMap)
    (instruction : Instruction) : Prop :=
  match instruction.operand with
  | .label target => marked target.id
  | .localVar target => ∃ slot, locals.slot? target = some slot
  | .switch index =>
    ∃ table, tables[index]? = some table ∧ ∀ entry ∈ table.cases, marked entry.label.id
  | _ => True

namespace Item

/-- What the instructions among the items name is there. -/
def Refer (marked : Nat → Prop) (tables : List SwitchTable) (locals : LocalMap)
    (items : List Item) :
    Prop := ∀ instruction, .op instruction ∈ items → instruction.Refers marked tables locals

variable {marked : Nat → Prop} {tables : List SwitchTable} {locals : LocalMap}

@[simp] theorem refer_nil : Refer marked tables locals [] := fun _ member => nomatch member

@[simp] theorem refer_mark :
    Refer marked tables locals (.mark label :: items) ↔ Refer marked tables locals items := by
  simp [Refer]

@[simp] theorem refer_op : Refer marked tables locals (.op instruction :: items) ↔
      instruction.Refers marked tables locals ∧ Refer marked tables locals items := by
  simp [Refer]

@[simp] theorem refer_append : Refer marked tables locals (first ++ second) ↔
      Refer marked tables locals first ∧ Refer marked tables locals second := by
  simp [Refer, or_imp, forall_and]

theorem refer_leaving {target : Label} (marks : marked target.id) (code : List Item) :
    Refer marked tables locals (leaving target code) := by
  unfold leaving
  split
  · exact refer_nil
  · exact refer_op.mpr ⟨marks, refer_nil⟩

end Item

theorem Laid.refer (laid : Laid instructions low high code)
    (each : ∀ instruction ∈ instructions, instruction.Refers marked tables locals) :
    Refer marked tables locals code :=
  fun instruction member => each instruction ((Emission.mem_of_laid laid).mp member)

theorem Laid.refer_one (laid : Laid [instruction] low high code)
    (refers : instruction.Refers marked tables locals) : Refer marked tables locals code :=
  laid.refer (forall_mem_singleton.mpr refers)

theorem Laid.refer_jumps
    (laid : Laid [.core opcode (.label ifTrue), .core .branch (.label ifFalse)] low high code)
    (first : marked ifTrue.id) (second : marked ifFalse.id) : Refer marked tables locals code :=
  laid.refer (forall_mem_cons.mpr ⟨first, forall_mem_singleton.mpr second⟩)

/-! ### Phrases -/

/-- The visible variables have slots. -/
def Names.Placed (names : Names) (locals : LocalMap) : Prop :=
  ∀ entry ∈ names.scope.locals, ∃ slot, locals.slot? entry = some slot

theorem Names.Placed.declare (placed : names.Placed locals) {target : Local} {stack : Stack}
    {scope : Scope} (opened : names.scope.declare target = some scope)
    (lives : target.prim.stack? = some stack) (registered : (stack, target) ∈ locals.declared) :
    Names.Placed { names with scope } locals := by
  intro entry member
  rcases (Scope.mem_declare opened).mp member with old | rfl
  · exact placed entry old
  · exact LocalMap.slot_of_registered lives registered

/-- The labels of a loop around, if there is one. -/
def LoopTargets.ids : Option LoopTargets → List Nat
  | some targets => [targets.again.id, targets.leave.id]
  | none => []

/-- The labels that the code of a phrase is given. -/
def Phrase.exits : Phrase → List Nat
  | .value _ | .values _ => []
  | .truth _ ifTrue ifFalse => [ifTrue.id, ifFalse.id]
  | .stmt _ loop | .stmts _ loop => LoopTargets.ids loop
  | .arms _ loop done _ => done.id :: LoopTargets.ids loop

/-- The phrase is what checking made of something, with some names visible before and behind it. -/
def Phrase.Checked (names after : Names) : Phrase → Prop
  | .value expr | .truth expr _ _ => (∃ source, Expr.Elaborates names source expr) ∧ after = names
  | .values exprs =>
    (∃ sources, List.Forall₂ (Expr.Elaborates names) sources exprs) ∧ after = names
  | .stmt statement _ =>
    ∃ returns inLoop source, Stmt.Elaborates returns inLoop names source statement after
  | .stmts body _ =>
    ∃ returns inLoop source, Stmt.ElaborateAll returns inLoop names source body after
  | .arms choices _ _ _ =>
    ∃ returns prim inLoop source, Stmt.ElaborateArms returns prim inLoop names source choices after

theorem Value.instruction_refers (value : Value) :
    value.instruction.Refers marked tables locals := by
  cases value <;> trivial

variable {linkage : Linkage} {tables : List SwitchTable} {locals : LocalMap}

theorem Expr.Applies.refers {expr : Expr} (applies : expr.Applies linkage args instruction)
    (elaborated : Expr.Elaborates names source expr) (placed : names.Placed locals) :
    instruction.Refers marked tables locals := by
  cases applies with
  | localVar =>
    cases elaborated with
    | localVar found => exact placed _ (Scope.mem_of_lookup found)
  | int | coordgrid | bool | long | text | null | constant | config | emptyHook =>
    exact Value.instruction_refers _
  | arrayElement | global | bare | command | call | concat | arithmetic => trivial

theorem Expr.Stores.refers {target : Expr} (stores : target.Stores linkage instruction)
    (elaborated : Expr.Elaborates names source target) (placed : names.Placed locals) :
    instruction.Refers marked tables locals := by
  cases stores with
  | localVar =>
    cases elaborated with
    | localVar found => exact placed _ (Scope.mem_of_lookup found)
  | global => trivial

theorem Expr.stores_refer (stores : Forall₂ (Expr.Stores linkage) targets instructions)
    (elaborate : Forall₂ (Expr.Elaborates names) sources targets) (placed : names.Placed locals) :
    ∀ instruction ∈ instructions, instruction.Refers marked tables locals := by
  induction stores generalizing sources with
  | nil => exact fun _ member => nomatch member
  | cons stored _ ih =>
    cases elaborate with
    | cons head others => exact forall_mem_cons.mpr ⟨stored.refers head placed, ih others⟩

theorem Expr.Elaborates.operands {note : Note}
    (elaborated : Expr.Elaborates names source (.binary note operator left right)) :
    (∃ source, Expr.Elaborates names source left) ∧ ∃ source,
      Expr.Elaborates names source right := by
  cases elaborated with
  | arithmetic _ first second | logical _ _ first second | comparison _ _ first second =>
    exact ⟨⟨_, first⟩, _, second⟩

theorem Coded.cases_bound {arms : List Arm}
    (coded : Coded linkage tables locals (.arms arms loop done cases) low high code) :
    ∀ entry ∈ cases, entry.label.id ∈ ids code := by
  induction arms generalizing cases low code with
  | nil =>
    cases coded
    exact fun _ member => nomatch member
  | cons arm rest ih =>
    cases coded with
    | someArms part others =>
      refine forall_mem_cons.mpr ⟨by simp, fun entry member => ?_⟩
      simp [ih others entry member]

/-- What the code of a phrase names is there, if the labels that it binds and those it is given are
marked. -/
theorem Coded.refer (coded : Coded linkage tables locals phrase low high code) {after : Names}
    (checked : phrase.Checked names after) (placed : names.Placed locals)
    (bound : ∀ id ∈ ids code, marked id) (given : ∀ id ∈ phrase.exits, marked id) :
    Refer marked tables locals code ∧ after.Placed locals := by
  induction coded generalizing names after with try simp only [ids_append, ids_mark, ids_op,
    ids_nil, ids_leaving, forall_mem_append, forall_mem_cons, refer_append, refer_mark, refer_op,
    refer_nil] at bound ⊢
  | apply applies _ laid ih =>
    obtain ⟨⟨_, elaborated⟩, rfl⟩ := checked
    have parts := elaborated.parts
    rw [applies.parts_eq] at parts
    have inner := ih ⟨⟨_, parts⟩, rfl⟩ placed bound.1 nofun
    exact ⟨⟨inner.1, laid.refer_one (applies.refers elaborated placed)⟩, placed⟩
  | calculation _ ih =>
    obtain ⟨⟨_, elaborated⟩, rfl⟩ := checked
    cases elaborated with
    | calculation part => exact ih ⟨⟨_, part⟩, rfl⟩ placed bound given
  | hook _ number _ laid ih =>
    obtain ⟨⟨_, elaborated⟩, rfl⟩ := checked
    have inner := ih ⟨⟨_, elaborated.parts⟩, rfl⟩ placed bound.1.2 nofun
    exact ⟨⟨⟨number.refer_one (Value.instruction_refers _), inner.1⟩,
      laid.refer_one (Value.instruction_refers _)⟩, placed⟩
  | decided _ _ ih =>
    obtain ⟨inside, ifTrue, ifFalse, done, -⟩ := bound
    have inner := ih checked placed inside (by simp [exits, ifTrue, ifFalse])
    exact ⟨⟨inner.1, Value.instruction_refers _, done, Value.instruction_refers _, trivial⟩,
      inner.2⟩
  | noValues =>
    obtain ⟨-, rfl⟩ := checked
    exact ⟨trivial, placed⟩
  | someValues _ _ ih ih' =>
    obtain ⟨⟨_, elaborate⟩, rfl⟩ := checked
    cases elaborate with
    | cons head others =>
      have first := ih ⟨⟨_, head⟩, rfl⟩ placed bound.1 nofun
      have rest := ih' ⟨⟨_, others⟩, rfl⟩ placed bound.2 nofun
      exact ⟨⟨first.1, rest.1⟩, placed⟩
  | tested _ _ laid ih =>
    simp only [exits, forall_mem_cons] at given
    have inner := ih checked placed bound.1 nofun
    exact ⟨⟨inner.1, laid.refer_jumps given.1 given.2.1⟩, inner.2⟩
  | either _ _ ih ih' | both _ _ ih ih' =>
    obtain ⟨⟨_, elaborated⟩, rfl⟩ := checked
    obtain ⟨inside, next, behind⟩ := bound
    simp only [exits, forall_mem_cons] at given ih ih'
    obtain ⟨left, right⟩ := elaborated.operands
    have first := ih ⟨left, rfl⟩ placed inside (by simp [given, next])
    have second := ih' ⟨right, rfl⟩ placed behind given
    exact ⟨⟨first.1, second.1⟩, placed⟩
  | compared _ _ laid ih =>
    obtain ⟨⟨_, elaborated⟩, rfl⟩ := checked
    simp only [exits, forall_mem_cons] at given
    have inner := ih ⟨⟨_, elaborated.parts⟩, rfl⟩ placed bound.1 nofun
    exact ⟨⟨inner.1, laid.refer_jumps given.1 given.2.1⟩, inner.2⟩
  | noStmts =>
    obtain ⟨_, _, _, elaborate⟩ := checked
    cases elaborate
    exact ⟨trivial, placed⟩
  | someStmts _ _ ih ih' =>
    obtain ⟨_, _, _, elaborate⟩ := checked
    cases elaborate with
    | cons head others =>
      have first := ih ⟨_, _, _, head⟩ placed bound.1 given
      have rest := ih' ⟨_, _, _, others⟩ first.2 bound.2 given
      exact ⟨⟨first.1, rest.1⟩, rest.2⟩
  | block _ ih =>
    obtain ⟨_, _, _, elaborated⟩ := checked
    cases elaborated with
    | block part => exact ⟨(ih ⟨_, _, _, part⟩ placed bound given).1, placed⟩
  | ifThen _ _ ih ih' =>
    obtain ⟨_, _, _, elaborated⟩ := checked
    obtain ⟨testing, ifTrue, inside, done, -⟩ := bound
    cases elaborated with
    | ifThen test _ part =>
      have first := ih ⟨⟨_, test⟩, rfl⟩ placed testing (by simp [exits, ifTrue, done])
      have second := ih' ⟨_, _, _, part⟩ placed inside given
      exact ⟨⟨first.1, second.1, trivial⟩, placed⟩
  | ifElse _ _ _ ih ih' other =>
    obtain ⟨_, _, _, elaborated⟩ := checked
    obtain ⟨testing, ifTrue, ⟨inside, -⟩, ifElse, beside, done, -⟩ := bound
    cases elaborated with
    | ifElse test _ part alternative =>
      have first := ih ⟨⟨_, test⟩, rfl⟩ placed testing (by simp [exits, ifTrue, ifElse])
      have second := ih' ⟨_, _, _, part⟩ placed inside given
      have third := other ⟨_, _, _, alternative⟩ placed beside given
      exact ⟨⟨first.1, ⟨second.1, refer_leaving done _⟩, third.1, trivial⟩, placed⟩
  | whileLoop _ _ ih ih' =>
    obtain ⟨_, _, _, elaborated⟩ := checked
    obtain ⟨again, testing, body, ⟨inside, -⟩, done, -⟩ := bound
    cases elaborated with
    | whileLoop test _ part =>
      have first := ih ⟨⟨_, test⟩, rfl⟩ placed testing (by simp [exits, body, done])
      have second :=
        ih' ⟨_, _, _, part⟩ placed inside (by simp [exits, LoopTargets.ids, again, done])
      exact ⟨⟨first.1, ⟨second.1, refer_leaving again _⟩, trivial⟩, placed⟩
  | continueLoop laid | breakLoop laid =>
    obtain ⟨_, _, _, elaborated⟩ := checked
    cases elaborated
    exact ⟨laid.refer_one (given _ (by simp [exits, LoopTargets.ids])), placed⟩
  | «return» _ laid ih =>
    obtain ⟨_, _, _, elaborated⟩ := checked
    cases elaborated with
    | «return» parts =>
      have inner := ih ⟨⟨_, parts⟩, rfl⟩ placed bound.1 nofun
      exact ⟨⟨inner.1, laid.refer_one trivial⟩, placed⟩
  | declare lives registered _ laid ih =>
    obtain ⟨_, _, _, elaborated⟩ := checked
    cases elaborated with
    | declare _ part _ opened =>
      have inner := ih ⟨⟨_, part⟩, rfl⟩ placed bound.1 nofun
      refine ⟨⟨inner.1, laid.refer_one ?_⟩, placed.declare opened lives registered⟩
      exact LocalMap.slot_of_registered ‹_› registered
  | declareDefault lives registered _ laid =>
    obtain ⟨_, _, _, elaborated⟩ := checked
    cases elaborated with
    | declareDefault _ opened =>
      refine ⟨laid.refer ?_, placed.declare opened lives registered⟩
      refine forall_mem_cons.mpr ⟨Value.instruction_refers _, forall_mem_singleton.mpr ?_⟩
      exact LocalMap.slot_of_registered ‹_› registered
  | declareArray _ laid ih =>
    obtain ⟨_, _, _, elaborated⟩ := checked
    cases elaborated with
    | declareArray _ part =>
      have inner := ih ⟨⟨_, part⟩, rfl⟩ placed bound.1 nofun
      exact ⟨⟨inner.1, laid.refer_one trivial⟩, placed⟩
  | assignElement _ laid ih =>
    obtain ⟨_, _, _, elaborated⟩ := checked
    cases elaborated with
    | assign _ places parts =>
      cases places with
      | cons place _ =>
        cases place with
        | arrayElement index =>
          have inner := ih ⟨⟨_, .cons index parts⟩, rfl⟩ placed bound.1 nofun
          exact ⟨⟨inner.1, laid.refer_one trivial⟩, placed⟩
  | assign _ stores laid ih =>
    obtain ⟨_, _, _, elaborated⟩ := checked
    cases elaborated with
    | assign _ places parts =>
      have inner := ih ⟨⟨_, parts⟩, rfl⟩ placed bound.1 nofun
      refine ⟨⟨inner.1, laid.refer ?_⟩, placed⟩
      exact Expr.stores_refer stores (rel_reverse places) placed
  | discarded _ _ laid ih =>
    obtain ⟨_, _, _, elaborated⟩ := checked
    cases elaborated with
    | expr part =>
      have inner := ih ⟨⟨_, part⟩, rfl⟩ placed bound.1 nofun
      refine ⟨⟨inner.1, laid.refer fun instruction member => ?_⟩, placed⟩
      obtain ⟨stack, -, rfl⟩ := mem_map.mp member
      trivial
  | switch _ chooses skips bodies table ih ih' =>
    obtain ⟨_, _, _, elaborated⟩ := checked
    obtain ⟨valued, -, -, inside, done, -⟩ := bound
    cases elaborated with
    | switch _ part _ arms =>
      have first := ih ⟨⟨_, part⟩, rfl⟩ placed valued nofun
      have second := ih' ⟨_, _, _, _, arms⟩ placed inside (forall_mem_cons.mpr ⟨done, given⟩)
      refine ⟨⟨first.1, chooses.refer_one ?_, skips.refer_one done, second.1, trivial⟩, second.2⟩
      exact ⟨_, table, fun entry member => inside _ (bodies.cases_bound entry member)⟩
  | switchDefault _ chooses skips bodies _ table ih ih' other =>
    obtain ⟨_, _, _, elaborated⟩ := checked
    obtain ⟨valued, -, -, inside, otherwise, beside, done, -⟩ := bound
    cases elaborated with
    | switchDefault _ part _ arms fallback =>
      have first := ih ⟨⟨_, part⟩, rfl⟩ placed valued nofun
      have second := ih' ⟨_, _, _, _, arms⟩ placed inside (forall_mem_cons.mpr ⟨done, given⟩)
      have third := other ⟨_, _, _, fallback⟩ second.2 beside given
      refine ⟨⟨first.1, chooses.refer_one ?_, skips.refer_one otherwise, second.1, third.1,
        trivial⟩, second.2⟩
      refine ⟨_, table, forall_mem_append.mpr ⟨?_, forall_mem_singleton.mpr otherwise⟩⟩
      exact fun entry member => inside _ (bodies.cases_bound entry member)
  | noArms =>
    obtain ⟨_, _, _, _, elaborate⟩ := checked
    cases elaborate
    exact ⟨trivial, placed⟩
  | someArms _ _ ih ih' =>
    obtain ⟨_, _, _, _, elaborate⟩ := checked
    obtain ⟨-, ⟨inside, -⟩, behind⟩ := bound
    have outside := forall_mem_cons.mp given
    cases elaborate with
    | cons _ part others =>
      have first := ih ⟨_, _, _, part⟩ placed inside outside.2
      have rest := ih' ⟨_, _, _, _, others⟩ placed behind given
      exact ⟨⟨⟨first.1, refer_leaving outside.1 _⟩, rest.1⟩, rest.2⟩

/-! ### Routines -/

theorem Closing.refer {tail : List Item} (closing : Closing returns code low high tail) :
    Refer marked tables locals tail := by
  cases closing with
  | ended => exact refer_nil
  | defaults _ placed =>
    refine placed.refer (forall_mem_append.mpr ⟨fun instruction member => ?_, ?_⟩)
    · obtain ⟨value, -, rfl⟩ := mem_map.mp member
      exact value.instruction_refers
    · exact forall_mem_singleton.mpr trivial

theorem Closing.ends_flow {tail : List Item} (closing : Closing returns code low high tail)
    (label : Label) : endsFlow (.mark label :: (code ++ tail)) = true := by
  cases closing with
  | ended ends =>
    have nonempty : code ≠ [] := by
      rintro rfl
      cases ends
    rw [append_nil, ← singleton_append, ends_flow_append _ nonempty, ends]
  | defaults _ placed =>
    obtain ⟨front, rfl⟩ := placed.last_eq
    rw [← append_assoc, ← cons_append, ends_flow_append_op]
    rfl

namespace Routine

variable {routine : Routine}

theorem mem_instructions :
    instruction ∈ routine.instructions ↔ .op instruction ∈ routine.items := by
  simp [instructions, items, Block.items, mem_flatMap]

theorem marks_of_mem_ids {label : Label} (member : label.id ∈ ids routine.items) :
    routine.Marks label := by
  rwa [items, Block.ids_items, ← marks_iff] at member

end Routine

namespace Script

variable {symbols : SymbolTable} {capacity : Nat} {source script : Script} {routine : Routine}

section

variable (compiled : script.Compiled linkage routine)

include compiled

theorem Compiled.refer (elaborated : Elaborates symbols capacity source script) :
    Refer (· ∈ ids routine.items) routine.tables routine.locals routine.items := by
  obtain ⟨mid, high, code, tail, all, coded, closing⟩ := compiled.coded
  obtain ⟨-, names, last, params, body⟩ := elaborated
  have placed : names.Placed routine.locals := by
    intro entry member
    obtain ⟨stack, slot, lives, found⟩ := compiled.argument_slot params rfl member
    exact ⟨slot, by rw [LocalMap.slot_eq lives, found]⟩
  have inside : ∀ id ∈ ids code, id ∈ ids routine.items := by
    intro id member
    rw [all]
    simp [member]
  have inner := (coded.refer ⟨_, _, _, body⟩ placed inside nofun).1
  rw [all] at inner ⊢
  simp only [refer_mark, refer_append]
  exact ⟨inner, closing.refer⟩

theorem Compiled.ends : ∃ last, routine.blocks.getLast? = some last ∧ last.endsFlow = true := by
  obtain ⟨mid, high, code, tail, all, -, closing⟩ := compiled.coded
  have ends := closing.ends_flow ⟨0, "entry"⟩
  rw [← all] at ends
  rcases eq_nil_or_concat routine.blocks with empty | ⟨before, last, split⟩
  · rw [Routine.items, empty] at ends
    cases ends
  · refine ⟨last, by simp [split], ?_⟩
    have nonempty : last.items ≠ [] := cons_ne_nil _ _
    rwa [Routine.items, split, concat_eq_append, flatMap_append, flatMap_singleton,
      ends_flow_append _ nonempty, Block.ends_flow_items] at ends

theorem Compiled.closed (elaborated : Elaborates symbols capacity source script) :
    routine.Closed := by
  have refer := compiled.refer elaborated
  refine ⟨compiled.labels_distinct, ?_, fun instruction member => ?_, fun table listed => ?_,
    compiled.ends⟩
  · obtain ⟨mid, high, code, tail, all, -⟩ := compiled.coded
    rw [Routine.items] at all
    cases split : routine.blocks with
    | nil =>
      rw [split] at all
      cases all
    | cons first rest =>
      rw [split] at all
      exact ⟨first, rest, rfl, congrArg Label.id (mark.inj (List.cons.inj all).1)⟩
  · have refers := refer instruction (Routine.mem_instructions.mp member)
    unfold Instruction.Refers at refers
    cases names : instruction.operand with
    | label target =>
      rw [names] at refers
      exact Routine.marks_of_mem_ids refers
    | localVar target =>
      rw [names] at refers
      exact refers
    | switch index =>
      rw [names] at refers
      obtain ⟨table, found, -⟩ := refers
      exact ⟨table, found⟩
    | int | long | text | bool | script => trivial
  · obtain ⟨index, known, same⟩ := mem_iff_getElem.mp listed
    obtain ⟨other, found, bound⟩ := refer _ (compiled.named index known)
    obtain rfl : table = other := by
      rw [getElem?_eq_getElem known, same] at found
      exact Option.some.inj found
    exact fun entry held => Routine.marks_of_mem_ids (bound entry held)

end

/-- The code of a checked script has everything that it names, and control never leaves it, as it
was generated and after any number of rounds of optimization. -/
theorem generate_contained (checked : source.check symbols capacity = (script, []))
    (generated : script.generate linkage = .ok routine) :
    routine.Contained ∧ ∀ bound, (routine.optimize bound).1.Contained := by
  have closed := (generate_compiled generated).closed (check_elaborates checked)
  exact ⟨closed.contained, fun bound => (closed.simplify Pass.all bound).contained⟩

/-- A choice inside a loop, with a word behind the end of the flow. -/
def choiceScript : Script :=
  let here : Span := .empty
  let note : Note := .ofSpan here
  let var : Expr := .localVar note ⟨"key", here⟩ none
  { annotations := []
    trigger := ⟨"proc", here⟩
    name := ⟨"choice", here⟩
    params := [⟨.int, ⟨"key", here⟩, here, none⟩]
    returns := .single .int
    inner := here
    body := [
      .whileLoop here (.binary note .greaterThan var (.int note 0))
        (.switch here .int var
          [.mk here here [.int note 1, .int note 2] [] [.return here [.int note 7],
            .continueLoop here], .mk here here [.int note 3] [] [.assign here [var] [.int note 2]]]
          (some (.mk here here [] [] [.breakLoop here])))]
    span := here }

/-- The code of the choice has a table and nine blocks, of which optimization drops one. -/
theorem generate_choice_contained :
    ∃ script routine, choiceScript.check .empty 5 = (script, []) ∧
    script.generate ⟨.empty, ⟨[]⟩⟩ = .ok routine ∧
      (routine.tables.length, routine.blocks.length, (routine.optimize 3).1.blocks.length) =
      (1, 9, 8) ∧
      routine.Contained ∧ (routine.optimize 3).1.Contained := by
  have checked : choiceScript.check .empty 5 = ((choiceScript.check .empty 5).1, []) := rfl
  have computed :
    (((choiceScript.check .empty 5).1.generate ⟨.empty, ⟨[]⟩⟩).toOption.map fun routine =>
      (routine.tables.length, routine.blocks.length, (routine.optimize 3).1.blocks.length)) =
        some (1, 9, 8) := by decide +kernel
  cases generated : (choiceScript.check .empty 5).1.generate ⟨.empty, ⟨[]⟩⟩ with
  | error fault =>
    rw [generated] at computed
    cases computed
  | ok routine =>
    rw [generated] at computed
    obtain ⟨contained, optimized⟩ := generate_contained checked generated
    exact ⟨_, routine, checked, generated, Option.some.inj computed, contained, optimized 3⟩

end Script

end TriggerScript
