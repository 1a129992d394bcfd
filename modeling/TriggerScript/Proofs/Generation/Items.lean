import TriggerScript.Code.Emission
import TriggerScript.Proofs.Execution.Basic

/-!
Code as one list.

The blocks of a routine, written one behind the other, are a list of labels and instructions. A
place in the code is what is left of that list, and falling into a block is going past its label.
Emitting code puts items behind those that are there.
-/

namespace TriggerScript

open List

inductive Item where
  | mark (label : Label)
  | op (instruction : Instruction)

namespace Item

/-- Control never goes on behind the last item. -/
def endsFlow (items : List Item) : Bool :=
  match items.getLast? with
  | some (.op instruction) => instruction.endsFlow
  | _ => false

/-- The numbers of the labels. -/
def ids : List Item → List Nat
  | [] => []
  | .mark label :: rest => label.id :: ids rest
  | .op _ :: rest => ids rest

@[simp] theorem ids_nil : ids [] = [] := rfl

@[simp] theorem ids_mark (label : Label) (rest : List Item) :
    ids (.mark label :: rest) = label.id :: ids rest := rfl

@[simp] theorem ids_op (instruction : Instruction) (rest : List Item) :
    ids (.op instruction :: rest) = ids rest := rfl

@[simp] theorem ids_append (first second : List Item) :
    ids (first ++ second) = ids first ++ ids second := by
  induction first with
  | nil => rfl
  | cons item rest ih => cases item <;> simp [ih]

theorem ids_instructions (instructions : List Instruction) : ids (instructions.map .op) = [] := by
  induction instructions with
  | nil => rfl
  | cons instruction rest ih => simpa using ih

theorem ends_flow_append_mark (items : List Item) (label : Label) :
    endsFlow (items ++ [.mark label]) = false := by
  simp [endsFlow]

theorem ends_flow_append_op (items : List Item) (instruction : Instruction) :
    endsFlow (items ++ [.op instruction]) = instruction.endsFlow := by
  simp [endsFlow]

theorem ends_flow_append (before : List Item) (nonempty : code ≠ []) :
    endsFlow (before ++ code) = endsFlow code := by
  obtain ⟨rest, last, rfl⟩ := (eq_nil_or_concat code).resolve_left nonempty
  rw [concat_eq_append, ← append_assoc]
  simp [endsFlow]

theorem ends_flow_append_eq (first second : List Item) :
    endsFlow (first ++ second) = if second = [] then endsFlow first else endsFlow second := by
  split
  · rename_i empty
    rw [empty, append_nil]
  · rename_i nonempty
    exact ends_flow_append first nonempty

/-- An item may stand behind another: behind the end of the flow only a label does. -/
def MayFollow : Item → Item → Prop
  | .op first, .op _ => first.endsFlow = false
  | _, _ => True

/-- No instruction stands behind the end of the flow. -/
def Tidy (items : List Item) : Prop := items.IsChain MayFollow

theorem tidy_append_mark (tidy : Tidy items) (label : Label) : Tidy (items ++ [.mark label]) := by
  refine isChain_append.mpr ⟨tidy, .singleton _, fun item _ next last => ?_⟩
  obtain rfl := Option.some.inj last
  cases item <;> trivial

theorem tidy_append_op (tidy : Tidy items) (goes_on : endsFlow items = false)
    (instruction : Instruction) : Tidy (items ++ [.op instruction]) := by
  refine isChain_append.mpr ⟨tidy, .singleton _, fun item last next first => ?_⟩
  obtain rfl := Option.some.inj first
  cases item with
  | mark => trivial
  | op => simpa [MayFollow, endsFlow, Option.mem_def.mp last] using goes_on

end Item

namespace Block

def items (block : Block) : List Item :=
  .mark block.label :: block.instructions.map .op

theorem ids_items (blocks : List Block) :
    Item.ids (blocks.flatMap items) = blocks.map fun block => block.label.id := by
  induction blocks with
  | nil => rfl
  | cons block rest ih =>
    rw [flatMap_cons, Item.ids_append, ih, items, Item.ids_mark, Item.ids_instructions,
      map_cons, cons_append, nil_append]

theorem ends_flow_items (block : Block) : Item.endsFlow block.items = block.endsFlow := by
  obtain ⟨label, instructions⟩ := block
  rcases eq_nil_or_concat instructions with rfl | ⟨rest, last, rfl⟩
  · rfl
  · have last_item : (⟨label, rest.concat last⟩ : Block).items =
        (.mark label :: rest.map .op) ++ [.op last] := by simp [Block.items]
    rw [last_item, Item.ends_flow_append_op]
    simp [Block.endsFlow]

end Block

namespace Position

/-- The place from which some items are left. -/
def ofItems : List Item → Position
  | [] => ⟨[], []⟩
  | .mark label :: rest => ⟨[], ⟨label, (ofItems rest).ahead⟩ :: (ofItems rest).behind⟩
  | .op instruction :: rest =>
    ⟨instruction :: (ofItems rest).ahead, (ofItems rest).behind⟩

theorem of_items_instructions (instructions : List Instruction) (rest : List Item) :
    ofItems (instructions.map .op ++ rest) = ⟨instructions ++ (ofItems rest).ahead,
      (ofItems rest).behind⟩ := by
  induction instructions with
  | nil => rfl
  | cons instruction others ih => rw [map_cons, cons_append, ofItems, ih]; rfl

theorem of_items_blocks (blocks : List Block) :
    ofItems (blocks.flatMap Block.items) = ⟨[], blocks⟩ := by
  induction blocks with
  | nil => rfl
  | cons block rest ih =>
    rw [flatMap_cons, Block.items, cons_append, ofItems, of_items_instructions, ih, append_nil]

theorem of_items_split (before after : List Item) (label : Label) :
    ∃ blocks, (ofItems (before ++ .mark label :: after)).behind =
      blocks ++ ⟨label, (ofItems after).ahead⟩ :: (ofItems after).behind := by
  induction before with
  | nil => exact ⟨[], rfl⟩
  | cons item rest ih =>
    obtain ⟨blocks, split⟩ := ih
    cases item with
    | mark other =>
      exact ⟨⟨other, (ofItems (rest ++ .mark label :: after)).ahead⟩ :: blocks,
        congrArg (List.cons _) split⟩
    | op instruction => exact ⟨blocks, split⟩

end Position

namespace Routine

/-- The code of a routine as one list. -/
def items (routine : Routine) : List Item := routine.blocks.flatMap Block.items

variable {σ : Type} {routine : Routine}

theorem entry_eq : routine.entry = .ofItems routine.items :=
  (Position.of_items_blocks routine.blocks).symm

theorem labels_distinct_iff : routine.LabelsDistinct ↔ (Item.ids routine.items).Nodup := by
  rw [LabelsDistinct, items, Block.ids_items]

theorem enter_label (distinct : routine.LabelsDistinct) {before after : List Item} {label : Label}
    (split : routine.items = before ++ .mark label :: after) :
    routine.enter? label = some (.ofItems after) := by
  obtain ⟨blocks, behind⟩ := Position.of_items_split before after label
  rw [← split, ← entry_eq] at behind
  have all : routine.blocks =
      blocks ++ ⟨label, (Position.ofItems after).ahead⟩ :: (Position.ofItems after).behind := behind
  unfold LabelsDistinct at distinct
  rw [all] at distinct
  rw [enter?, all]
  exact Block.seek_of_distinct distinct

theorem step_op (instruction : Instruction) (rest : List Item) (state : σ) :
    routine.step semantics (.running (.ofItems (.op instruction :: rest)) state) =
      match semantics.judge instruction state with
      | .stop ending final => .stopped ending final
      | .go choice next =>
        .resume (routine.follow instruction (.ofItems rest) choice) next := rfl

end Routine

namespace Emission

/-- The code emitted so far as one list. -/
def items (emission : Emission) : List Item := emission.blocks.flatMap Block.items

theorem items_eq (emission : Emission) :
    emission.items = emission.finished.flatMap Block.items ++ emission.current.items := by
  rw [items, blocks, flatMap_append, flatMap_singleton]

theorem items_bind (emission : Emission) (label : Label) :
    (emission.bind label).items = emission.items ++ [.mark label] := by
  simp [items, bind, blocks, Block.items]

theorem items_append (emission : Emission) (instruction : Instruction) :
    (emission.append instruction).items = emission.items ++ [.op instruction] := by
  simp [items, append, blocks, Block.items]

theorem ends_flow_eq (emission : Emission) :
    emission.current.endsFlow = Item.endsFlow emission.items := by
  rw [items_eq, Item.ends_flow_append _ (by simp [Block.items]), Block.ends_flow_items]

end Emission

end TriggerScript
