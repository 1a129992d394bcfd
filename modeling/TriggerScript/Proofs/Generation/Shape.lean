import TriggerScript.Code.Generation
import TriggerScript.Proofs.Generation.Items
import TriggerScript.Proofs.Script.Parts

/-!
The shape of generated code.

`Coded` relates a phrase of a script to the items that stand for it and to the numbers of the labels
that they bind, without reference to how the items are emitted. It speaks of the tables and locals
of the finished routine, so that the code of a phrase keeps its shape when more is emitted behind
it.
-/

namespace TriggerScript

/-- Instructions one behind the other. One that follows the end of the flow has a block of its
own. -/
inductive Laid : List Instruction → Nat → Nat → List Item → Prop where
  | nil : Laid [] count count []
  | here (later : Laid rest low high code) :
      Laid (instruction :: rest) low high (.op instruction :: code)
  | apart (later : Laid rest (low + 1) high code) :
      Laid (instruction :: rest) low high (.mark ⟨low, "unreachable"⟩ :: .op instruction :: code)

/-- The instruction that pushes a value. -/
def Value.instruction : Value → Instruction
  | .int value => .core .pushIntConstant (.int value)
  | .bool value => .core .pushIntConstant (.bool value)
  | .long value => .core .pushLongConstant (.long value)
  | .text value => .core .pushStringConstant (.text value)
  | .type prim => .core .pushIntConstant (.int (Int32.ofNat prim.code.toNat))

/-- What `null` is on a stack. -/
def Stack.null : Stack → Value
  | .int => .int (-1)
  | .string => .text ""
  | .long => .long (-1)

namespace Expr

/-- The value of the expression is a decision. -/
def isDecision : Expr → Bool
  | .binary _ operator _ _ => !operator.isArithmetic
  | _ => false

theorem to_nat_of_part_count {parts : List Expr} (fits : partCount? parts = some count) :
    count.toInt.toNat = parts.length := by
  unfold partCount? at fits
  split at fits
  · rename_i small
    obtain rfl := Option.some.inj fits
    have limit : Int32.maxValue.toInt = 2147483647 := by decide
    rw [limit] at small
    rw [Int32.toInt_ofNat_of_lt (by omega), Int.toNat_natCast]
  · cases fits

variable (linkage : Linkage) in
/-- The expression is made by one instruction from the values of its parts. -/
inductive Applies : Expr → List Expr → Instruction → Prop where
  | int {note : Note} : Applies (.int note value) [] (Value.int value).instruction
  | coordgrid {note : Note} : Applies (.coordgrid note value) [] (Value.int value).instruction
  | bool {note : Note} : Applies (.bool note value) [] (Value.bool value).instruction
  | long {note : Note} : Applies (.long note value) [] (Value.long value).instruction
  | text {note : Note} : Applies (.text note value) [] (Value.text value).instruction
  | null {note : Note} (typed : note.ty.prim? = some prim) (lives : prim.stack? = some stack) :
      Applies (.null note) [] stack.null.instruction
  | localVar {note : Note} (lives : target.prim.stack? = some stack) :
      Applies (.localVar note name (some target)) [] (.core (.pushLocal stack) (.localVar target))
  | arrayElement {note : Note} : Applies (.arrayElement note name index (some slot)) [index]
        (.core .pushArrayInt (.int (Int32.ofNat slot)))
  | global {note : Note} (found : linkage.symbols.global? name.text = some info) :
      Applies (.global note name) [] (.core info.domain.pushOpcode (.int info.id))
  | constant {note : Note} (found : linkage.symbols.constant? name.text = some info) :
      Applies (.constant note name) [] info.value.instruction
  | config {note : Note} {id : Nat} :
      Applies (.bare note name (some id)) [] (Value.int (Int32.ofNat id)).instruction
  | bare {note : Note} (found : linkage.symbols.command? name.text = some info) :
      Applies (.bare note name none) [] ⟨.command info.name info.opcode, .int (Value.ofBool false)⟩
  | command {note : Note} (found : linkage.symbols.command? name.text = some info) :
      Applies (.command note name alternative args) args
        ⟨.command info.name info.opcode, .int (Value.ofBool alternative)⟩
  | call {note : Note} (found : linkage.symbols.script? trigger name.text = some info)
      (callable : (linkage.triggers.named? trigger).bind Trigger.call = some kind) :
      Applies (.call note trigger name args) args
        (.core kind.opcode (.script trigger name.text (Int32.ofNat info.id)))
  | emptyHook {note : Note} : Applies (.emptyHook note) [] (Value.text "").instruction
  | concat {note : Note} {parts : List Expr} (fits : partCount? parts = some count) :
      Applies (.concat note parts) parts (.core .joinString (.int count))
  | arithmetic {note : Note} (computes : operator.isArithmetic = true) :
      Applies (.binary note operator left right) [left, right]
        (.core operator.arithmeticOpcode (.int 0))

theorem Applies.parts_eq (applies : Applies linkage expr args instruction) : expr.parts = args := by
  cases applies <;> rfl

/-- The instruction stores into the target. -/
inductive Stores (linkage : Linkage) : Expr → Instruction → Prop where
  | localVar {note : Note} (lives : target.prim.stack? = some stack) :
      Stores linkage (.localVar note name (some target))
        (.core (.popLocal stack) (.localVar target))
  | global {note : Note} (found : linkage.symbols.global? name.text = some info) :
      Stores linkage (.global note name) (.core info.domain.popOpcode (.int info.id))

end Expr

/-- A part of a script together with what its code is for. -/
inductive Phrase where
  | value (expr : Expr)
  | values (exprs : List Expr)
  | truth (expr : Expr) (ifTrue ifFalse : Label)
  | stmt (stmt : Stmt) (loop : Option LoopTargets)
  | stmts (body : List Stmt) (loop : Option LoopTargets)
  | arms (arms : List Arm) (loop : Option LoopTargets) (done : Label) (cases : List SwitchCase)

/-- A jump behind code, unless the flow has ended there. -/
def leaving (target : Label) (code : List Item) : List Item :=
  if Item.endsFlow code then [] else [.op (.core .branch (.label target))]

variable (linkage : Linkage) (tables : List SwitchTable) (locals : LocalMap) in
/-- The items that stand for a phrase, with labels numbered from one number up to another. -/
inductive Coded : Phrase → Nat → Nat → List Item → Prop where
  | apply (applies : expr.Applies linkage args instruction)
      (parts : Coded (.values args) low mid code) (placed : Laid [instruction] mid high tail) :
      Coded (.value expr) low high (code ++ tail)
  | calculation {inner : Expr} (part : Coded (.value inner) low high code) :
      Coded (.value (.calculation note inner)) low high code
  | hook (found : linkage.symbols.script? Expr.hookTrigger name.text = some info)
      (number : Laid [(Value.int (Int32.ofNat info.id)).instruction] low first head)
      (parts : Coded (.values args) first second code)
      (placed : Laid [(Value.text (Expr.hookSignature args)).instruction] second high tail) :
      Coded (.value (.hook note name args)) low high (head ++ code ++ tail)
  | decided (decides : expr.isDecision = true) (part : Coded
        (.truth expr ⟨low, "cond_true"⟩ ⟨low + 1, "cond_false"⟩) (low + 3) high code) :
      Coded (.value expr) low high (code ++ [.mark ⟨low, "cond_true"⟩,
        .op (Value.int 1).instruction,
          .op (.core .branch (.label ⟨low + 2, "cond_end"⟩)), .mark ⟨low + 1, "cond_false"⟩,
          .op (Value.int 0).instruction, .mark ⟨low + 2, "cond_end"⟩])
  | noValues : Coded (.values []) count count []
  | someValues (head : Coded (.value expr) low mid code)
      (others : Coded (.values rest) mid high tail) :
      Coded (.values (expr :: rest)) low high (code ++ tail)
  | tested (plain : expr.isDecision = false) (part : Coded (.value expr) low mid code)
      (placed : Laid [.core .branchIfTrue (.label ifTrue), .core .branch (.label ifFalse)] mid high
        tail) :
      Coded (.truth expr ifTrue ifFalse) low high (code ++ tail)
  | either (first : Coded (.truth left ifTrue ⟨low, "or_else"⟩) (low + 1) mid code)
      (second : Coded (.truth right ifTrue ifFalse) mid high tail) :
      Coded (.truth (.binary note .or left right) ifTrue ifFalse) low high
        (code ++ .mark ⟨low, "or_else"⟩ :: tail)
  | both (first : Coded (.truth left ⟨low, "and_next"⟩ ifFalse) (low + 1) mid code)
      (second : Coded (.truth right ifTrue ifFalse) mid high tail) :
      Coded (.truth (.binary note .and left right) ifTrue ifFalse) low high
        (code ++ .mark ⟨low, "and_next"⟩ :: tail)
  | compared (compares : (operator.isEquality || operator.isRelational) = true)
      (parts : Coded (.values [left, right]) low mid code)
      (placed : Laid [.core (operator.branchOpcode left.isLong) (.label ifTrue),
        .core .branch (.label ifFalse)]
        mid high tail) : Coded (.truth (.binary note operator left right) ifTrue ifFalse) low high
        (code ++ tail)
  | noStmts : Coded (.stmts [] loop) count count []
  | someStmts (head : Coded (.stmt stmt loop) low mid code)
      (others : Coded (.stmts rest loop) mid high tail) :
      Coded (.stmts (stmt :: rest) loop) low high (code ++ tail)
  | block {inner : Span} (part : Coded (.stmts body loop) low high code) :
      Coded (.stmt (.block span inner body) loop) low high code
  | ifThen {inner : List Item}
      (test : Coded (.truth condition ⟨low, "if_true"⟩ ⟨low + 1, "if_end"⟩) (low + 2) mid code)
      (part : Coded (.stmt body loop) mid high inner) :
      Coded (.stmt (.ifThen span condition body) loop) low high
        (code ++ .mark ⟨low, "if_true"⟩ :: (inner ++ [.mark ⟨low + 1, "if_end"⟩]))
  | ifElse {inner : List Item}
      (test : Coded (.truth condition ⟨low, "if_true"⟩ ⟨low + 1, "if_else"⟩) (low + 3) first code)
      (part : Coded (.stmt body loop) first second inner)
      (alternative : Coded (.stmt otherwise loop) second high other) :
      Coded (.stmt (.ifElse span condition body otherwise) loop) low high
        (code ++ .mark ⟨low, "if_true"⟩ :: (inner ++ leaving ⟨low + 2, "if_end"⟩ inner ++
          .mark ⟨low + 1, "if_else"⟩ :: (other ++ [.mark ⟨low + 2, "if_end"⟩])))
  | whileLoop {inner : List Item} (test : Coded
        (.truth condition ⟨low + 1, "while_body"⟩ ⟨low + 2, "while_end"⟩) (low + 3) mid code)
        (part : Coded
        (.stmt body (some ⟨⟨low, "while_start"⟩, ⟨low + 2, "while_end"⟩⟩)) mid high inner) :
      Coded (.stmt (.whileLoop span condition body) loop) low high
        (.mark ⟨low, "while_start"⟩ :: (code ++ .mark ⟨low + 1, "while_body"⟩ ::
          (inner ++ leaving ⟨low, "while_start"⟩ inner ++ [.mark ⟨low + 2, "while_end"⟩])))
  | continueLoop (placed : Laid [.core .branch (.label targets.again)] low high code) :
      Coded (.stmt (.continueLoop span) (some targets)) low high code
  | breakLoop (placed : Laid [.core .branch (.label targets.leave)] low high code) :
      Coded (.stmt (.breakLoop span) (some targets)) low high code
  | return (parts : Coded (.values values) low mid code)
      (placed : Laid [.core .returnFlow (.int 0)] mid high tail) :
      Coded (.stmt (.return span values) loop) low high (code ++ tail)
  | declare (lives : prim.stack? = some stack) (registered : (stack, target) ∈ locals.declared)
      (part : Coded (.value init) low mid code)
      (placed : Laid [.core (.popLocal stack) (.localVar target)] mid high tail) :
      Coded (.stmt (.declare span prim name (some init) (some target)) loop) low high (code ++ tail)
  | declareDefault (lives : prim.stack? = some stack)
      (registered : (stack, target) ∈ locals.declared)
      (starts : prim.default? = some value)
      (placed : Laid [value.instruction, .core (.popLocal stack) (.localVar target)] low high
        code) :
      Coded (.stmt (.declare span prim name none (some target)) loop) low high code
  | declareArray (part : Coded (.value size) low mid code)
      (placed : Laid [.core .defineArray (.int (Int32.ofNat (slot <<< 16 ||| prim.code.toNat)))] mid
        high tail) :
      Coded (.stmt (.declareArray span prim name size (some slot)) loop) low high (code ++ tail)
  | assignElement (parts : Coded (.values (index :: values)) low mid code)
      (placed : Laid [.core .popArrayInt (.int (Int32.ofNat slot))] mid high tail) :
      Coded (.stmt (.assign span [.arrayElement note name index (some slot)] values) loop) low high
        (code ++ tail)
  | assign (parts : Coded (.values values) low mid code)
      (stores : List.Forall₂ (Expr.Stores linkage) targets.reverse instructions)
      (placed : Laid instructions mid high tail) :
      Coded (.stmt (.assign span targets values) loop) low high (code ++ tail)
  | discarded (part : Coded (.value value) low mid code)
      (lives : List.Forall₂ (fun prim stack => prim.stack? = some stack) value.ty.flatten.reverse
        homes)
      (placed : Laid (homes.map fun stack => .core (.discard stack) (.int 0)) mid high tail) :
      Coded (.stmt (.expr span value) loop) low high (code ++ tail)
  | switch {inner : List Item} (part : Coded (.value condition) low first code)
      (chooses : Laid [.core .switch (.switch index)] first second choice)
      (skips : Laid [.core .branch (.label ⟨second, "switch_end"⟩)] (second + 1) third skip)
      (bodies : Coded (.arms arms loop ⟨second, "switch_end"⟩ cases) third high inner)
      (table : tables[index]? = some ⟨cases⟩) :
      Coded (.stmt (.switch span prim condition arms none) loop) low high
        (code ++ (choice ++ (skip ++ (inner ++ [.mark ⟨second, "switch_end"⟩]))))
  | switchDefault {inner : List Item} (part : Coded (.value condition) low first code)
      (chooses : Laid [.core .switch (.switch index)] first second choice)
      (skips : Laid [.core .branch (.label ⟨second + 1, "switch_default"⟩)] (second + 2) third skip)
      (bodies : Coded (.arms arms loop ⟨second, "switch_end"⟩ cases) third fourth inner)
      (fallback : Coded (.stmts body loop) fourth high other)
      (table : tables[index]? = some ⟨cases ++ [⟨[], ⟨second + 1, "switch_default"⟩⟩]⟩) : Coded
        (.stmt (.switch span prim condition arms (some (.mk here within keys values body))) loop)
        low high
        (code ++ (choice ++ (skip ++ (inner ++ .mark ⟨second + 1, "switch_default"⟩ ::
          (other ++ [.mark ⟨second, "switch_end"⟩])))))
  | noArms : Coded (.arms [] loop done []) count count []
  | someArms (part : Coded (.stmts body loop) (low + 1) mid code)
      (others : Coded (.arms rest loop done cases) mid high tail) : Coded
        (.arms (.mk here within keys values body :: rest) loop done
          (⟨values, ⟨low, "switch_case"⟩⟩ :: cases))
        low high (.mark ⟨low, "switch_case"⟩ :: (code ++ leaving done code ++ tail))

end TriggerScript
