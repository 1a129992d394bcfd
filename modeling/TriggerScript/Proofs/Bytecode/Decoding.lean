import TriggerScript.Bytecode.Encode
import TriggerScript.Proofs.Data.Bytes
import TriggerScript.Proofs.Data.Checked

/-!
Reading bytecode back.

Instructions are written one behind the other without their lengths. So bytes are read from both
ends: the last two say how long the section of the tables is, the counts before that section have a
fixed size, and what is left is the name and as many instructions as were counted.
-/

namespace TriggerScript

open List ResolvedInstruction

/-- How the operand of an instruction is written. -/
inductive Form where
  | text
  | long
  /-- A number of four bytes. -/
  | wide
  /-- A number of one byte. -/
  | narrow
  deriving DecidableEq, Inhabited

namespace ResolvedInstruction

def form (instruction : ResolvedInstruction) : Form :=
  match instruction.operand with
  | .text _ => .text
  | .long _ => .long
  | .int _ => if instruction.large then .wide else .narrow

/-- The instruction as it is read: large unless its operand is a single byte. Texts and long numbers
have no other width, so that their mark is not written. -/
def marked (instruction : ResolvedInstruction) : ResolvedInstruction :=
  { instruction with large := instruction.form ≠ .narrow }

theorem marked_eq_self {instruction : ResolvedInstruction}
    (large : instruction.form ≠ .narrow → instruction.large = true) :
    instruction.marked = instruction := by
  obtain ⟨code, mark, operand⟩ := instruction
  cases operand with
  | text | long => simp_all [marked, form]
  | int => cases mark <;> simp [marked, form]

end ResolvedInstruction

/-! ### Readers -/

/-- Reading at the front of some bytes. -/
abbrev Reader := StateT (List Byte) Option

namespace Reader

variable {α β : Type}

def bytes (count : Nat) : Reader (List Byte) := fun input =>
  if count ≤ input.length then some (input.take count, input.drop count) else none

/-- A number in so many bytes. -/
def number (width : Nat) : Reader Nat := ofBigEndian <$> bytes width

/-- A text up to a zero byte. -/
def text : Reader String := fun input =>
  match input.span fun byte => byte ≠ 0 with
  | (_, []) => none
  | (front, _ :: rest) => (String.fromUTF8? front.toByteArray).map fun text => (text, rest)

/-- So many values one behind the other. -/
def many (reader : Reader α) : Nat → Reader (List α)
  | 0 => pure []
  | count + 1 => do
    let value ← reader
    (value :: ·) <$> many reader count

def word : Reader Int32 := (fun value => ⟨UInt32.ofNat value⟩) <$> number 4

/-- An operand of a given form. -/
def operand : Form → Reader ResolvedOperand
  | .text => .text <$> text
  | .long => (fun value => .long ⟨UInt64.ofNat value⟩) <$> number 8
  | .wide => .int <$> word
  | .narrow => (fun value => .int (Int32.ofNat value)) <$> number 1

def instruction (forms : UInt16 → Form) : Reader ResolvedInstruction := do
  let code := UInt16.ofNat (← number 2)
  (fun operand => ⟨code, forms code ≠ .narrow, operand⟩) <$> operand (forms code)

/-- A count for each stack, where there may be no stack of long integers. -/
def counts (supportsLong : Bool) : Reader StackCounts := do
  let int ← number 2
  let string ← number 2
  (fun long => ⟨int, string, long⟩) <$> if supportsLong then number 2 else pure 0

def entry : Reader (Int32 × Int32) := do return (← word, ← word)

def table : Reader JumpTable := do many entry (← number 2)

def tables : Reader (List JumpTable) := do many table (← number 1)

end Reader

namespace Bytecode

/-- Cut off so many bytes at the end. -/
def cutBack (count : Nat) (bytes : List Byte) : Option (List Byte × List Byte) :=
  if count ≤ bytes.length then
    some (bytes.take (bytes.length - count), bytes.drop (bytes.length - count))
  else none

/-- The bytes between the instructions and the tables. -/
def countsSize (supportsLong : Bool) : Nat := if supportsLong then 16 else 12

/-- The bytecode that some bytes spell, and the bytes left over between its parts. -/
def decode (forms : UInt16 → Form) (supportsLong : Bool) (bytes : List Byte) :
    Option (Bytecode × List Byte) := do
  let (bytes, extent) ← cutBack 2 bytes
  let (bytes, tables) ← cutBack (ofBigEndian extent) bytes
  let (code, counts) ← cutBack (countsSize supportsLong) bytes
  let (tables, tablesLeft) ← Reader.tables.run tables
  let (size, counts) ← (Reader.number 4).run counts
  let (locals, counts) ← (Reader.counts supportsLong).run counts
  let (params, countsLeft) ← (Reader.counts supportsLong).run counts
  let (name, code) ← Reader.text.run code
  let (instructions, codeLeft) ← ((Reader.instruction forms).many size).run code
  return (⟨name, instructions, params, locals, tables⟩, codeLeft ++ countsLeft ++ tablesLeft)

end Bytecode

/-! ### Reading what was written -/

namespace Reader

variable {α β : Type}

/-- The bytes are read as a value, whatever stands behind them. -/
def Reads (reader : Reader α) (bytes : List Byte) (value : α) : Prop :=
  ∀ rest, reader.run (bytes ++ rest) = some (value, rest)

theorem Reads.run_eq {reader : Reader α} {bytes : List Byte} (reads : reader.Reads bytes value) :
    reader.run bytes = some (value, []) := by
  simpa using reads []

theorem reads_pure (value : α) : Reads (pure value) [] value := fun _ => rfl

theorem Reads.bind {first : Reader α} {next : α → Reader β} (head : first.Reads front value)
    (tail : (next value).Reads back result) : (first >>= next).Reads (front ++ back) result := by
  intro rest
  rw [StateT.run_bind, append_assoc, head]
  exact tail rest

theorem Reads.map {reader : Reader α} {bytes : List Byte} (reads : reader.Reads bytes value)
    (convert : α → β) : (convert <$> reader).Reads bytes (convert value) := by
  intro rest
  rw [StateT.run_map, reads]
  rfl

theorem reads_bytes (front : List Byte) : (bytes front.length).Reads front front := by
  intro rest
  simp [bytes, StateT.run]

theorem reads_number (fits : value < 256 ^ width) :
    (number width).Reads (bigEndian width value) value := by
  have reads := (reads_bytes (bigEndian width value)).map ofBigEndian
  rwa [length_bigEndian, of_big_endian_of_lt fits] at reads

theorem reads_text {value : String} (closed : '\x00' ∉ value.toList) :
    text.Reads (terminated value) value := by
  intro rest
  have cut : (terminated value ++ rest).span (fun byte => byte ≠ 0) = (utf8 value, 0 :: rest) := by
    have plain : ∀ byte ∈ utf8 value, decide (byte ≠ 0) = true := by
      intro byte member
      rw [decide_eq_true_eq]
      rintro rfl
      exact zero_not_mem_utf8 closed member
    rw [span_eq_takeWhile_dropWhile, terminated, append_assoc,
      takeWhile_append_of_pos plain, dropWhile_append_of_pos plain]
    simp
  simp only [text, StateT.run, cut, from_utf8_utf8, Option.map_some]

theorem reads_many {reader : Reader α} (each : Forall₂ reader.Reads spelled values) :
    (reader.many values.length).Reads spelled.flatten values := by
  induction each with
  | nil => exact reads_pure []
  | cons head _ ih => exact head.bind (ih.map _)

theorem reads_word (value : Int32) : word.Reads (word32 value) value := by
  have fits : value.toBitVec.toNat < 256 ^ 4 := value.toBitVec.isLt
  have reads := (reads_number fits).map fun value => (⟨UInt32.ofNat value⟩ : Int32)
  simpa [word, word32] using reads

end Reader

namespace Bytecode

theorem field16_cases (written : field16 value quantity = .ok spelled) :
    spelled = bigEndian 2 value ∧ value < 256 ^ 2 := by
  unfold field16 at written
  split at written
  · rename_i fits
    exact ⟨(Except.ok.inj written).symm, fits⟩
  · cases written

theorem field32_cases (written : field32 value quantity = .ok spelled) :
    spelled = bigEndian 4 value ∧ value < 256 ^ 4 := by
  unfold field32 at written
  split at written
  · rename_i fits
    exact ⟨(Except.ok.inj written).symm, fits⟩
  · cases written

/-- No text holds the character that ends texts. -/
def NulFree (bytecode : Bytecode) : Prop :=
  '\x00' ∉ bytecode.name.toList ∧
    ∀ instruction ∈ bytecode.instructions, ∀ value, instruction.operand = .text value →
      '\x00' ∉ value.toList

/-- The codes of the instructions tell how their operands are written. -/
def HasForms (bytecode : Bytecode) (forms : UInt16 → Form) : Prop :=
  ∀ instruction ∈ bytecode.instructions, forms instruction.code = instruction.form

theorem reads_operand {instruction : ResolvedInstruction}
    (closed : ∀ value, instruction.operand = .text value → '\x00' ∉ value.toList)
    (written : operandBytes supportsLong instruction = .ok spelled) :
    (Reader.operand instruction.form).Reads spelled instruction.operand := by
  obtain ⟨code, large, operand⟩ := instruction
  unfold operandBytes at written
  cases operand with
  | text value =>
    obtain rfl := Except.ok.inj written
    exact (Reader.reads_text (closed value rfl)).map _
  | long value =>
    dsimp only at written
    split at written
    · obtain rfl := Except.ok.inj written
      have fits : value.toBitVec.toNat < 256 ^ 8 := value.toBitVec.isLt
      have reads := (Reader.reads_number fits).map fun value =>
        ResolvedOperand.long ⟨UInt64.ofNat value⟩
      simpa [Reader.operand, form, word64] using reads
    · cases written
  | int value =>
    dsimp only at written
    split at written
    · rename_i wide
      obtain rfl := Except.ok.inj written
      simpa [form, wide, Reader.operand] using (Reader.reads_word value).map ResolvedOperand.int
    · rename_i narrow
      split at written
      · rename_i small
        obtain rfl := Except.ok.inj written
        simp only [Bool.and_eq_true, decide_eq_true_eq, Int32.le_iff_toInt_le,
          Int32.lt_iff_toInt_lt, Int32.toInt_zero, Int32.reduceToInt] at small
        have fits : value.toInt.toNat < 256 ^ 1 := by omega
        have same : Int32.ofNat value.toInt.toNat = value := by
          apply Int32.toInt_inj.mp
          rw [Int32.toInt_ofNat_of_lt (by omega)]
          omega
        have reads := (Reader.reads_number fits).map fun value =>
          ResolvedOperand.int (Int32.ofNat value)
        rw [same] at reads
        simpa [form, narrow, Reader.operand, bigEndian] using reads
      · cases written

theorem reads_instruction {instruction : ResolvedInstruction}
    (closed : ∀ value, instruction.operand = .text value → '\x00' ∉ value.toList)
    (known : forms instruction.code = instruction.form)
    (written : instructionBytes supportsLong instruction = .ok spelled) :
    (Reader.instruction forms).Reads spelled instruction.marked := by
  obtain ⟨tail, operand, joined⟩ := bind_eq_ok.mp written
  obtain rfl := Except.ok.inj joined
  have fits : instruction.code.toNat < 256 ^ 2 := instruction.code.toNat_lt
  refine (Reader.reads_number fits).bind ?_
  dsimp only
  rw [UInt16.ofNat_toNat, known]
  exact (reads_operand closed operand).map _

theorem reads_counts {counts : StackCounts} (supported : supportsLong = false → counts.long = 0)
    (written : (counts.toList supportsLong).mapM (fun count => field16 count quantity) =
      .ok spelled) :
    (Reader.counts supportsLong).Reads spelled.flatten counts ∧
      2 * spelled.flatten.length + 4 = countsSize supportsLong := by
  obtain ⟨int, string, long⟩ := counts
  have fields := forall₂_of_mapM written
  cases supportsLong with
  | true =>
    match spelled, fields with
    | [_, _, _], .cons first (.cons second (.cons third .nil)) =>
      obtain ⟨rfl, fits⟩ := field16_cases first
      obtain ⟨rfl, fits'⟩ := field16_cases second
      obtain ⟨rfl, fits''⟩ := field16_cases third
      refine ⟨?_, by simp [countsSize]⟩
      simp only [flatten_cons, flatten_nil, append_nil]
      exact (Reader.reads_number fits).bind
        ((Reader.reads_number fits').bind ((Reader.reads_number fits'').map _))
  | false =>
    match spelled, fields with
    | [_, _], .cons first (.cons second .nil) =>
      obtain ⟨rfl, fits⟩ := field16_cases first
      obtain ⟨rfl, fits'⟩ := field16_cases second
      refine ⟨?_, by simp [countsSize]⟩
      obtain rfl : long = 0 := supported rfl
      exact (Reader.reads_number fits).bind
        ((Reader.reads_number fits').bind ((Reader.reads_pure 0).map _))

theorem reads_table (written : tableBytes table = .ok spelled) :
    Reader.table.Reads spelled table ∧ spelled.length = 2 + table.length * 8 := by
  obtain ⟨count, counted, joined⟩ := bind_eq_ok.mp written
  obtain rfl := Except.ok.inj joined
  obtain ⟨rfl, fits⟩ := field16_cases counted
  have entries :
    Forall₂ Reader.entry.Reads (table.map fun entry => word32 entry.1 ++ word32 entry.2) table := by
    rw [forall₂_map_left_iff, forall₂_same]
    intro entry _
    exact (Reader.reads_word entry.1).bind ((Reader.reads_word entry.2).map _)
  constructor
  · rw [flatMap_def]
    exact (Reader.reads_number fits).bind (Reader.reads_many entries)
  · simp [length_flatMap]

theorem reads_tables {tables : List JumpTable} {count : List Byte}
    (counted : tableCount tables = .ok count) (written : tables.mapM tableBytes = .ok spelled) :
    Reader.tables.Reads (count ++ spelled.flatten) tables ∧
      (count ++ spelled.flatten).length = sectionSize tables := by
  have each := forall₂_of_mapM written
  unfold tableCount at counted
  split at counted
  · rename_i few
    obtain rfl := Except.ok.inj counted
    have fits : tables.length < 256 ^ 1 := few
    have spells : Forall₂ Reader.table.Reads spelled tables :=
      each.flip.imp fun table bytes written => (reads_table written).1
    refine ⟨(Reader.reads_number fits).bind (Reader.reads_many spells), ?_⟩
    rw [length_append, length_singleton, sectionSize, length_flatten]
    congr 1
    clear written counted few fits spells
    induction each with
    | nil => rfl
    | cons head _ ih => rw [map_cons, sum_cons, total_cons, (reads_table head).2, ih]
  · cases counted

theorem cut_back_append (front : List Byte) {back : List Byte} {count : Nat}
    (counted : back.length = count) : cutBack count (front ++ back) = some (front, back) := by
  subst counted
  simp [cutBack]

/-- The bytecode as it is read. -/
def marked (bytecode : Bytecode) : Bytecode :=
  { bytecode with instructions := bytecode.instructions.map ResolvedInstruction.marked }

theorem encode_cases {bytecode : Bytecode} (encoded : bytecode.encode supportsLong = .ok bytes) :
    ∃ code locals params count tables,
      (supportsLong = false → bytecode.locals.long = 0 ∧ bytecode.params.long = 0) ∧
      bytecode.instructions.mapM (instructionBytes supportsLong) = .ok code ∧
      bytecode.instructions.length < 256 ^ 4 ∧
      (bytecode.locals.toList supportsLong).mapM (fun count => field16 count .locals) = .ok locals ∧
      (bytecode.params.toList supportsLong).mapM (fun count => field16 count .params) = .ok params ∧
      tableCount bytecode.tables = .ok count ∧ bytecode.tables.mapM tableBytes = .ok tables ∧
      sectionSize bytecode.tables < 256 ^ 2 ∧ bytes = (terminated bytecode.name ++ code.flatten) ++
        (bigEndian 4 bytecode.instructions.length ++ (locals.flatten ++ params.flatten)) ++
        (count ++ tables.flatten) ++ bigEndian 2 (sectionSize bytecode.tables) := by
  unfold encode at encoded
  split at encoded
  · cases encoded
  · rename_i supported
    simp only [bind_eq_ok] at encoded
    obtain ⟨code, coded, size, sized, locals, slots, params, arguments, count, counted, tables,
      tabled, extent, extended, joined⟩ := encoded
    obtain ⟨rfl, few⟩ := field32_cases sized
    obtain ⟨rfl, short⟩ := field16_cases extended
    refine ⟨code, locals, params, count, tables, ?_, coded, few, slots, arguments, counted, tabled,
      short, ?_⟩
    · rintro rfl
      simp at supported
      omega
    · rw [← Except.ok.inj joined]
      simp only [append_assoc]

theorem decode_bytes {bytecode : Bytecode} {bytes : List Byte}
    (encoded : bytecode.encode supportsLong = .ok bytes) (closed : bytecode.NulFree)
    (known : bytecode.HasForms forms) :
    decode forms supportsLong bytes = some (bytecode.marked, []) := by
  obtain ⟨code, locals, params, count, tables, supported, coded, few, slots, arguments, counted,
    tabled, short, rfl⟩ := encode_cases encoded
  obtain ⟨reads_locals, locals_length⟩ := reads_counts (fun none => (supported none).1) slots
  obtain ⟨reads_params, params_length⟩ := reads_counts (fun none => (supported none).2) arguments
  obtain ⟨reads_tables, tables_length⟩ := reads_tables counted tabled
  have counts_length : (bigEndian 4 bytecode.instructions.length ++
      (locals.flatten ++ params.flatten)).length = countsSize supportsLong := by
    simp only [length_append, length_bigEndian]
    omega
  have spells : Forall₂ (Reader.instruction forms).Reads code
      (bytecode.instructions.map ResolvedInstruction.marked) := by
    rw [forall₂_map_right_iff]
    have listed := (forall₂_and_left _ _).mpr ⟨fun _ member => member, forall₂_of_mapM coded⟩
    refine listed.flip.imp ?_
    rintro spelled instruction ⟨member, written⟩
    exact reads_instruction (closed.2 instruction member) (known instruction member) written
  have reads_code := Reader.reads_many spells
  rw [length_map] at reads_code
  simp only [decode, bind, Option.bind, cut_back_append _ (length_bigEndian 2 _),
    of_big_endian_of_lt short, cut_back_append _ tables_length, cut_back_append _ counts_length,
    reads_tables.run_eq, Reader.reads_number few _, reads_locals _, reads_params.run_eq,
    Reader.reads_text closed.1 _, reads_code.run_eq]
  rfl

/-- Bytecode can be read from its bytes, if its texts hold no zero character and if the code of an
instruction determines how the operand is written. Nothing is left over. The mark for a large
operand is not written for texts and long numbers, which have one width: they are read as large, and
nothing else may differ. -/
theorem decode_encode {bytecode : Bytecode} {supportsLong : Bool} {bytes : List Byte}
    (encoded : bytecode.encode supportsLong = .ok bytes) (closed : bytecode.NulFree)
    (uniform : ∀ first ∈ bytecode.instructions, ∀ second ∈ bytecode.instructions, first.code =
      second.code → first.form = second.form) :
    (∃ forms, bytecode.HasForms forms) ∧
      (∀ forms, bytecode.HasForms forms →
        decode forms supportsLong bytes = some (bytecode.marked, [])) ∧
      ((∀ instruction ∈ bytecode.instructions, instruction.form ≠ .narrow →
        instruction.large = true) →
        bytecode.marked = bytecode) := by
  refine ⟨exists_determined uniform, fun _ known => decode_bytes encoded closed known,
    fun large => ?_⟩
  have same : bytecode.instructions.map ResolvedInstruction.marked = bytecode.instructions :=
    (List.map_congr_left fun instruction member =>
      ResolvedInstruction.marked_eq_self (large instruction member)).trans (List.map_id _)
  rw [marked, same]

/-- Operands of every form, and a table. -/
def everyForm : Bytecode where
  name := "é"
  instructions :=
    [⟨0, true, .int (-2)⟩, ⟨3, true, .text "a"⟩, ⟨54, true, .long 5⟩, ⟨60, true, .int 0⟩,
    ⟨3, true, .text ""⟩, ⟨21, false, .int 255⟩]
  params := ⟨1, 0, 0⟩
  locals := ⟨1, 2, 258⟩
  tables := [[(4, 1), (-1, 2)]]

def everyFormBytes : List Byte := [
  0xc3, 0xa9, 0, 0, 0, 0xff, 0xff, 0xff, 0xfe, 0, 3, 97, 0, 0, 54, 0, 0, 0, 0, 0, 0, 0, 5, 0, 60, 0,
  0, 0, 0, 0, 3, 0, 0, 21, 0xff, 0, 0, 0, 6, 0, 1, 0, 2, 1, 2, 0, 1, 0, 0, 0, 0, 1, 0, 2, 0, 0, 0,
  4, 0, 0, 0, 1, 0xff, 0xff, 0xff, 0xff, 0, 0, 0, 2, 0, 19]

/-- The form of each code in that bytecode. -/
def everyFormForms (code : UInt16) : Form :=
  if code = 3 then .text else if code = 54 then .long else if code = 21 then .narrow else .wide

theorem decode_every_form : everyForm.encode true = .ok everyFormBytes ∧
      decode everyFormForms true everyFormBytes = some (everyForm, []) := by
  have encoded : everyForm.encode true = .ok everyFormBytes := by cbv
  have closed : everyForm.NulFree := by
    refine ⟨by decide, ?_⟩
    simp [everyForm]
  have known : everyForm.HasForms everyFormForms := by
    unfold HasForms
    decide
  obtain ⟨-, decoded, same⟩ := decode_encode encoded closed (by decide)
  refine ⟨encoded, ?_⟩
  rw [decoded everyFormForms known, same (by decide)]

end Bytecode

end TriggerScript
