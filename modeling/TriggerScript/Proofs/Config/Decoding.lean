import TriggerScript.Proofs.Bytecode.Decoding
import TriggerScript.Proofs.Config.Encoding

/-!
Reading records back.

A record has no lengths. What follows an opcode is known from the types that belong to it, and the
bytes of each type tell where they end. The zero behind the last property cannot be taken for an
opcode.
-/

namespace TriggerScript

/-- A value as its bytes tell it. Of an integer that is the remainder which the bytes denote. -/
inductive Datum where
  | remainder (number : Nat)
  | exact (value : Value)
  deriving DecidableEq

/-- What is left of a value that is written with a type. -/
def Datum.ofValue (prim : Prim) (value : Value) : Datum :=
  match prim.width?, value.asInt? with
  | some width, some number => .remainder (number.toInt % 256 ^ width).toNat
  | _, _ => .exact value

/-- A property as it is read. -/
structure ReadProperty where
  opcode : Byte
  values : List (Prim × Datum)
  deriving DecidableEq

def RecordProperty.types (property : RecordProperty) : List Prim := property.values.map Prod.fst

/-- What is left of a property that is written. -/
def RecordProperty.read (property : RecordProperty) : ReadProperty :=
  ⟨property.opcode, property.values.map fun (prim, value) => (prim, .ofValue prim value)⟩

/-! ### Readers -/

namespace Reader

def truth : Reader Bool := do
  match ← number 1 with
  | 0 => pure false
  | 1 => pure true
  | _ => failure

def prim : Reader Prim := do
  match Prim.ofCode? (← number 1) with
  | some prim => pure prim
  | none => failure

def datum : Encoding → Reader Datum
  | .boolean => (fun value => .exact (.bool value)) <$> truth
  | .byte => .remainder <$> number 1
  | .short => .remainder <$> number 2
  | .tribyte => .remainder <$> number 3
  | .int => .remainder <$> number 4
  | .long => (fun value => .exact (.long ⟨UInt64.ofNat value⟩)) <$> number 8
  | .string => (fun value => .exact (.text value)) <$> text
  | .type => (fun value => .exact (.type value)) <$> prim

/-- A value of each type, one behind the other. -/
def values : List Prim → Reader (List (Prim × Datum))
  | [] => pure []
  | prim :: rest =>
    match prim.encoding? with
    | none => failure
    | some encoding => do
      let value ← datum encoding
      ((prim, value) :: ·) <$> values rest

/-- Properties up to the zero behind them, fewer than so many. -/
def properties (layout : Byte → List Prim) : Nat → Reader (List ReadProperty)
  | 0 => failure
  | rounds + 1 => do
    let opcode := UInt8.ofNat (← number 1)
    if opcode = 0 then pure []
    else do
      let values ← values (layout opcode)
      (⟨opcode, values⟩ :: ·) <$> properties layout rounds

end Reader

namespace Record

/-- The properties at the front of some bytes, and the bytes behind them. There are no more
properties than bytes. -/
def decode (layout : Byte → List Prim) (bytes : List Byte) :
    Option (List ReadProperty × List Byte) :=
  (Reader.properties layout bytes.length).run bytes

/-- The opcodes of the record tell the types of the values behind them. -/
def HasLayout (record : Record) (layout : Byte → List Prim) : Prop :=
  ∀ property ∈ record.properties, layout property.opcode = property.types

/-- No text of the record holds the character that ends texts. -/
def NulFree (record : Record) : Prop :=
  ∀ property ∈ record.properties, ∀ prim text, (prim, .text text) ∈ property.values →
    '\x00' ∉ text.toList

end Record

/-! ### Reading what was written -/

namespace Reader

theorem reads_byte (byte : Byte) : (number 1).Reads [byte] byte.toNat := by
  have fits : byte.toNat < 256 ^ 1 := byte.toNat_lt
  have reads := reads_number fits
  rwa [show bigEndian 1 byte.toNat = [byte] by simp [bigEndian]] at reads

theorem reads_truth (value : Bool) : truth.Reads [if value then 1 else 0] value := by
  cases value with
  | true => exact (reads_byte 1).bind (reads_pure true)
  | false => exact (reads_byte 0).bind (reads_pure false)

theorem reads_prim {value : Prim} (small : value.code.toNat < 256) :
    prim.Reads [UInt8.ofNat value.code.toNat] value := by
  have reads := reads_byte (UInt8.ofNat value.code.toNat)
  rw [UInt8.toNat_ofNat', Nat.mod_eq_of_lt small] at reads
  have known : Reads (match Prim.ofCode? value.code.toNat with
      | some prim => pure prim
      | none => failure) [] value := by
    rw [Prim.of_code_code]
    exact reads_pure value
  exact reads.bind known

theorem reads_long (value : Int64) : (datum .long).Reads (word64 value) (.exact (.long value)) := by
  have fits : value.toBitVec.toNat < 256 ^ 8 := value.toBitVec.isLt
  have reads := (reads_number fits).map fun value => Datum.exact (.long ⟨UInt64.ofNat value⟩)
  simpa [datum, word64] using reads

/-- The bytes of an integer are read as its remainder. -/
theorem reads_remainder {encoding : Encoding} (wide : encoding.width? = some width)
    (value : Int32) :
    (datum encoding).Reads (Encoding.narrow width value)
    (.remainder (value.toInt % 256 ^ width).toNat) := by
  have reads := ((reads_bytes (Encoding.narrow width value)).map ofBigEndian).map Datum.remainder
  rw [Encoding.length_narrow] at reads
  rw [← Encoding.of_big_endian_narrow wide, Int.toNat_natCast]
  cases encoding <;> cases wide <;> exact reads

theorem reads_datum {prim : Prim} (encodes : prim.encoding? = some encoding)
    (closed : ∀ text, value = .text text → '\x00' ∉ text.toList)
    (written : encoding.write? value = some spelled) :
    (datum encoding).Reads spelled (.ofValue prim value) := by
  have wide : prim.width? = encoding.width? := by rw [Prim.width?, encodes, Option.bind_some]
  cases width : encoding.width? with
  | some count =>
    rw [Encoding.write_number width, Option.map_eq_some_iff] at written
    obtain ⟨number, integer, rfl⟩ := written
    rw [Datum.ofValue, wide, width, integer]
    exact reads_remainder width number
  | none =>
    have kept : Datum.ofValue prim value = .exact value := by rw [Datum.ofValue, wide, width]
    rw [kept]
    -- What is left are the encodings that take values of one sort only.
    cases encoding <;> cases width <;> cases value <;> try cases written
    case none.boolean.refl.bool.refl truth => exact (reads_truth truth).map _
    case none.long.refl.long.refl number => exact reads_long number
    case none.string.refl.text.refl text => exact (reads_text (closed text rfl)).map _
    case none.type.refl.type named =>
      rw [Encoding.write?] at written
      split at written
      case isTrue small =>
        cases written
        exact (reads_prim small).map _
      case isFalse => cases written

end Reader

namespace Record

variable {record : Record} {layout : Byte → List Prim} {bytes : List Byte}

theorem reads_values {name : String}
    (closed : ∀ prim text, (prim, .text text) ∈ entries → '\x00' ∉ text.toList)
    (written : List.Forall₂ (fun entry spelled => valueBytes name entry = .ok spelled) entries
      spelled) :
    (Reader.values (entries.map Prod.fst)).Reads spelled.flatten
      (entries.map fun (prim, value) => (prim, .ofValue prim value)) := by
  induction written with
  | nil => exact Reader.reads_pure []
  | @cons entry first rest later here _ ih =>
    obtain ⟨prim, value⟩ := entry
    obtain ⟨encoding, encodes, spells⟩ := value_bytes_eq_ok.mp here
    have head :=
      Reader.reads_datum encodes (fun text same => closed prim text (same ▸ List.mem_cons_self))
        spells
    have tail := ih fun prim text member => closed prim text (List.mem_cons_of_mem _ member)
    simp only [List.map_cons, List.flatten_cons, Reader.values, encodes]
    exact head.bind (tail.map _)

theorem reads_property {name : String} {property : RecordProperty} {properties : List ReadProperty}
    (opcode : property.opcode ≠ 0) (known : layout property.opcode = property.types)
    (closed : ∀ prim text, (prim, .text text) ∈ property.values → '\x00' ∉ text.toList)
    (written : propertyBytes name property = .ok spelled)
    (later : (Reader.properties layout rounds).Reads back properties) :
    (Reader.properties layout (rounds + 1)).Reads (spelled ++ back)
    (property.read :: properties) := by
  obtain ⟨values, spells, joined⟩ := bind_eq_ok.mp written
  cases joined
  have reads_values := reads_values closed (forall₂_of_mapM spells)
  have code := Reader.reads_byte property.opcode
  refine code.bind ?_
  dsimp only
  rw [UInt8.ofNat_toNat, if_neg opcode, known]
  exact reads_values.bind (later.map _)

theorem reads_properties {name : String} {properties : List RecordProperty}
    (opcodes : ∀ property ∈ properties, property.opcode ≠ 0)
    (known : ∀ property ∈ properties, layout property.opcode = property.types)
    (closed : ∀ property ∈ properties, ∀ prim text, (prim, .text text) ∈ property.values →
      '\x00' ∉ text.toList)
    (written : List.Forall₂ (fun property spelled => propertyBytes name property = .ok spelled)
      properties spelled)
    (enough : properties.length < rounds) :
    (Reader.properties layout rounds).Reads (spelled.flatten ++ [0])
    (properties.map RecordProperty.read) := by
  induction written generalizing rounds with
  | nil =>
    obtain ⟨rounds, rfl⟩ := Nat.exists_eq_succ_of_ne_zero (Nat.pos_iff_ne_zero.mp enough)
    exact (Reader.reads_byte 0).bind (Reader.reads_pure [])
  | @cons property first rest later here _ ih =>
    obtain ⟨rounds, rfl⟩ := Nat.exists_eq_succ_of_ne_zero (Nat.ne_of_gt (Nat.zero_lt_of_lt enough))
    rw [List.forall_mem_cons] at opcodes known closed
    rw [List.flatten_cons, List.append_assoc, List.map_cons]
    exact reads_property opcodes.1 known.1 closed.1 here
      (ih opcodes.2 known.2 closed.2 (Nat.lt_of_succ_lt_succ enough))

/-- Every property has a byte of its own at least. -/
theorem length_lt_of_encode (encoded : record.encode = .ok bytes) :
    record.properties.length < bytes.length := by
  obtain ⟨spelled, written, rfl⟩ := encode_cases encoded
  rw [List.length_append, List.length_singleton, Nat.lt_succ_iff]
  clear encoded
  generalize record.properties = properties at written ⊢
  induction written with
  | nil => exact le_rfl
  | @cons property first rest later here _ ih =>
    obtain ⟨values, _, joined⟩ := bind_eq_ok.mp here
    cases joined
    simp only [List.length_cons, List.flatten_cons, List.length_append]
    omega

/-- The properties of a record can be read from its bytes and no further, if no opcode is zero, if
opcodes determine the types behind them and if texts hold no zero character. -/
theorem decode_recovers (encoded : record.encode = .ok bytes)
    (opcodes : ∀ property ∈ record.properties, property.opcode ≠ 0)
    (uniform : ∀ first ∈ record.properties, ∀ second ∈ record.properties,
      first.opcode = second.opcode → first.types = second.types) (closed : record.NulFree) :
    (∃ layout, record.HasLayout layout) ∧ ∀ layout, record.HasLayout layout → ∀ rest,
        decode layout (bytes ++ rest) = some (record.properties.map RecordProperty.read, rest) := by
  refine ⟨exists_determined uniform, fun layout known rest => ?_⟩
  have enough : record.properties.length < (bytes ++ rest).length := by
    rw [List.length_append]
    exact Nat.lt_add_right _ (length_lt_of_encode encoded)
  obtain ⟨spelled, written, rfl⟩ := encode_cases encoded
  exact reads_properties opcodes known closed written enough rest

/-- Values in every encoding, a property without values and one that occurs twice. -/
def everyEncoding : Record := ⟨.obj, "every", [
  ⟨1, [(.boolean, .bool true), (.byte, .int 300), (.short, .int (-2)), (.tribyte, .int 66051)]⟩,
  ⟨2, []⟩,
  ⟨3, [(.int, .bool true), (.long, .long (-1)), (.string, .text "é"), (.type, .type .mapelement)]⟩,
  ⟨2, []⟩,
  ⟨1, [(.boolean, .bool false), (.byte, .int 0), (.short, .int 0), (.tribyte, .int 0)]⟩]⟩

def everyEncodingBytes : List Byte := [
  1, 1, 44, 0xff, 0xfe, 1, 2, 3, 2, 3, 0, 0, 0, 1, 0xff, 0xff, 0xff, 0xff, 0xff, 0xff, 0xff, 0xff,
  0xc3, 0xa9, 0, 0xb5, 2, 1, 0, 0, 0, 0, 0, 0, 0, 0]

def everyEncodingLayout (opcode : Byte) : List Prim :=
  if opcode = 1 then [.boolean, .byte, .short, .tribyte]
  else if opcode = 3 then [.int, .long, .string, .type]
  else []

theorem decode_every_encoding : everyEncoding.encode = .ok everyEncodingBytes ∧
      decode everyEncodingLayout (everyEncodingBytes ++ [7, 0]) = some ([
        ⟨1, [(.boolean, .exact (.bool true)), (.byte, .remainder 44), (.short, .remainder 65534),
          (.tribyte, .remainder 66051)]⟩, ⟨2, []⟩,
        ⟨3, [(.int, .remainder 1), (.long, .exact (.long (-1))), (.string, .exact (.text "é")),
          (.type, .exact (.type .mapelement))]⟩, ⟨2, []⟩,
        ⟨1, [(.boolean, .exact (.bool false)), (.byte, .remainder 0), (.short, .remainder 0),
          (.tribyte, .remainder 0)]⟩], [7, 0]) := by
  have encoded : everyEncoding.encode = .ok everyEncodingBytes := by cbv
  have closed : everyEncoding.NulFree := by
    simp [NulFree, everyEncoding]
  have known : everyEncoding.HasLayout everyEncodingLayout := by
    unfold HasLayout
    decide
  obtain ⟨-, decoded⟩ := decode_recovers encoded (by decide) (by decide) closed
  refine ⟨encoded, ?_⟩
  rw [decoded everyEncodingLayout known]
  decide

end Record

end TriggerScript
