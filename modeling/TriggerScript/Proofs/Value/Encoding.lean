import TriggerScript.Proofs.Data.Bytes
import TriggerScript.Value.Encoding

/-!
What encodings do to values.

An encoding writes so many bytes of an integer, and they denote it modulo what so many bytes can
count. So they tell the integer exactly if it lies in the range of a word of that width. A type is
written as its code, which tells the type, if the code is a byte.
-/

namespace TriggerScript

/-- The integer is one that a word of so many bytes holds, with a sign or without one. -/
def FitsWord (width : Nat) (number : Int) : Prop :=
  -2 ^ (8 * width - 1) ≤ number ∧ number ≤ 2 ^ (8 * width) - 1

instance (width : Nat) (number : Int) : Decidable (FitsWord width number) :=
  inferInstanceAs (Decidable (_ ∧ _))

namespace Encoding

/-- The number of bytes in an encoding for integers. -/
def width? : Encoding → Option Nat
  | .byte => some 1
  | .short => some 2
  | .tribyte => some 3
  | .int => some 4
  | .boolean | .long | .string | .type => none

variable {encoding : Encoding} {width : Nat}

theorem width_cases (wide : encoding.width? = some width) :
    width = 1 ∨ width = 2 ∨ width = 3 ∨ width = 4 := by
  cases encoding <;> cases wide <;> decide

theorem write_number (wide : encoding.width? = some width) (value : Value) :
    encoding.write? value = value.asInt?.map (narrow width) := by
  cases encoding <;> cases wide <;> rfl

theorem length_narrow (width : Nat) (number : Int32) : (narrow width number).length = width :=
  length_bigEndian _ _

/-- The bytes of an integer denote it modulo what they can count. -/
theorem of_big_endian_narrow (wide : encoding.width? = some width) (number : Int32) :
    (ofBigEndian (narrow width number) : Int) = number.toInt % 256 ^ width := by
  have divides : (256 ^ width : Int) ∣ 2 ^ 32 := by
    rcases width_cases wide with rfl | rfl | rfl | rfl <;> decide
  have unsigned : (number.toBitVec.toNat : Int) % 2 ^ 32 = number.toInt % 2 ^ 32 := by
    rw [← Int32.toInt_toBitVec, BitVec.toInt_eq_toNat_bmod]
    exact Int.bmod_emod.symm
  calc (ofBigEndian (narrow width number) : Int)
      = number.toBitVec.toNat % 256 ^ width := by
        rw [narrow, of_big_endian_big_endian]
        push_cast
        rfl
    _ = number.toBitVec.toNat % 2 ^ 32 % 256 ^ width := (Int.emod_emod_of_dvd _ divides).symm
    _ = number.toInt % 2 ^ 32 % 256 ^ width := by rw [unsigned]
    _ = number.toInt % 256 ^ width := Int.emod_emod_of_dvd _ divides

/-- An integer is what its bytes denote, with a sign or without one, exactly if it lies in their
range. -/
theorem fits_iff_denoted (wide : encoding.width? = some width) (number : Int32) :
    FitsWord width number.toInt ↔
      number.toInt = ofBigEndian (narrow width number) ∨
        number.toInt = Int.bmod (ofBigEndian (narrow width number)) (256 ^ width) := by
  rw [of_big_endian_narrow wide, FitsWord]
  generalize number.toInt = number
  rcases width_cases wide with rfl | rfl | rfl | rfl <;> (simp only [Int.bmod]; norm_num; omega)

end Encoding

/-! ### Codes of types -/

namespace Prim

/-- The type of a code. -/
def ofCode? (code : Nat) : Option Prim := all.find? fun prim => prim.code.toNat = code

theorem of_code_code (prim : Prim) : ofCode? prim.code.toNat = some prim := by
  cases prim <;> rfl

/-- The number of bytes in which integers of the type are written. -/
def width? (prim : Prim) : Option Nat := prim.encoding?.bind Encoding.width?

theorem encoding_of_width {prim : Prim} {width : Nat} (wide : prim.width? = some width) :
    ∃ encoding, prim.encoding? = some encoding ∧ encoding.width? = some width :=
  Option.bind_eq_some_iff.mp wide

end Prim

end TriggerScript
