import Mathlib
import TriggerScript.Data.Bytes

/-!
Bytes and what they were written for.

A number is what the bytes of a word denote, as far as it fits the word. A text is what its bytes
spell in UTF-8, and none of them is zero unless the text has a zero character.
-/

namespace TriggerScript

/-! ### Numbers -/

theorem of_big_endian_append (front : List Byte) (last : Byte) :
    ofBigEndian (front ++ [last]) = 256 * ofBigEndian front + last.toNat := by
  simp [ofBigEndian, List.foldl_append]

theorem of_big_endian_big_endian (width value : Nat) :
    ofBigEndian (bigEndian width value) = value % 256 ^ width := by
  induction width generalizing value with
  | zero =>
    rw [Nat.pow_zero, Nat.mod_one]
    rfl
  | succ width ih =>
    rw [bigEndian, of_big_endian_append, ih, Nat.pow_succ', Nat.mod_mul, UInt8.toNat_ofNat']
    exact Nat.add_comm _ _

theorem of_big_endian_of_lt {width value : Nat} (fits : value < 256 ^ width) :
    ofBigEndian (bigEndian width value) = value := by
  rw [of_big_endian_big_endian, Nat.mod_eq_of_lt fits]

/-! ### Texts -/

theorem to_list_loop (bytes : ByteArray) (index : Nat) (done : List Byte) :
    ByteArray.toList.loop bytes index done = done.reverse ++ bytes.data.toList.drop index := by
  fun_induction ByteArray.toList.loop bytes index done with
  | case1 index done more ih =>
    have here : index < bytes.data.toList.length := by simpa using more
    have found : bytes.get! index = bytes.data.toList[index] := by
      simp [ByteArray.get!, getElem!_pos bytes.data index (by simpa using more)]
    rw [ih, found, List.drop_eq_getElem_cons here, List.reverse_cons, List.append_assoc]
    rfl
  | case2 index done stop =>
    have past : bytes.data.toList.length ≤ index := by simpa using stop
    rw [List.drop_eq_nil_of_le past, List.append_nil]

theorem utf8_eq_data (text : String) : utf8 text = text.toByteArray.data.toList := by
  rw [utf8, ByteArray.toList, to_list_loop]
  rfl

theorem utf8_eq_flat_map (text : String) :
    utf8 text = text.toList.flatMap String.utf8EncodeChar := by
  rw [utf8_eq_data, ← String.utf8Encode_toList]
  simp [List.utf8Encode]

theorem from_utf8_utf8 (text : String) : String.fromUTF8? (utf8 text).toByteArray = some text := by
  have same : (utf8 text).toByteArray = text.toByteArray := by
    apply ByteArray.ext
    apply Array.toList_inj.mp
    rw [List.toList_data_toByteArray, utf8_eq_data]
  rw [same, String.fromUTF8?, dif_pos text.isValidUTF8]
  rfl

theorem zero_not_mem_utf8_encode_char {char : Char} (other : char ≠ '\x00') :
    0 ∉ String.utf8EncodeChar char := by
  have positive : char.toNat ≠ 0 := fun zero => other (Char.toNat_inj.mp zero)
  unfold String.utf8EncodeChar
  change 0 ∉ (if char.toNat ≤ 0x7f then _ else _)
  split_ifs <;> simp [← UInt8.toNat_inj] <;> omega

theorem zero_not_mem_utf8 {text : String} (closed : '\x00' ∉ text.toList) : 0 ∉ utf8 text := by
  rw [utf8_eq_flat_map, List.mem_flatMap]
  rintro ⟨char, member, zero⟩
  refine zero_not_mem_utf8_encode_char ?_ zero
  rintro rfl
  exact closed member

end TriggerScript
