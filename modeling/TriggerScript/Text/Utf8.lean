import TriggerScript.Data.Bytes

/-!
Reading of UTF-8.

`decodeUtf8?` accepts well-formed byte strings only. `decodeUtf8Lossy` reads any byte string: each
longest run of bytes that begins a character but cannot complete it becomes one replacement
character.
-/

namespace TriggerScript

namespace Utf8

/-- What the bytes at the front of a byte string spell. -/
inductive Front where
  | stop
  /-- A character and the number of bytes behind its first one. -/
  | char (value : Char) (more : Nat)
  /-- A malformed run and the number of bytes behind its first one. -/
  | malformed (more : Nat)
  deriving DecidableEq

def isContinuation (byte : Byte) : Bool := 0x80 ≤ byte && byte ≤ 0xBF

def payload (byte : Byte) : Nat := byte.toNat - 0x80

/-- The bytes that may stand behind the first byte of a character of three or four bytes: the
shortest form is required, surrogates and numbers beyond the last code point are refused. -/
def isSecond (first second : Byte) : Bool :=
  if first = 0xE0 then 0xA0 ≤ second && second ≤ 0xBF
  else if first = 0xED then 0x80 ≤ second && second ≤ 0x9F
  else if first = 0xF0 then 0x90 ≤ second && second ≤ 0xBF
  else if first = 0xF4 then 0x80 ≤ second && second ≤ 0x8F
  else isContinuation second

def front : List Byte → Front
  | [] => .stop
  | first :: rest =>
    if first < 0x80 then .char (Char.ofNat first.toNat) 0
    else if 0xC2 ≤ first && first ≤ 0xDF then
      match rest with
      | second :: _ =>
        if isContinuation second then
          .char (Char.ofNat ((first.toNat - 0xC0) * 64 + payload second)) 1
        else .malformed 0
      | [] => .malformed 0
    else if 0xE0 ≤ first && first ≤ 0xEF then
      match rest with
      | second :: third :: _ =>
        if !isSecond first second then .malformed 0
        else if !isContinuation third then .malformed 1
        else
          .char (Char.ofNat (((first.toNat - 0xE0) * 64 + payload second) * 64 + payload third)) 2
      | [second] => if isSecond first second then .malformed 1 else .malformed 0
      | [] => .malformed 0
    else if 0xF0 ≤ first && first ≤ 0xF4 then
      match rest with
      | second :: third :: fourth :: _ =>
        if !isSecond first second then .malformed 0
        else if !isContinuation third then .malformed 1
        else if !isContinuation fourth then .malformed 2
        else
          .char
            (Char.ofNat ((((first.toNat - 0xF0) * 64 + payload second) * 64 + payload third) * 64
              + payload fourth))
            3
      | [second, third] =>
        if !isSecond first second then .malformed 0
        else if !isContinuation third then .malformed 1
        else .malformed 2
      | [second] => if isSecond first second then .malformed 1 else .malformed 0
      | [] => .malformed 0
    else .malformed 0

/-- The characters of a byte string, `none` in the place of each malformed run. -/
def decode (bytes : List Byte) : List (Option Char) :=
  match bytes with
  | [] => []
  | first :: rest =>
    match front (first :: rest) with
    | .stop => []
    | .char value more => some value :: decode (rest.drop more)
    | .malformed more => none :: decode (rest.drop more)
termination_by bytes.length
decreasing_by all_goals simp only [List.length_cons, List.length_drop]; omega

end Utf8

def decodeUtf8? (bytes : List Byte) : Option String :=
  ((Utf8.decode bytes).mapM id).map String.ofList

def decodeUtf8Lossy (bytes : List Byte) : String :=
  String.ofList ((Utf8.decode bytes).map fun char => char.getD '\ufffd')

end TriggerScript
