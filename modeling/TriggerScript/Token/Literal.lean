import TriggerScript.Text.Placed

/-!
Bodies of string literals.

`Literal.read` walks the characters behind an opening quote up to the end of the literal, resolving
escapes on the way. `decodeBody` resolves the escapes of a body whose ends are known and keeps the
place of each character; an escape stands where its backslash does.
-/

namespace TriggerScript

def unescape? : Char → Option Char
  | 'b' => some '\x08'
  | 't' => some '\t'
  | 'n' => some '\n'
  | 'f' => some '\x0c'
  | '"' => some '"'
  | '\\' => some '\\'
  | '<' => some '<'
  | '>' => some '>'
  | _ => none

inductive Ending where
  | closed
  /-- At the end of the line or of the text. -/
  | broken
  /-- At the mark that opens an interpolation. -/
  | opened
  deriving DecidableEq

structure Literal where
  /-- The characters, escapes resolved. -/
  content : List Char
  ending : Ending
  /-- What stands behind the piece. -/
  rest : List Placed
  /-- The offset behind each invalid escape. -/
  invalid : List Nat

namespace Literal

def push (char : Char) (literal : Literal) : Literal :=
  { literal with content := char :: literal.content }

def note (offset : Nat) (literal : Literal) : Literal :=
  { literal with invalid := offset :: literal.invalid }

/-- Read the piece of a literal at the front of a text that ends at `stop`. -/
def read (stop : Nat) : List Placed → Literal
  | [] => ⟨[], .broken, [], []⟩
  | first :: rest =>
    if first.char = '\n' then ⟨[], .broken, first :: rest, []⟩
    else if first.char = '"' then ⟨[], .closed, rest, []⟩
    else if first.char = '<' then ⟨[], .opened, rest, []⟩
    else if first.char = '\\' then
      match rest with
      | [] => ⟨[], .broken, [], [stop]⟩
      | letter :: rest =>
        match unescape? letter.char with
        | some char => push char (read stop rest)
        | none => note (Placed.offsetOr stop rest) (read stop rest)
    else push first.char (read stop rest)

theorem length_rest_read (stop : Nat) (content : List Placed) :
    (read stop content).rest.length ≤ content.length := by
  fun_induction read stop content <;> simp_all [push, note] <;> omega

end Literal

/-- Resolve the escapes of a body. Carriage returns and invalid escapes are dropped. -/
def decodeBody : List Placed → List Placed
  | [] => []
  | first :: rest =>
    if first.char = '\r' then decodeBody rest
    else if first.char = '\\' then
      match rest with
      | [] => []
      | letter :: rest =>
        match unescape? letter.char with
        | some char => ⟨first.offset, char⟩ :: decodeBody rest
        | none => decodeBody rest
    else first :: decodeBody rest

end TriggerScript
