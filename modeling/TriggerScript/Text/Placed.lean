import TriggerScript.Text.Span

/-!
Characters with the byte offset at which they are written.

Scanners read lists of such characters, so that a phrase of an embedded text keeps its place in the
text around it.
-/

namespace TriggerScript

structure Placed where
  offset : Nat
  char : Char
  deriving DecidableEq, Inhabited

namespace Placed

def ofList (offset : Nat) : List Char → List Placed
  | [] => []
  | char :: rest => ⟨offset, char⟩ :: ofList (offset + char.utf8Size) rest

def ofText (source : String) : List Placed := ofList 0 source.toList

def chars (text : List Placed) : List Char := text.map Placed.char

def text (content : List Placed) : String := String.ofList (chars content)

/-- The offset at which the first character is written, or `stop` past the last one. -/
def offsetOr (stop : Nat) : List Placed → Nat
  | [] => stop
  | first :: _ => first.offset

theorem chars_ofList (offset : Nat) (content : List Char) :
    chars (ofList offset content) = content := by
  induction content generalizing offset with
  | nil => rfl
  | cons char rest ih => simpa [chars, ofList] using ih (offset + char.utf8Size)

end Placed

/-- The characters between two byte offsets, if both fall between characters of the source. -/
def slice (source : String) (span : Span) : Option (List Placed) :=
  let content := Placed.ofText source
  let isBoundary (offset : Nat) : Bool :=
    offset == source.utf8ByteSize || content.any (fun placed => placed.offset == offset)
  if span.start ≤ span.stop && isBoundary span.start && isBoundary span.stop then
    some (content.filter fun placed => span.start ≤ placed.offset && placed.offset < span.stop)
  else
    none

def lineColumn (source : String) (offset : Nat) : Nat × Nat :=
  ((Placed.ofText source).takeWhile (fun placed => placed.offset < offset)).foldl
    (fun (line, column) placed =>
      if placed.char = '\n' then (line + 1, 1) else (line, column + 1))
    (1, 1)

end TriggerScript
