/-!
Cutting a text at a character.
-/

namespace TriggerScript

/-- The pieces of a text between the places of a mark: one more than there are marks. -/
def splitAt (mark : Char) : List Char → List (List Char)
  | [] => [[]]
  | char :: rest =>
    if char = mark then [] :: splitAt mark rest
    else
      match splitAt mark rest with
      | [] => [[char]]
      | piece :: others => (char :: piece) :: others

end TriggerScript
