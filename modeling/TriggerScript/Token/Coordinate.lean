import TriggerScript.Diagnostic
import TriggerScript.Text.Numeral
import TriggerScript.Text.Split

/-!
Coordinates.

A coordinate is written `level_x_y_tx_ty` and packed into one integer, the level in the highest
bits.
-/

namespace TriggerScript

namespace Coordinate

def component (literal : String) (component : CoordComponent) (piece : List Char) :
    Except GrammarFault Nat :=
  match decimal32? piece with
  | none => .error (.literalOutOfRange literal .coordgrid)
  | some value =>
    if 0 ≤ value.toInt && value.toInt ≤ component.limit then .ok value.toInt.toNat
    else .error (.coordgridRange component)

def pack (level squareX squareY tileX tileY : Nat) : Int32 :=
  Int32.ofNat (level <<< 28 ||| squareX <<< 20 ||| squareY <<< 14 ||| tileX <<< 6 ||| tileY)

def ofLiteral (literal : String) : Except GrammarFault Int32 :=
  match splitAt '_' literal.toList with
  | [level, squareX, squareY, tileX, tileY] => do
    let level ← component literal .level level
    let squareX ← component literal .squareX squareX
    let squareY ← component literal .squareY squareY
    let tileX ← component literal .tileX tileX
    let tileY ← component literal .tileY tileY
    return pack level squareX squareY tileX tileY
  | _ => .error .coordgridArity

end Coordinate

end TriggerScript
