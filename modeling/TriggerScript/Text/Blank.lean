/-!
White space.

`isBlank` is the property White_Space of the Unicode character database.
-/

namespace TriggerScript

def isBlank (char : Char) : Bool :=
  let code := char.toNat
  (9 ≤ code && code ≤ 13) || code == 0x20 || code == 0x85 || code == 0xA0 || code == 0x1680
    || (0x2000 ≤ code && code ≤ 0x200A) || code == 0x2028 || code == 0x2029 || code == 0x202F
    || code == 0x205F || code == 0x3000

def trimBlanks (content : List Char) : List Char :=
  ((content.dropWhile isBlank).reverse.dropWhile isBlank).reverse

end TriggerScript
