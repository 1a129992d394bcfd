/-!
Reading of whole numbers.

Decimal numerals may carry a sign; hexadecimal numerals carry none. Both readers refuse an empty
run of digits and any character that is not a digit.
-/

namespace TriggerScript

def hexDigit? (char : Char) : Option Nat :=
  if char.isDigit then some (char.toNat - '0'.toNat)
  else if 'a' ≤ char && char ≤ 'f' then some (char.toNat - 'a'.toNat + 10)
  else if 'A' ≤ char && char ≤ 'F' then some (char.toNat - 'A'.toNat + 10)
  else none

def decimalDigit? (char : Char) : Option Nat :=
  if char.isDigit then some (char.toNat - '0'.toNat) else none

namespace Numeral

/-- The number that a run of digits denotes in a base, if every character is a digit. -/
def digits? (base : Nat) (digit? : Char → Option Nat) : List Char → Nat → Option Nat
  | [], value => some value
  | char :: rest, value =>
    match digit? char with
    | some digit => digits? base digit? rest (base * value + digit)
    | none => none

def decimal? (content : List Char) : Option Nat :=
  if content.isEmpty then none else digits? 10 decimalDigit? content 0

def hexadecimal? (content : List Char) : Option Nat :=
  if content.isEmpty then none else digits? 16 hexDigit? content 0

def signed? : List Char → Option Int
  | '-' :: rest => (decimal? rest).map fun value => -(value : Int)
  | '+' :: rest => (decimal? rest).map fun value => (value : Int)
  | content => (decimal? content).map fun value => (value : Int)

end Numeral

/-- The 32-bit number that a signed decimal denotes, if it is in range. -/
def decimal32? (content : List Char) : Option Int32 :=
  (Numeral.signed? content).bind fun value =>
    if Int32.minValue.toInt ≤ value && value ≤ Int32.maxValue.toInt then some (Int32.ofInt value)
    else none

def decimal64? (content : List Char) : Option Int64 :=
  (Numeral.signed? content).bind fun value =>
    if Int64.minValue.toInt ≤ value && value ≤ Int64.maxValue.toInt then some (Int64.ofInt value)
    else none

/-- The 32-bit number that a literal denotes: a signed decimal, or a hexadecimal whose digits spell
the two's complement. -/
def int32? : List Char → Option Int32
  | '0' :: 'x' :: digits | '0' :: 'X' :: digits =>
    (Numeral.hexadecimal? digits).bind fun value =>
      if value < UInt32.size then some (Int32.ofBitVec (BitVec.ofNat 32 value)) else none
  | content => decimal32? content

def int64? : List Char → Option Int64
  | '0' :: 'x' :: digits | '0' :: 'X' :: digits =>
    (Numeral.hexadecimal? digits).bind fun value =>
      if value < UInt64.size then some (Int64.ofBitVec (BitVec.ofNat 64 value)) else none
  | content => decimal64? content

end TriggerScript
