import TriggerScript.Text.Numeral

/-!
Magnitudes of JSON numbers.

A number is taken as a significand of 64 bits times a power of ten. Both factors are rounded to the
53 bits of a floating-point number, and the number is beyond range if their product rounds to
infinity.
-/

namespace TriggerScript

/-- A significand and the power of ten that it is multiplied by. -/
structure Magnitude where
  significand : Nat
  exponent : Int
  deriving DecidableEq

namespace Magnitude

def zero : Magnitude := ⟨0, 0⟩

def extended? (magnitude : Magnitude) (digit : Char) : Option Nat :=
  let significand := 10 * magnitude.significand + (digit.toNat - '0'.toNat)
  if significand < UInt64.size then some significand else none

/-- One more digit before the point. Once a digit was dropped, so are those behind it. -/
def appendWhole (magnitude : Magnitude) (digit : Char) : Magnitude :=
  if magnitude.exponent = 0 then
    match magnitude.extended? digit with
    | some significand => ⟨significand, 0⟩
    | none => ⟨magnitude.significand, 1⟩
  else ⟨magnitude.significand, magnitude.exponent + 1⟩

/-- The digits behind the point, up to the first that does not fit. -/
def appendFraction (magnitude : Magnitude) : List Char → Magnitude
  | [] => magnitude
  | digit :: rest =>
    match magnitude.extended? digit with
    | some significand => appendFraction ⟨significand, magnitude.exponent - 1⟩ rest
    | none => magnitude

/-- The magnitude of a number by its digits before and behind the point and its exponent. -/
def ofParts (whole fraction : List Char) (exponent : Int) : Magnitude :=
  let magnitude := (whole.foldl appendWhole zero).appendFraction fraction
  ⟨magnitude.significand, magnitude.exponent + exponent⟩

/-- The nearest number of at most 53 significant bits, the even one of two that are equally near. -/
def rounded (value : Nat) : Nat :=
  let dropped := value.log2 + 1 - 53
  let kept := value >>> dropped
  let rest := value - (kept <<< dropped)
  let half := (1 <<< dropped) / 2
  if dropped = 0 then value
  else if half < rest || (half = rest && kept % 2 = 1) then (kept + 1) <<< dropped
  else kept <<< dropped

/-- The largest power of ten that is a finite floating-point number. -/
def maxPower : Nat := 308

def limit : Nat := (1 <<< 1024) - (1 <<< 970)

def isBeyond (magnitude : Magnitude) : Bool :=
  magnitude.significand ≠ 0 && 0 ≤ magnitude.exponent
    && (maxPower < magnitude.exponent
      || limit ≤ rounded magnitude.significand * rounded (Nat.pow 10 magnitude.exponent.toNat))

/-- The range ends between `1.79e308` and `1.8e308`. -/
example :
    (ofParts ['1'] ['7', '9'] 308).isBeyond = false
      ∧ (ofParts ['1'] ['8'] 308).isBeyond = true := by
  decide +kernel

end Magnitude

end TriggerScript
