/-!
Causes for which a script cannot be written as bytecode.
-/

namespace TriggerScript

/-- An operand that names nothing. -/
inductive Dangling where
  | label (display : String)
  | localSlot (name : String)
  | switch (index : Nat)
  deriving DecidableEq

def Dangling.display : Dangling → String
  | label text => "label " ++ text
  | localSlot name => "local $" ++ name
  | switch index => "switch table " ++ Nat.repr index

/-- A count or distance with a field of fixed width in the bytecode. -/
inductive Quantity where
  | jump
  | slot
  | switchIndex
  | instructions
  | locals
  | params
  | switchEntries
  | switchSection
  deriving DecidableEq

def Quantity.display : Quantity → String
  | jump => "jump offset"
  | slot => "local slot"
  | switchIndex => "switch index"
  | instructions => "instruction count"
  | locals => "local count"
  | params => "parameter count"
  | switchEntries => "switch table entries"
  | switchSection => "switch section"

inductive WriteFault where
  /-- An operand names a label, local or switch table that does not exist. -/
  | unresolved (operand : Dangling)
  /-- The target runtime has no stack of long integers. -/
  | longUnsupported
  | outOfRange (code : UInt16) (value : Int32)
  /-- More switch tables than one byte can count. -/
  | tooManySwitchTables (count : Nat)
  /-- A count or distance does not fit its field. -/
  | tooLarge (quantity : Quantity)
  deriving DecidableEq

def WriteFault.message : WriteFault → String
  | unresolved operand => "Unresolved operand: " ++ operand.display
  | longUnsupported => "Long operands are not supported by the target runtime"
  | outOfRange code value =>
    "Operand " ++ Int.repr value.toInt ++ " of " ++ Nat.repr code.toNat
      ++ " does not fit in one byte"
  | tooManySwitchTables count => "Too many switch tables: " ++ Nat.repr count
  | tooLarge quantity => "Script is too large: " ++ quantity.display

end TriggerScript
