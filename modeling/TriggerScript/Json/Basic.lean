/-!
JSON values.

Whole numbers that fit a word of 64 bits are kept exactly; of any other number only its presence
matters. The members of an object keep the order in which they are written. A text may also spell
what no value can hold; that is `broken`, which can be passed over but not used.
-/

namespace TriggerScript

inductive Json where
  | null
  | bool (value : Bool)
  | int (value : Int)
  | real
  /-- What is well formed but holds no value. -/
  | broken
  | text (value : String)
  | list (items : List Json)
  | object (members : List (String × Json))
  deriving Inhabited

namespace Json

def nat (value : Nat) : Json := .int value

def ofOption {α : Type} (encode : α → Json) : Option α → Json
  | none => .null
  | some value => encode value

def ofList {α : Type} (encode : α → Json) (items : List α) : Json := .list (items.map encode)

mutual

def isSound : Json → Bool
  | .broken => false
  | .list items => areSound items
  | .object members => areSoundMembers members
  | _ => true

def areSound : List Json → Bool
  | [] => true
  | item :: rest => isSound item && areSound rest

def areSoundMembers : List (String × Json) → Bool
  | [] => true
  | (_, value) :: rest => isSound value && areSoundMembers rest

end

end Json

end TriggerScript
