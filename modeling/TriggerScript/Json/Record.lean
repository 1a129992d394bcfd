import TriggerScript.Json.Basic

/-!
Reading records from JSON.

A record is an object with the fields it knows, each at most once, or a list with the values of its
fields in their order. Fields that a record does not know are passed over; what an absent field
means is for the record to say.
-/

namespace TriggerScript

namespace Json

def namedFields? (names : List String) (members : List (String × Json)) :
    Option (List (Option Json)) :=
  names.mapM fun name =>
    match members.filter fun entry => entry.1 = name with
    | [] => some none
    | [(_, value)] => some (some value)
    | _ => none

def fields? (names : List String) : Json → Option (List (Option Json))
  | .object members => namedFields? names members
  | .list items =>
    if items.length ≤ names.length then
      some (items.map some ++ List.replicate (names.length - items.length) none)
    else none
  | _ => none

def required {α : Type} (decode : Json → Option α) (field : Option Json) : Option α :=
  field.bind decode

def defaulted {α : Type} (default : α) (decode : Json → Option α) : Option Json → Option α
  | none => some default
  | some value => decode value

def nullable? {α : Type} (decode : Json → Option α) : Json → Option (Option α)
  | .null => some none
  | value => (decode value).map some

def asText? : Json → Option String
  | .text value => some value
  | _ => none

def asBool? : Json → Option Bool
  | .bool value => some value
  | _ => none

def asBounded? (least greatest : Int) : Json → Option Int
  | .int value => if least ≤ value && value ≤ greatest then some value else none
  | _ => none

def asBelow? (limit : Nat) (json : Json) : Option Nat :=
  (json.asBounded? 0 (limit - 1)).map Int.toNat

def asInt32? (json : Json) : Option Int32 :=
  (json.asBounded? Int32.minValue.toInt Int32.maxValue.toInt).map Int32.ofInt

def asList? {α : Type} (decode : Json → Option α) : Json → Option (List α)
  | .list items => items.mapM decode
  | _ => none

/-- Put a member in place of one of the same name, or behind the others. -/
def put {α : Type} (entries : List (String × α)) (name : String) (value : α) : List (String × α) :=
  if entries.any fun entry => entry.1 = name then
    entries.map fun entry => if entry.1 = name then (name, value) else entry
  else
    entries ++ [(name, value)]

/-- The members of an object as entries by name. Of members of one name the last counts. -/
def asEntries? {α : Type} (decode : Json → Option α) : Json → Option (List (String × α))
  | .object members =>
    members.foldlM (fun entries (name, value) => (decode value).map (put entries name)) []
  | _ => none

/-- A word of a fixed list, also as the only member of an object, with null for its value. -/
def asChoice? {α : Type} (words : List (String × α)) : Json → Option α
  | .text word => words.lookup word
  | .object [(word, .null)] => words.lookup word
  | _ => none

end Json

end TriggerScript
