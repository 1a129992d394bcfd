import TriggerScript.Json.Basic

/-!
Printing of JSON values.

`Json.compact` writes a value on one line, `Json.pretty` one item or member a line. In texts the
quote, the backslash and the controls are escaped and nothing else.
-/

namespace TriggerScript

namespace Json

def escape (char : Char) : String :=
  if char = '"' then "\\\""
  else if char = '\\' then "\\\\"
  else if char = '\n' then "\\n"
  else if char = '\r' then "\\r"
  else if char = '\t' then "\\t"
  else if char = '\x08' then "\\b"
  else if char = '\x0c' then "\\f"
  else if char.toNat < 0x20 then
    "\\u00"
      ++ String.ofList (Nat.toDigits 16 (char.toNat / 16) ++ Nat.toDigits 16 (char.toNat % 16))
  else String.singleton char

def quote (text : String) : String := "\"" ++ String.join (text.toList.map escape) ++ "\""

mutual

def compact : Json → String
  | .null => "null"
  | .bool value => if value then "true" else "false"
  | .int value => Int.repr value
  | .real => "0.0"
  | .broken => "null"
  | .text value => quote value
  | .list items => "[" ++ ",".intercalate (compactItems items) ++ "]"
  | .object members => "\x7b" ++ ",".intercalate (compactMembers members) ++ "\x7d"

def compactItems : List Json → List String
  | [] => []
  | item :: rest => compact item :: compactItems rest

def compactMembers : List (String × Json) → List String
  | [] => []
  | (name, value) :: rest => (quote name ++ ":" ++ compact value) :: compactMembers rest

end

def block (indent : Nat) (opening closing : String) (items : List String) : String :=
  let inner := "\n" ++ String.ofList (List.replicate (indent + 2) ' ')
  let outer := "\n" ++ String.ofList (List.replicate indent ' ')
  opening ++ inner ++ ("," ++ inner).intercalate items ++ outer ++ closing

mutual

def prettyAt (indent : Nat) : Json → String
  | .null => "null"
  | .bool value => if value then "true" else "false"
  | .int value => Int.repr value
  | .real => "0.0"
  | .broken => "null"
  | .text value => quote value
  | .list [] => "[]"
  | .list (first :: rest) => block indent "[" "]" (prettyItems (indent + 2) (first :: rest))
  | .object [] => "\x7b\x7d"
  | .object (first :: rest) =>
    block indent "\x7b" "\x7d" (prettyMembers (indent + 2) (first :: rest))

def prettyItems (indent : Nat) : List Json → List String
  | [] => []
  | item :: rest => prettyAt indent item :: prettyItems indent rest

def prettyMembers (indent : Nat) : List (String × Json) → List String
  | [] => []
  | (name, value) :: rest =>
    (quote name ++ ": " ++ prettyAt indent value) :: prettyMembers indent rest

end

def pretty (json : Json) : String := prettyAt 0 json

end Json

end TriggerScript
