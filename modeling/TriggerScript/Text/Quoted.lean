import TriggerScript.Text.Glyph

/-!
Quoted texts of listings and messages.

A quoted text stands between double quotes. Quote and backslash are escaped by a backslash, four
controls have a letter of their own, and whatever has no glyph is spelled by its code point in
hexadecimal.
-/

namespace TriggerScript

def Quoted.escape (char : Char) : List Char :=
  if char = '\x00' then ['\\', '0']
  else if char = '\t' then ['\\', 't']
  else if char = '\n' then ['\\', 'n']
  else if char = '\r' then ['\\', 'r']
  else if char = '"' then ['\\', '"']
  else if char = '\\' then ['\\', '\\']
  else if hasGlyph char then [char]
  else ['\\', 'u', '\x7b'] ++ Nat.toDigits 16 char.toNat ++ ['\x7d']

def quoted (text : String) : String :=
  String.ofList ('"' :: text.toList.flatMap Quoted.escape ++ ['"'])

end TriggerScript
