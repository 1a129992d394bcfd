import TriggerScript.Json.Basic
import TriggerScript.Text.Span
import TriggerScript.Value.Encoding
import TriggerScript.Value.Ty

/-!
Values, types and places as JSON. A choice among several forms is an object whose only member is
named for the form.
-/

namespace TriggerScript

def Json.variant (name : String) (content : Json) : Json := .object [(name, content)]

def Span.toJson (span : Span) : Json :=
  .object [("start", .nat span.start), ("end", .nat span.stop)]

def Prim.toJson (prim : Prim) : Json := .text prim.tag

def Stack.tag : Stack → String
  | int => "Int"
  | string => "String"
  | long => "Long"

def Encoding.tag : Encoding → String
  | boolean => "Boolean"
  | byte => "Byte"
  | short => "Short"
  | tribyte => "Tribyte"
  | int => "Int"
  | long => "Long"
  | string => "String"
  | type => "Type"

def Ty.toJson : Ty → Json
  | .single prim => .variant "Primitive" prim.toJson
  | .tuple items => .variant "Tuple" (Json.ofList Prim.toJson items)

def Value.toJson : Value → Json
  | .int value => .variant "Int" (.int value.toInt)
  | .long value => .variant "Long" (.int value.toInt)
  | .text value => .variant "String" (.text value)
  | .bool value => .variant "Bool" (.bool value)
  | .type value => .variant "Type" value.toJson

end TriggerScript
