import TriggerScript.Script.Tree
import TriggerScript.Value.Json

/-!
Syntax trees of scripts as JSON.
-/

namespace TriggerScript

def Ident.toJson (name : Ident) : Json :=
  .object [("text", .text name.text), ("span", name.span.toJson)]

def Local.toJson (entry : Local) : Json :=
  .object [("id", .nat entry.id), ("name", .text entry.name), ("ty", entry.prim.toJson)]

def Operator.tag : Operator → String
  | or => "Or"
  | and => "And"
  | equals => "Equals"
  | notEquals => "NotEquals"
  | lessThan => "LessThan"
  | greaterThan => "GreaterThan"
  | lessThanOrEqual => "LessThanOrEqual"
  | greaterThanOrEqual => "GreaterThanOrEqual"
  | add => "Add"
  | sub => "Sub"
  | mul => "Mul"
  | div => "Div"
  | mod => "Mod"

namespace Expr

def node (note : Note) (form : Json) : Json :=
  .object [("kind", form), ("span", note.span.toJson), ("ty", note.ty.toJson)]

mutual

def toJson : Expr → Json
  | .int note value => node note (.variant "Int" (.int value.toInt))
  | .long note value => node note (.variant "Long" (.int value.toInt))
  | .text note value => node note (.variant "Str" (.text value))
  | .bool note value => node note (.variant "Bool" (.bool value))
  | .coordgrid note value => node note (.variant "Coordgrid" (.int value.toInt))
  | .null note => node note (.text "Null")
  | .localVar note name target =>
    node note (.variant "Local" (.object [
      ("name", name.toJson), ("local", Json.ofOption Local.toJson target)]))
  | .arrayElement note name index slot =>
    node note (.variant "ArrayElement" (.object [
      ("name", name.toJson), ("index", index.toJson), ("array", Json.ofOption .nat slot)]))
  | .global note name => node note (.variant "Global" (.object [("name", name.toJson)]))
  | .constant note name => node note (.variant "Constant" (.object [("name", name.toJson)]))
  | .bare note name config =>
    node note (.variant "Dynamic" (.object [
      ("name", name.toJson), ("config", Json.ofOption .nat config)]))
  | .command note name alternative args =>
    node note (.variant "Command" (.object [
      ("name", name.toJson), ("args", .list (toJsonAll args)), ("alternative", .bool alternative)]))
  | .call note trigger name args =>
    node note (.variant "Call" (.object [
      ("trigger", .text trigger), ("name", name.toJson), ("args", .list (toJsonAll args))]))
  | .emptyHook note => node note (.variant "Hook" .null)
  | .hook note name args =>
    node note (.variant "Hook" (.object [("name", name.toJson), ("args", .list (toJsonAll args))]))
  | .concat note parts => node note (.variant "Concat" (.list (toJsonAll parts)))
  | .calculation note inner => node note (.variant "Calc" inner.toJson)
  | .binary note operator left right =>
    node note (.variant "Binary" (.object [
      ("op", .text operator.tag), ("lhs", left.toJson), ("rhs", right.toJson)]))
  | .error note => node note (.text "Error")

def toJsonAll : List Expr → List Json
  | [] => []
  | expr :: rest => expr.toJson :: toJsonAll rest

end

end Expr

namespace Stmt

def node (span : Span) (form : Json) : Json := .object [("kind", form), ("span", span.toJson)]

def sequence (inner : Span) (body : List Json) : Json :=
  .object [("statements", .list body), ("span", inner.toJson)]

def branch (condition body otherwise : Json) : Json :=
  .variant "If" (.object [
    ("condition", condition), ("then_branch", body), ("else_branch", otherwise)])

mutual

def toJson : Stmt → Json
  | .block span inner body => node span (.variant "Block" (sequence inner (toJsonAll body)))
  | .ifThen span condition body => node span (branch condition.toJson body.toJson .null)
  | .ifElse span condition body otherwise =>
    node span (branch condition.toJson body.toJson otherwise.toJson)
  | .whileLoop span condition body =>
    node span (.variant "While" (.object [("condition", condition.toJson), ("body", body.toJson)]))
  | .continueLoop span => node span (.text "Continue")
  | .breakLoop span => node span (.text "Break")
  | .return span values => node span (.variant "Return" (.list (Expr.toJsonAll values)))
  | .declare span prim name init target =>
    node span (.variant "Declare" (.object [
      ("ty", prim.toJson), ("name", name.toJson), ("init", Json.ofOption Expr.toJson init),
      ("local", Json.ofOption Local.toJson target)]))
  | .declareArray span prim name size slot =>
    node span (.variant "DeclareArray" (.object [
      ("ty", prim.toJson), ("name", name.toJson), ("size", size.toJson),
      ("array", Json.ofOption .nat slot)]))
  | .assign span targets values =>
    node span (.variant "Assign" (.object [
      ("targets", .list (Expr.toJsonAll targets)), ("values", .list (Expr.toJsonAll values))]))
  | .switch span prim condition arms fallback =>
    node span (.variant "Switch" (.object [
      ("ty", prim.toJson), ("condition", condition.toJson), ("cases", .list (armsToJson arms)),
      ("default", fallbackToJson fallback)]))
  | .expr span value => node span (.variant "Expr" value.toJson)

def toJsonAll : List Stmt → List Json
  | [] => []
  | stmt :: rest => stmt.toJson :: toJsonAll rest

def armToJson : Arm → Json
  | .mk span inner keys values body =>
    .object [
      ("keys", .list (Expr.toJsonAll keys)), ("body", sequence inner (toJsonAll body)),
      ("span", span.toJson), ("key_values", Json.ofList (fun value => .int value.toInt) values)]

def armsToJson : List Arm → List Json
  | [] => []
  | arm :: rest => armToJson arm :: armsToJson rest

def fallbackToJson : Option Arm → Json
  | none => .null
  | some arm => armToJson arm

end

end Stmt

namespace Script

def remarkToJson (entry : Annotation) : Json :=
  .object [
    ("name", entry.name.toJson), ("value", .int entry.value.toInt), ("span", entry.span.toJson)]

def paramToJson (param : Param) : Json :=
  .object [
    ("ty", param.prim.toJson), ("name", param.name.toJson), ("span", param.span.toJson),
    ("local", Json.ofOption Local.toJson param.target)]

def toJson (script : Script) : Json :=
  .object [
    ("annotations", Json.ofList remarkToJson script.annotations),
    ("trigger", script.trigger.toJson), ("name", script.name.toJson),
    ("params", Json.ofList paramToJson script.params), ("returns", script.returns.toJson),
    ("body", Stmt.sequence script.inner (Stmt.toJsonAll script.body)),
    ("span", script.span.toJson)]

end Script

end TriggerScript
