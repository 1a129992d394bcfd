import TriggerScript.Code.Opcode
import TriggerScript.Token.Vocabulary

/-!
Triggers.

A trigger is what starts a script. It may have an operator by which scripts call those of the
trigger. Three triggers always exist; settings add others or replace them by name.
-/

namespace TriggerScript

inductive CallKind where
  /-- Control comes back to the caller. -/
  | gosub
  | jump
  deriving DecidableEq

def CallKind.opcode : CallKind → Opcode
  | gosub => .gosubWithParams
  | jump => .jumpWithParams

structure Trigger where
  name : String
  operator : Option TokenKind
  call : Option CallKind
  allowsParams : Bool
  allowsReturns : Bool
  deriving DecidableEq

/-- A trigger as settings describe it: its operator is a text. -/
structure TriggerSettings where
  name : String
  operator : Option String
  call : Option CallKind
  params : Bool
  returns : Bool
  deriving DecidableEq

inductive TriggerFault where
  | operatorLength (trigger : String)
  | unknownOperator (trigger operator : String)
  | reusedOperator (trigger : String)
  deriving DecidableEq

def TriggerFault.message : TriggerFault → String
  | operatorLength trigger => "Trigger '" ++ trigger ++ "' operator must be a single character"
  | unknownOperator trigger operator =>
    "Trigger '" ++ trigger ++ "' uses an unknown operator '" ++ operator ++ "'"
  | reusedOperator trigger => "Trigger '" ++ trigger ++ "' reuses an operator"

/-- The known triggers, in the order in which their names were first registered. -/
structure Triggers where
  entries : List Trigger

namespace Triggers

/-- Register a trigger in place of one of the same name, or behind the others. -/
def register (triggers : Triggers) (trigger : Trigger) : Triggers :=
  if triggers.entries.any fun entry => entry.name = trigger.name then
    ⟨triggers.entries.map fun entry => if entry.name = trigger.name then trigger else entry⟩
  else
    ⟨triggers.entries ++ [trigger]⟩

def named? (triggers : Triggers) (name : String) : Option Trigger :=
  triggers.entries.find? fun trigger => trigger.name = name

def withOperator? (triggers : Triggers) (kind : TokenKind) : Option Trigger :=
  triggers.entries.find? fun trigger => trigger.operator = some kind

def builtin : Triggers := ⟨[
  ⟨"proc", some .tilde, some .gosub, true, true⟩,
  ⟨"label", some .atSign, some .jump, true, false⟩,
  ⟨"clientscript", none, none, true, false⟩]⟩

def operatorToken (vocabulary : Vocabulary) (trigger text : String) :
    Except TriggerFault TokenKind :=
  match text.toList with
  | [char] =>
    match vocabulary.separator? char with
    | some kind => .ok kind
    | none => .error (.unknownOperator trigger text)
  | _ => .error (.operatorLength trigger)

/-- Register a described trigger. No two triggers share an operator. -/
def add (vocabulary : Vocabulary) (triggers : Triggers) (settings : TriggerSettings) :
    Except TriggerFault Triggers := do
  let operator ← settings.operator.mapM (operatorToken vocabulary settings.name)
  if operator.any fun kind => (triggers.withOperator? kind).isSome then
    throw (.reusedOperator settings.name)
  else
    return triggers.register
      ⟨settings.name, operator, settings.call, settings.params, settings.returns⟩

def ofSettings (vocabulary : Vocabulary) (settings : List TriggerSettings) :
    Except TriggerFault Triggers :=
  settings.foldlM (add vocabulary) builtin

end Triggers

end TriggerScript
