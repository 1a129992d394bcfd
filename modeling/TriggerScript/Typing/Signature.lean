import TriggerScript.Diagnostic
import TriggerScript.Symbol
import TriggerScript.Trigger

/-!
Signatures of scripts.

Every script of a batch is defined before any body is checked, so that a call finds its script
wherever that is declared.
-/

namespace TriggerScript

namespace Script

def signatureFaults (script : Script) (trigger : Trigger) : List Diagnostic :=
  (if !trigger.allowsParams && !script.params.isEmpty then
    [⟨.semantic (.paramsNotAllowed script.trigger.text), script.name.span⟩] else [])
  ++ (if !trigger.allowsReturns && !script.returns.flatten.isEmpty then
    [⟨.semantic (.returnsNotAllowed script.trigger.text), script.name.span⟩] else [])

/-- Define a script under its key. A script of no known trigger is not defined. -/
def define (triggers : Triggers) (table : SymbolTable) (script : Script) :
    SymbolTable × List Diagnostic :=
  match triggers.named? script.trigger.text with
  | none => (table, [⟨.semantic (.unresolvedTrigger script.trigger.text), script.trigger.span⟩])
  | some trigger =>
    let faults := script.signatureFaults trigger
    let defined :=
      table.defineScript script.trigger.text script.name.text script.paramTypes script.returns
    match defined with
    | some (_, table) => (table, faults)
    | none =>
      (table, faults ++
        [⟨.semantic (.duplicateScript script.trigger.text script.name.text), script.name.span⟩])

def defineAll (triggers : Triggers) (table : SymbolTable) :
    List Script → SymbolTable × List Diagnostic
  | [] => (table, [])
  | script :: rest =>
    let (table, faults) := script.define triggers table
    let (table, others) := defineAll triggers table rest
    (table, faults ++ others)

end Script

end TriggerScript
