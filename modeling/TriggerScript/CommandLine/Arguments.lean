import TriggerScript.Project.Path

/-!
Arguments of the command line.

Options that concern every command may stand before its name or behind it, once in each place.
Behind two dashes everything is an operand.
-/

namespace TriggerScript

inductive Command where
  | compile (roots : List Path) (out : Option Path) (check : Bool)
  | tokens (file : Path)
  | code (file : Path)
  | init
  deriving DecidableEq

structure Invocation where
  command : Command
  settings : Option Path
  json : Bool
  deriving DecidableEq

namespace Arguments

/-- An operand, or an option with the text that goes with it. -/
inductive Part where
  | operand (text : String)
  | divider
  | settings (path : String)
  | out (path : String)
  | json
  | check
  | verbose
  | quiet
  deriving DecidableEq

namespace Part

def isOperand : Part → Bool
  | operand _ => true
  | _ => false

def isGeneral : Part → Bool
  | settings _ | json | verbose | quiet => true
  | _ => false

def operand? : Part → Option String
  | operand text => some text
  | _ => none

def settings? : Part → Option String
  | settings path => some path
  | _ => none

def out? : Part → Option String
  | out path => some path
  | _ => none

end Part

def valued? : String → Option (String → Part)
  | "--settings" => some .settings
  | "--out" => some .out
  | _ => none

/-- The option with its text in one word, divided by an equals sign. -/
def joined? (word : String) : Option Part :=
  let name := word.toList.takeWhile (· ≠ '=')
  match word.toList.drop name.length with
  | _ :: value => (valued? (String.ofList name)).map fun option => option (String.ofList value)
  | [] => none

def letters? : List Char → Option (List Part)
  | [] => some []
  | 'v' :: rest => (letters? rest).map fun parts => .verbose :: parts
  | 'q' :: rest => (letters? rest).map fun parts => .quiet :: parts
  | _ :: _ => none

def isOption (word : String) : Bool := word.startsWith "-" && word ≠ "-"

def single? (word : String) : Option (List Part) :=
  match word with
  | "--json" => some [.json]
  | "--check" => some [.check]
  | "--verbose" => some [.verbose]
  | "--quiet" => some [.quiet]
  | _ =>
    if !isOption word then some [.operand word]
    else if word.startsWith "--" then (joined? word).map fun part => [part]
    else letters? (word.toList.drop 1)

def parts? : List String → Option (List Part)
  | [] => some []
  | "--" :: rest => some (.divider :: rest.map .operand)
  | [word] => single? word
  | word :: value :: rest =>
    match valued? word with
    | some option =>
      if isOption value then none else (parts? rest).map fun parts => option value :: parts
    | none => do return (← single? word) ++ (← parts? (value :: rest))

def given (select : Part → Option String) (parts : List Part) : Option (Option Path) :=
  match parts.filterMap select with
  | [] => some none
  | [path] => if path.isEmpty then none else some (some ⟨path⟩)
  | _ => none

def isConsistent (parts : List Part) : Bool :=
  parts.count .json ≤ 1 && parts.count .check ≤ 1 && parts.count .quiet ≤ 1
    && !(parts.contains .verbose && parts.contains .quiet)

def command? (name : String) (operands : List String) (out : Option Path) (check : Bool) :
    Option Command :=
  match name, operands, out, check with
  | "compile", first :: rest, _, _ =>
    some (.compile ((first :: rest).map fun text => ⟨text⟩) out check)
  | "tokens", [file], none, false => some (.tokens ⟨file⟩)
  | "ir", [file], none, false => some (.code ⟨file⟩)
  | "init", [], none, false => some .init
  | _, _, _, _ => none

end Arguments

def Invocation.ofWords? (words : List String) : Option Invocation := do
  let parts ← Arguments.parts? words
  let before := parts.takeWhile fun part => !part.isOperand
  match parts.drop before.length with
  | .operand name :: behind =>
    let operands := behind.filterMap Arguments.Part.operand?
    if !before.all Arguments.Part.isGeneral || operands.contains "" then none
    if !Arguments.isConsistent before || !Arguments.isConsistent behind then none
    let usual ← Arguments.given Arguments.Part.settings? before
    let own ← Arguments.given Arguments.Part.settings? behind
    let out ← Arguments.given Arguments.Part.out? behind
    let command ← Arguments.command? name operands out (behind.contains .check)
    return ⟨command, own <|> usual, parts.contains .json⟩
  | _ => none

end TriggerScript
