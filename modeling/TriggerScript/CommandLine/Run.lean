import TriggerScript.CommandLine.Arguments
import TriggerScript.CommandLine.Report
import TriggerScript.Project.Files

/-!
The commands of the command line.

A command answers with lines for the output and for the log, and may fail; what it said before it
failed stays said.
-/

namespace TriggerScript

/-- What a run of the program leaves behind. -/
structure Response where
  exit : UInt32
  output : String
  log : String
  deriving DecidableEq

/-- What a command says: lines of the output, lines of the log, and why it failed. -/
structure Answer where
  output : List String
  log : List String
  failure : Option Failure

def Answer.fail (failure : Failure) : Answer := ⟨[], [], some failure⟩

def Answer.respond (answer : Answer) (json : Bool) : Response :=
  let (output, log) :=
    match answer.failure with
    | none => (answer.output, answer.log)
    | some failure =>
      if json then (answer.output ++ [failure.toJson.pretty], answer.log)
      else (answer.output, answer.log ++ ["Error: " ++ failure.message])
  let lines (content : List String) : String := String.join (content.map fun line => line ++ "\n")
  ⟨if answer.failure.isSome then 1 else 0, lines output, lines log⟩

namespace Invocation

variable {m : Type → Type} [Monad m] [FileStore m]

def onProject {α : Type} (action : ExceptT ProjectFault m α) : ExceptT Failure m α :=
  action.adapt Failure.project

def here : Path := ⟨"."⟩

def settingsPath (invocation : Invocation) : Path := invocation.settings.getD here.settingsFile

def loadCompiler (invocation : Invocation) : ExceptT Failure m Compiler := do
  let settings ← onProject (Project.loadSettings invocation.settingsPath)
  liftExcept ((Compiler.ofSettings settings).mapError Failure.settings)

/-- The sources under several roots, of which there has to be one. -/
def gather (compiler : Compiler) (roots : List Path) : ExceptT Failure m (List SourceFile) := do
  let files ← roots.mapM fun root => onProject (Project.loadSources compiler.accepts root)
  if files.flatten.isEmpty then throw .noSources else return files.flatten

/-- The failure of a compilation with faults: the first file that has some, and the count of all. -/
def compileFailure? (compilation : Compilation) : Option Failure :=
  (compilation.files.find? CompiledFile.hasFaults).map fun compiled =>
    .compile compiled.file.location compilation.faultCount

def runCompile (invocation : Invocation) (roots : List Path) (out : Option Path) (check : Bool) :
    ExceptT Failure m Answer := do
  let compiler ← invocation.loadCompiler
  let files ← gather compiler roots
  let compilation := compiler.compile ⟨files, !check, false⟩
  let written ←
    if !check && compilation.faultCount = 0 then
      onProject (Project.writeOutputs (out.getD here.outputFolder) compilation.artifacts)
    else pure 0
  let failure := compileFailure? compilation
  if invocation.json then
    return ⟨[(compilation.reportToJson written).pretty], [], failure⟩
  else
    return ⟨[compilation.summary written], compilation.diagnosticLines, failure⟩

def tokenLine (source : String) (token : Token) : String :=
  let (line, column) := lineColumn source token.span.start
  Nat.repr line ++ ":" ++ Nat.repr column ++ "\t" ++ token.kind.name ++ "\t" ++ token.text

def runTokens (invocation : Invocation) (path : Path) : ExceptT Failure m Answer := do
  let _ ← invocation.loadCompiler
  let file ← onProject (Project.readSource path)
  let source := decodeUtf8Lossy file.content
  let (tokens, behind) := (Scanner.ofText Vocabulary.scripts source 0).tokens
  let shown := tokens.takeWhile fun token => token.kind ≠ .eof
  return ⟨shown.map (tokenLine source), behind.faults.map fun fault => fault.render source, none⟩

def runCode (invocation : Invocation) (path : Path) : ExceptT Failure m Answer := do
  let compiler ← invocation.loadCompiler
  let file ← onProject (Project.readSource path)
  let compilation := compiler.compile ⟨[file], true, false⟩
  if invocation.json then
    return ⟨[(Json.ofList Routine.toJson compilation.routines).pretty], [], none⟩
  else
    return ⟨compilation.routines.map Routine.listing, compilation.diagnosticLines, none⟩

def runInit (invocation : Invocation) : ExceptT Failure m Answer := do
  let path := invocation.settingsPath
  match ← ExceptT.lift (FileStore.kind? path) with
  | some _ => throw (.occupied path)
  | none =>
    onProject (Project.saveSettings path Settings.default)
    return ⟨["Wrote " ++ path.text], [], none⟩

def run (invocation : Invocation) : m Response := do
  let action : ExceptT Failure m Answer :=
    match invocation.command with
    | .compile roots out check => invocation.runCompile roots out check
    | .tokens file => invocation.runTokens file
    | .code file => invocation.runCode file
    | .init => invocation.runInit
  match ← action.run with
  | .ok answer => return answer.respond invocation.json
  | .error failure => return (Answer.fail failure).respond invocation.json

end Invocation

def usage : String :=
  "Usage: rsc-cli [--settings PATH] [--json] [-v | -q] COMMAND\n\n"
    ++ "  compile PATH... [--out FOLDER] [--check]\n  tokens FILE\n  ir FILE\n  init\n"

def runWords {m : Type → Type} [Monad m] [FileStore m] (words : List String) : m Response :=
  match Invocation.ofWords? words with
  | some invocation => invocation.run
  | none => return ⟨2, "", usage⟩

end TriggerScript
