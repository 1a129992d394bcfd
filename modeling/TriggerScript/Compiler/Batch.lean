import TriggerScript.Bytecode.Encode
import TriggerScript.Code.Optimization
import TriggerScript.Compiler.Draft
import TriggerScript.Config.Record
import TriggerScript.Data.Checksum

/-!
Compiling a batch of files.

The files of a batch share one table of symbols. Code is made only for files without faults; a
declaration for which that fails adds a fault and has no result.
-/

namespace TriggerScript

structure Batch where
  files : List SourceFile
  /-- Whether code is wanted, or only the faults. -/
  generates : Bool
  /-- Whether the batch was called off before it began. -/
  cancelled : Bool

/-- A script with its code and the bytes of it, if they were made. -/
structure CompiledScript where
  tree : Script
  code : Option (Routine × List Byte)

/-- A configuration with its record and the bytes of it, if they were made. -/
structure CompiledConfig where
  tree : Config
  record : Option (Record × List Byte)

structure CompiledFile where
  file : SourceFile
  source : String
  scripts : List CompiledScript
  configs : List CompiledConfig
  faults : List Diagnostic

structure Compilation where
  files : List CompiledFile
  cancelled : Bool

namespace CompiledFile

def crc (compiled : CompiledFile) : UInt32 := checksum compiled.file.content

def hasFaults (compiled : CompiledFile) : Bool := !compiled.faults.isEmpty

/-- The results of a file and the names under which they are kept. -/
def artifacts (compiled : CompiledFile) : List (String × List Byte) :=
  (compiled.scripts.filterMap fun script => script.code.map fun (_, bytes) =>
      (artifactName script.tree.trigger.text script.tree.name.text, bytes))
    ++ (compiled.configs.filterMap fun config => config.record.map fun (_, bytes) =>
      (artifactName compiled.file.extension config.tree.name.text, bytes))

end CompiledFile

def Compilation.faultCount (compilation : Compilation) : Nat :=
  total (fun file => file.faults.length) compilation.files

def Compilation.artifacts (compilation : Compilation) : List (String × List Byte) :=
  compilation.files.flatMap CompiledFile.artifacts

namespace Compiler

def generateScript (compiler : Compiler) (table : SymbolTable) (script : Script) :
    Except Diagnostic (Routine × List Byte) := do
  let generated ← script.generate ⟨table, compiler.triggers⟩
  let routine :=
    if compiler.settings.optimize then (generated.optimize compiler.settings.maxIterations).1
    else generated
  match routine.write compiler.numbering compiler.settings.supportsLong with
  | .ok bytes => .ok (routine, bytes)
  | .error fault => .error ⟨.internal (.unwritable routine.name fault), script.name.span⟩

def generateConfig (table : SymbolTable) (binding : Binding) (config : Config) :
    Except Diagnostic (Record × List Byte) := do
  let record ← Record.generate table binding config
  let bytes ← record.encode
  return (record, bytes)

def outcome {α : Type} : Except Diagnostic α → Option α × List Diagnostic
  | .ok result => (some result, [])
  | .error fault => (none, [fault])

/-- Make the results of each declaration, if they are wanted, and collect the faults. -/
def generateAll {α β : Type} (wanted : Bool) (generate : α → Except Diagnostic β)
    (declared : List α) : List (α × Option β) × List Diagnostic :=
  if wanted then
    let results := declared.map fun declaration => (declaration, outcome (generate declaration))
    (results.map fun (declaration, result, _) => (declaration, result),
      results.flatMap fun (_, _, faults) => faults)
  else (declared.map fun declaration => (declaration, none), [])

def finish (compiler : Compiler) (table : SymbolTable) (generates : Bool) (draft : Draft) :
    CompiledFile :=
  let wanted := generates && draft.faults.isEmpty
  match draft.contents with
  | .scripts declared =>
    let (results, faults) := generateAll wanted (compiler.generateScript table) declared
    ⟨draft.file, draft.source, results.map fun (tree, code) => ⟨tree, code⟩, [],
      draft.faults ++ faults⟩
  | .configs binding declared =>
    let (results, faults) := generateAll wanted (generateConfig table binding) declared
    ⟨draft.file, draft.source, [], results.map fun (tree, record) => ⟨tree, record⟩,
      draft.faults ++ faults⟩
  | .constants _ | .unsupported => ⟨draft.file, draft.source, [], [], draft.faults⟩

def compile (compiler : Compiler) (batch : Batch) : Compilation :=
  if batch.cancelled then ⟨[], true⟩
  else
    let drafts := batch.files.map (Draft.read compiler)
    let (table, defined) := Draft.defineAll compiler compiler.symbols.enter drafts
    let checked := defined.map (Draft.check compiler table)
    ⟨checked.map (compiler.finish table batch.generates), false⟩

end Compiler

end TriggerScript
