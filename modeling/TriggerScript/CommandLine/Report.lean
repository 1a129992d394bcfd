import TriggerScript.Code.Json
import TriggerScript.Code.Listing
import TriggerScript.Compiler.Batch
import TriggerScript.Json.Printer

/-!
What the command line says about a compilation.
-/

namespace TriggerScript

def Diagnostic.toJson (diagnostic : Diagnostic) : Json :=
  .object [
    ("message", .text diagnostic.message), ("span", diagnostic.span.toJson),
    ("kind", .text diagnostic.fault.family)]

/-- The faults of a file, one a line, each behind the place of the file. -/
def CompiledFile.diagnosticLines (compiled : CompiledFile) : List String :=
  compiled.faults.map fun fault =>
    compiled.file.location.text ++ ": " ++ fault.render compiled.source

def CompiledFile.reportToJson (compiled : CompiledFile) : Json :=
  .object [
    ("file", .text compiled.file.location.text), ("crc", .nat compiled.crc.toNat),
    ("scripts", .nat compiled.scripts.length), ("configs", .nat compiled.configs.length),
    ("errors", Json.ofList Diagnostic.toJson compiled.faults)]

namespace Compilation

def diagnosticLines (compilation : Compilation) : List String :=
  compilation.files.flatMap CompiledFile.diagnosticLines

def summary (compilation : Compilation) (written : Nat) : String :=
  let scripts := total (fun file => file.scripts.length) compilation.files
  let configs := total (fun file => file.configs.length) compilation.files
  Nat.repr compilation.files.length ++ " files, " ++ Nat.repr scripts ++ " scripts, "
    ++ Nat.repr configs ++ " configs, " ++ Nat.repr compilation.faultCount ++ " errors, "
    ++ Nat.repr written ++ " written"

def reportToJson (compilation : Compilation) (written : Nat) : Json :=
  .object [
    ("files", Json.ofList CompiledFile.reportToJson compilation.files),
    ("written", .nat written), ("cancelled", .bool compilation.cancelled)]

def routines (compilation : Compilation) : List Routine :=
  compilation.files.flatMap fun file =>
    file.scripts.filterMap fun script => script.code.map Prod.fst

end Compilation

end TriggerScript
