import TriggerScript.Compiler.Basic
import TriggerScript.Json.Basic
import TriggerScript.Project.Store

/-!
Failures of a run.

A project fails where its files cannot be used. A run also fails on settings that describe no
runtime, and on sources with faults, which are reported on their own.
-/

namespace TriggerScript

inductive ProjectFault where
  | file (fault : FileFault)
  /-- A settings file that is no text. -/
  | notText
  | notJson
  | missing (path : Path)
  | newerSettings (version : Nat)
  deriving DecidableEq

inductive Failure where
  | project (fault : ProjectFault)
  | settings (fault : SettingsFault)
  | compile (location : Path) (count : Nat)
  | noSources
  | occupied (path : Path)
  deriving DecidableEq

namespace ProjectFault

def detail : ProjectFault → String
  | file fault => fault.message
  | notText => "stream did not contain valid UTF-8"
  | notJson => "malformed document"
  | missing path => path.text ++ " does not exist"
  | newerSettings version =>
    "Settings version " ++ Nat.repr version ++ " is newer than supported version "
      ++ Nat.repr Settings.currentVersion

def code : ProjectFault → String
  | file _ | notText => "Io"
  | notJson => "Json"
  | missing _ | newerSettings _ => "InvalidInput"

def message (fault : ProjectFault) : String :=
  match fault with
  | file _ | notText => "I/O error: " ++ fault.detail
  | notJson => "JSON error: " ++ fault.detail
  | missing _ | newerSettings _ => "Invalid project: " ++ fault.detail

end ProjectFault

namespace Failure

def detail : Failure → String
  | project fault => fault.detail
  | settings fault => fault.message
  | compile location count =>
    location.text ++ ": " ++ Nat.repr count ++ if count = 1 then " error" else " errors"
  | noSources => "No source files found"
  | occupied path => path.text ++ " already exists"

/-- The kind of a failure, by which programs tell failures apart. -/
def code : Failure → String
  | project fault => fault.code
  | settings _ => "Settings"
  | compile _ _ => "Compile"
  | noSources | occupied _ => "InvalidInput"

def heading : String → String
  | "Io" => "I/O error: "
  | "Json" => "JSON error: "
  | "Settings" => "Invalid settings: "
  | _ => ""

def message (failure : Failure) : String := heading failure.code ++ failure.detail

def toJson (failure : Failure) : Json :=
  .object [("code", .text failure.code), ("detail", match failure with
    | compile location count => .object [("file", .text location.text), ("count", .nat count)]
    | _ => .object [("message", .text failure.detail)])]

end Failure

end TriggerScript
