import TriggerScript.Json.Printer
import TriggerScript.Json.Reader
import TriggerScript.Project.Fault
import TriggerScript.Project.Source
import TriggerScript.Settings.Json
import TriggerScript.Text.Utf8

/-!
The files of a project: its sources, its settings and its results.
-/

namespace TriggerScript

namespace Project

variable {m : Type → Type} [Monad m] [FileStore m]

def onFiles {α : Type} (action : ExceptT FileFault m α) : ExceptT ProjectFault m α :=
  action.adapt ProjectFault.file

def readSource (path : Path) : ExceptT ProjectFault m SourceFile := do
  return SourceFile.ofPath path (← onFiles (.mk (FileStore.read path)))

/-- The source at a path, or those of accepted extensions under a folder, in the order of their
paths. -/
def loadSources (accepts : String → Bool) (root : Path) :
    ExceptT ProjectFault m (List SourceFile) := do
  match ← ExceptT.lift (FileStore.kind? root) with
  | none => throw (.missing root)
  | some .file => return [← readSource root]
  | some .folder =>
    let paths ← onFiles (.mk (FileStore.filesUnder root))
    let accepted := paths.filter fun path => path.extension?.any accepts
    (accepted.mergeSort Path.isBefore).mapM readSource

def writeOutputs (folder : Path) (outputs : List (String × List Byte)) :
    ExceptT ProjectFault m Nat := do
  onFiles (FileStore.createFolders folder)
  for (name, content) in outputs do
    onFiles (FileStore.replace (folder.join name) content)
  return outputs.length

def decodeSettings (content : List Byte) : Except ProjectFault Settings :=
  match decodeUtf8? content with
  | none => .error .notText
  | some text =>
    match (Json.read? text).bind Settings.ofJson? with
    | none => .error .notJson
    | some settings =>
      if Settings.currentVersion < settings.version then .error (.newerSettings settings.version)
      else .ok settings

def loadSettings (path : Path) : ExceptT ProjectFault m Settings := do
  match ← ExceptT.lift (FileStore.kind? path) with
  | none => return Settings.default
  | some _ =>
    let content ← onFiles (.mk (FileStore.read path))
    liftExcept (decodeSettings content)

/-- Write settings into a file, in a folder that is made if it is missing. -/
def saveSettings (path : Path) (settings : Settings) : ExceptT ProjectFault m Unit := do
  if let some parent := path.parent? then
    if !parent.text.isEmpty then onFiles (FileStore.createFolders parent)
  onFiles (FileStore.replace path (utf8 settings.toJson.pretty))

end Project

end TriggerScript
