import TriggerScript.Data.Bytes
import TriggerScript.Project.Path

/-!
Places that keep files.

The rest of the project reads and writes files through `FileStore`. A file is replaced as a whole:
its new content is written beside it and then takes its place, so that a reader never sees half of
it.
-/

namespace TriggerScript

inductive FileFault where
  | notFound
  | denied
  | busy
  | exists
  | notFolder
  | isFolder
  | nameTooLong
  /-- A path with a character of code zero, at which the system takes paths to end. -/
  | zeroByte
  | other (message : String)
  deriving DecidableEq

def FileFault.message : FileFault → String
  | notFound => "No such file or directory (os error 2)"
  | denied => "Permission denied (os error 13)"
  | busy => "Device or resource busy (os error 16)"
  | .exists => "File exists (os error 17)"
  | notFolder => "Not a directory (os error 20)"
  | isFolder => "Is a directory (os error 21)"
  | nameTooLong => "File name too long (os error 36)"
  | zeroByte => "file name contained an unexpected NUL byte"
  | other message => message

inductive NodeKind where
  | file
  | folder
  deriving DecidableEq

class FileStore (m : Type → Type) where
  /-- What is at a path. -/
  kind? : Path → m (Option NodeKind)
  read : Path → m (Except FileFault (List Byte))
  /-- Make or overwrite a file. -/
  write : Path → List Byte → m (Except FileFault Unit)
  createFolder : Path → m (Except FileFault Unit)
  /-- Move a file, in place of one that is there. -/
  rename : Path → Path → m (Except FileFault Unit)
  /-- The files in a folder and in the folders inside it, by paths that begin with its own. -/
  filesUnder : Path → m (Except FileFault (List Path))

namespace FileStore

variable {m : Type → Type} [Monad m] [FileStore m]

def isFolder (path : Path) : m Bool := do return (← kind? path) = some .folder

/-- It is no fault that a folder cannot be made if it is there. -/
def settled (path : Path) : Except FileFault Unit → m (Except FileFault Unit)
  | .ok () => return .ok ()
  | .error fault => do if ← isFolder path then return .ok () else return .error fault

/-- Make the first of the folders, those around it first where they are missing. -/
def createChain : List Path → m (Except FileFault Unit)
  | [] => return .error .notFound
  | path :: outer => do
    if path.text.isEmpty then return .ok ()
    match ← createFolder path with
    | .error .notFound =>
      match ← createChain outer with
      | .ok () => settled path (← createFolder path)
      | .error fault => return .error fault
    | outcome => settled path outcome

def createFolders (path : Path) : ExceptT FileFault m Unit := .mk (createChain path.ancestors)

def draftOf (path : Path) : Path := path.withFileName (path.fileName?.getD "" ++ ".tmp")

def replace (path : Path) (content : List Byte) : ExceptT FileFault m Unit := do
  ExceptT.mk (write (draftOf path) content)
  ExceptT.mk (rename (draftOf path) path)

end FileStore

end TriggerScript
