import TriggerScript.CommandLine.Run

/-!
The program: its files are those of the system, its words those of the command line.
-/

namespace TriggerScript

namespace Disk

def faultOf (error : IO.Error) : FileFault :=
  match error with
  | .noFileOrDirectory _ _ _ => .notFound
  | .noSuchThing _ _ _ => .notFound
  | .alreadyExists _ _ _ => .exists
  | .resourceBusy _ _ => .busy
  | .inappropriateType _ code _ => if code = 21 then .isFolder else .notFolder
  | .permissionDenied _ 13 _ => .denied
  | .invalidArgument _ 36 _ => .nameTooLong
  | other => .other (toString other)

def attempt {α : Type} (action : IO α) : IO (Except FileFault α) := do
  try return .ok (← action) catch error => return .error (faultOf error)

/-- What is at a path; a path that cannot be followed leads to nothing. -/
def kindOf (path : Path) : IO (Option NodeKind) := do
  if path.text.isEmpty then return none
  match ← attempt (IO.FS.realPath path.text) with
  | .error _ => return none
  | .ok place => if ← place.isDir then return some .folder else return some .file

/-- The files in a folder and in the folders inside it. -/
partial def walk (folder : Path) : IO (List Path) := do
  let place ← IO.FS.realPath folder.text
  let mut found := []
  for entry in ← place.readDir do
    let path := folder.join entry.fileName
    if (← kindOf path) = some .folder then found := found ++ (← walk path)
    else found := found ++ [path]
  return found

instance : FileStore IO where
  kind? := kindOf
  read path := attempt do return (← IO.FS.readBinFile path.text).toList
  write path content := attempt (IO.FS.writeBinFile path.text ⟨content.toArray⟩)
  createFolder path := attempt (IO.FS.createDir path.text)
  rename source path := attempt (IO.FS.rename source.text path.text)
  filesUnder folder := attempt (walk folder)

end Disk

end TriggerScript

def main (words : List String) : IO UInt32 := do
  let response ← (TriggerScript.runWords words : IO TriggerScript.Response)
  IO.print response.output
  IO.eprint response.log
  return response.exit
