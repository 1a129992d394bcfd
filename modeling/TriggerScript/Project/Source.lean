import TriggerScript.Data.Bytes
import TriggerScript.Project.Path

/-!
Source files, and the names of what is made from them.
-/

namespace TriggerScript

structure SourceFile where
  location : Path
  /-- The name without its extension. -/
  name : String
  extension : String
  content : List Byte
  deriving DecidableEq

def SourceFile.ofPath (location : Path) (content : List Byte) : SourceFile where
  location
  name := location.stem
  extension := location.extension?.getD ""
  content

/-- The file of a compiled script or configuration: what it belongs to, its name, and an ending. -/
def artifactName (owner name : String) : String := owner ++ "_" ++ name ++ ".bin"

end TriggerScript
