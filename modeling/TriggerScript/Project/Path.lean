import TriggerScript.Text.Split

/-!
Paths of files and folders.

A path is a text whose pieces are divided by slashes. An empty piece and a single dot stand for the
folder they are in, so they name nothing; two dots stand for the folder around it.
-/

namespace TriggerScript

structure Path where
  text : String
  deriving DecidableEq

namespace Path

def ofPieces (pieces : List (List Char)) : Path := ⟨String.ofList (['/'].intercalate pieces)⟩

def pieces (path : Path) : List (List Char) := splitAt '/' path.text.toList

def isIdle (piece : List Char) : Bool := piece = [] || piece = ['.']

def isUpward (piece : List Char) : Bool := piece = ['.', '.']

def components (path : Path) : List String :=
  (path.pieces.filter fun piece => !isIdle piece).map String.ofList

def fileName? (path : Path) : Option String :=
  path.components.getLast?.filter fun name => !isUpward name.toList

/-- The parts of a name before and behind its last dot. A dot in front divides nothing. -/
def divide (name : String) : String × Option String :=
  match (splitAt '.' name.toList).reverse with
  | last :: before :: others =>
    let stem := String.ofList (['.'].intercalate (before :: others).reverse)
    if stem.isEmpty then (name, none) else (stem, some (String.ofList last))
  | _ => (name, none)

def stem (path : Path) : String := (path.fileName?.map fun name => (divide name).1).getD ""

def extension? (path : Path) : Option String := path.fileName?.bind fun name => (divide name).2

def join (folder : Path) (name : String) : Path :=
  if name.startsWith "/" || folder.text.isEmpty then ⟨name⟩
  else if folder.text.endsWith "/" then ⟨folder.text ++ name⟩
  else ⟨folder.text ++ "/" ++ name⟩

/-- Pieces without the idle ones at their end; the first piece stays. -/
def trimEnd (pieces : List (List Char)) : List (List Char) :=
  match pieces with
  | [] => []
  | first :: others => first :: (others.reverse.dropWhile isIdle).reverse

def parent? (path : Path) : Option Path :=
  match trimEnd path.pieces with
  | [] => none
  | [first] => if first.isEmpty then none else some ⟨""⟩
  | first :: others =>
    match trimEnd (first :: others.dropLast) with
    | [[]] => some ⟨"/"⟩
    | pieces => some (ofPieces pieces)

/-- The path and those of the folders around it, up to a number of them. -/
def ancestorsWithin : Nat → Path → List Path
  | 0, path => [path]
  | bound + 1, path =>
    match path.parent? with
    | none => [path]
    | some parent => path :: ancestorsWithin bound parent

/-- The path and those of the folders around it, the innermost first. -/
def ancestors (path : Path) : List Path := ancestorsWithin path.pieces.length path

def withFileName (path : Path) (name : String) : Path :=
  match path.fileName? with
  | none => path.join name
  | some _ => (path.parent?.getD path).join name

def compareNames (left right : String) : Ordering :=
  List.compareLex (fun first second => compareOfLessAndEq first.toNat second.toNat) left.toList
    right.toList

def isBefore (left right : Path) : Bool :=
  (List.compareLex compareNames left.components right.components).isLE

def settingsFile (folder : Path) : Path := folder.join "rsc.json"

def outputFolder (folder : Path) : Path := folder.join "out"

end Path

end TriggerScript
