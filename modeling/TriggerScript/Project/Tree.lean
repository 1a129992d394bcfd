import TriggerScript.Project.Store

/-!
Files kept in memory.

A tree holds files and folders under the names that lead to them. Following a path needs a folder at
every step, also where a step stays in place. Names and paths are limited in size, which counts
bytes.
-/

namespace TriggerScript

abbrev Trail := List String

structure FileTree where
  files : List (Trail × List Byte)
  /-- The folders below the top. -/
  folders : List Trail

namespace FileTree

def empty : FileTree := ⟨[], []⟩

def nameLimit : Nat := 255

def pathLimit : Nat := 4095

def kindAt (tree : FileTree) (trail : Trail) : Option NodeKind :=
  if trail.isEmpty || tree.folders.contains trail then some .folder
  else if (tree.files.lookup trail).isSome then some .file
  else none

def folderFault (tree : FileTree) (trail : Trail) : Except FileFault Unit :=
  match tree.kindAt trail with
  | some .folder => .ok ()
  | some .file => .error .notFolder
  | none => .error .notFound

def step (trail : Trail) (piece : List Char) : Except FileFault Trail :=
  let name := String.ofList piece
  if Path.isIdle piece then .ok trail
  else if Path.isUpward piece then .ok trail.dropLast
  else if nameLimit < name.utf8ByteSize then .error .nameTooLong
  else .ok (trail ++ [name])

/-- Follow the pieces of a path. What they lead to need not exist. -/
def follow (tree : FileTree) (trail : Trail) : List (List Char) → Except FileFault Trail
  | [] => .ok trail
  | piece :: rest => do
    tree.folderFault trail
    follow tree (← step trail piece) rest

def pathFault (path : Path) : Except FileFault Unit :=
  if path.text.toList.contains '\x00' then .error .zeroByte
  else if path.text.isEmpty then .error .notFound
  else if pathLimit < path.text.utf8ByteSize then .error .nameTooLong
  else .ok ()

def resolve (tree : FileTree) (path : Path) : Except FileFault Trail := do
  pathFault path
  tree.follow [] path.pieces

/-- The place at which pieces put something new, which needs a name of its own. -/
def targetOf (tree : FileTree) (pieces : List (List Char)) (unnamed : FileFault) :
    Except FileFault Trail := do
  let folder ← tree.follow [] pieces.dropLast
  tree.folderFault folder
  match pieces.getLast? with
  | some piece =>
    if Path.isIdle piece || Path.isUpward piece then .error unnamed
    else step folder piece
  | none => .error .notFound

def put (tree : FileTree) (trail : Trail) (content : List Byte) : FileTree :=
  { tree with files := (trail, content) :: tree.files.filter fun entry => entry.1 ≠ trail }

def erase (tree : FileTree) (trail : Trail) : FileTree :=
  { tree with files := tree.files.filter fun entry => entry.1 ≠ trail }

def kind? (tree : FileTree) (path : Path) : Option NodeKind :=
  match tree.resolve path with
  | .ok trail => tree.kindAt trail
  | .error _ => none

def read (tree : FileTree) (path : Path) : Except FileFault (List Byte) := do
  let trail ← tree.resolve path
  match tree.files.lookup trail with
  | some content => .ok content
  | none => if tree.kindAt trail = some .folder then .error .isFolder else .error .notFound

def write (tree : FileTree) (path : Path) (content : List Byte) : Except FileFault FileTree := do
  pathFault path
  let trail ← tree.targetOf path.pieces .isFolder
  if tree.kindAt trail = some .folder then .error .isFolder else .ok (tree.put trail content)

/-- The pieces of a path without slashes at its end, which a new folder may have. -/
def unslashed (path : Path) : List (List Char) :=
  match (path.pieces.reverse.dropWhile List.isEmpty).reverse with
  | [] => path.pieces
  | pieces => pieces

def createFolder (tree : FileTree) (path : Path) : Except FileFault FileTree := do
  pathFault path
  let trail ← tree.targetOf (unslashed path) .exists
  match tree.kindAt trail with
  | some _ => .error .exists
  | none => .ok { tree with folders := trail :: tree.folders }

def rename (tree : FileTree) (source path : Path) : Except FileFault FileTree := do
  pathFault source
  pathFault path
  let content ← tree.read source
  let origin ← tree.resolve source
  let trail ← tree.targetOf (unslashed path) .busy
  match tree.kindAt trail with
  | some .folder => if path.text.endsWith "/" then .error .notFolder else .error .isFolder
  | _ =>
    if path.text.endsWith "/" then .error .notFolder
    else .ok ((tree.erase origin).put trail content)

def below (folder trail : Trail) : Option (List String) :=
  match folder, trail with
  | [], name :: rest => some (name :: rest)
  | first :: folder, name :: rest => if first = name then below folder rest else none
  | _, [] => none

def names (tree : FileTree) (folder : Trail) : List String :=
  (tree.files.map Prod.fst ++ tree.folders).filterMap fun trail =>
    match below folder trail with
    | some [name] => some name
    | _ => none

/-- The files in a folder, and those in the folders inside it down to a depth. What a path is too
long for counts as a file. -/
def filesWithin (tree : FileTree) : Nat → Path → Except FileFault (List Path)
  | 0, _ => .ok []
  | depth + 1, path => do
    let folder ← tree.resolve path
    tree.folderFault folder
    let found ← (tree.names folder).mapM fun name =>
      let inner := path.join name
      if tree.kind? inner = some .folder then tree.filesWithin depth inner else .ok [inner]
    return found.flatten

/-- The files in a folder and in the folders inside it. No chain of folders is longer than their
number. -/
def filesUnder (tree : FileTree) (path : Path) : Except FileFault (List Path) :=
  tree.filesWithin (tree.folders.length + 1) path

def add (tree : FileTree) (path : Path) (content : List Byte) : FileTree :=
  let trail := path.components
  let folders := (List.range trail.length).map fun count => trail.take count
  let missing := folders.filter fun folder => !folder.isEmpty && !tree.folders.contains folder
  FileTree.put { tree with folders := missing ++ tree.folders } trail content

def change (run : FileTree → Except FileFault FileTree) : StateM FileTree (Except FileFault Unit) :=
  fun tree =>
    match run tree with
    | .ok changed => (.ok (), changed)
    | .error fault => (.error fault, tree)

instance : FileStore (StateM FileTree) where
  kind? path := do return (← get).kind? path
  read path := do return (← get).read path
  write path content := change fun tree => tree.write path content
  createFolder path := change fun tree => tree.createFolder path
  rename source path := change fun tree => tree.rename source path
  filesUnder path := do return (← get).filesUnder path

end FileTree

end TriggerScript
