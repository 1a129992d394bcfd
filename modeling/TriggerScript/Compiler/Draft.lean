import TriggerScript.Compiler.Basic
import TriggerScript.Config.Declaration
import TriggerScript.Config.Validity
import TriggerScript.Project.Source
import TriggerScript.Text.Utf8
import TriggerScript.Typing.Signature
import TriggerScript.Typing.Statement

/-!
Files on their way through a compiler.

A draft is a file that has been read, with the faults found so far. The declarations of all drafts
are defined before any of them is checked, so that a file may name what another one declares, in
whatever order they come.
-/

namespace TriggerScript

/-- What a file declares, by the kind of file. -/
inductive Contents where
  | scripts (scripts : List Script)
  | constants (constants : List Constant)
  | configs (binding : Binding) (configs : List Config)
  | unsupported

structure Draft where
  file : SourceFile
  source : String
  contents : Contents
  faults : List Diagnostic

namespace Contents

def read (compiler : Compiler) (extension source : String) : Contents × List Diagnostic :=
  if compiler.settings.isScriptExtension extension then
    let grammar := Grammar.ofTables source compiler.triggers compiler.symbols
    (.scripts grammar.scripts.1, grammar.scripts.2)
  else if extension = compiler.settings.constantExtension then
    let (declared, faults) := readDeclarations source Constant.parseFile
    (.constants declared, faults)
  else
    match compiler.binding? extension with
    | some binding =>
      let (declared, faults) := readDeclarations source Config.parseFile
      (.configs binding declared, faults)
    | none => (.unsupported, [⟨.semantic (.unsupportedExtension extension), Span.empty⟩])

def define (compiler : Compiler) (table : SymbolTable) : Contents → SymbolTable × List Diagnostic
  | scripts declared => Script.defineAll compiler.triggers table declared
  | constants declared => Constant.defineAll table declared
  | configs binding declared => Config.defineAll binding table declared
  | unsupported => (table, [])

/-- Check the declarations against the names of the whole batch. -/
def check (compiler : Compiler) (table : SymbolTable) (contents : Contents) :
    Contents × List Diagnostic :=
  match contents with
  | scripts declared =>
    let checked := declared.map fun script => script.check table compiler.settings.arrayCapacity
    (.scripts (checked.map Prod.fst), checked.flatMap Prod.snd)
  | configs binding declared =>
    (contents, declared.flatMap fun config => config.faults table binding)
  | constants _ | unsupported => (contents, [])

end Contents

namespace Draft

/-- Read a file. Bytes that spell no text are reported and read as far as they can be. -/
def read (compiler : Compiler) (file : SourceFile) : Draft :=
  let (source, unreadable) :=
    match decodeUtf8? file.content with
    | some source => (source, [])
    | none => (decodeUtf8Lossy file.content, [⟨.lexical .invalidEncoding, Span.empty⟩])
  let (contents, faults) := Contents.read compiler file.extension source
  ⟨file, source, contents, unreadable ++ faults⟩

def defineAll (compiler : Compiler) (table : SymbolTable) : List Draft → SymbolTable × List Draft
  | [] => (table, [])
  | draft :: rest =>
    let (table, faults) := draft.contents.define compiler table
    let (table, rest) := defineAll compiler table rest
    (table, { draft with faults := draft.faults ++ faults } :: rest)

def check (compiler : Compiler) (table : SymbolTable) (draft : Draft) : Draft :=
  let (contents, faults) := draft.contents.check compiler table
  { draft with contents, faults := draft.faults ++ faults }

end Draft

end TriggerScript
