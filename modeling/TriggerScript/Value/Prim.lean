/-!
The primitive types of scripts and configuration files.

Each type has a name that sources may or may not write, a signature character, and a place on one
of the three value stacks of the runtime, unless it never lives there.
-/

namespace TriggerScript

inductive Stack where
  | int
  | string
  | long
  deriving DecidableEq, Inhabited

/-- The stacks in the order in which their counts are written. -/
def Stack.all : List Stack := [.int, .string, .long]

inductive Prim where
  | undefined
  | hook
  | void
  | byte
  | short
  | tribyte
  | type
  | param
  | null
  | int
  | string
  | spotanim
  | seq
  | stat
  | synth
  | coordgrid
  | char
  | fontmetrics
  | maparea
  | enum
  | npc
  | model
  | interface
  | component
  | long
  | boolean
  | category
  | namedobj
  | obj
  | inv
  | texture
  | mapelement
  | graphic
  | struct
  | loc
  | colour
  | idkit
  | chatphrase
  | bas
  deriving DecidableEq, Inhabited

namespace Prim

/-- Every type, in the order in which names are looked up. -/
def all : List Prim := [
  .undefined, .hook, .void, .byte, .short, .tribyte, .type, .param, .null, .int, .string, .spotanim,
  .seq, .stat, .synth, .coordgrid, .char, .fontmetrics, .maparea, .enum, .npc, .model, .interface,
  .component, .long, .boolean, .category, .namedobj, .obj, .inv, .texture, .mapelement, .graphic,
  .struct, .loc, .colour, .idkit, .chatphrase, .bas]

/-- The signature character. It is also written by array declarations and by properties whose
value is a type. -/
def code : Prim → Char
  | undefined => '\ufff0'
  | hook => '\ufff1'
  | void => '\ufff2'
  | byte => '\ufff3'
  | short => '\ufff4'
  | tribyte => '\ufff5'
  | type => '\ufff6'
  | param => '\uffd0'
  | null => '\uffd7'
  | int => 'i'
  | string => 's'
  | spotanim => 't'
  | seq => 'A'
  | stat => 'S'
  | synth => 'P'
  | coordgrid => 'c'
  | char => 'z'
  | fontmetrics => 'f'
  | maparea => '\x60'
  | enum => 'g'
  | npc => 'n'
  | model => 'm'
  | interface => 'a'
  | component => 'I'
  | long => '\u00cf'
  | boolean => '1'
  | category => 'y'
  | namedobj => 'O'
  | obj => 'o'
  | inv => 'v'
  | texture => 'x'
  | mapelement => '\u00b5'
  | graphic => 'd'
  | struct => 'J'
  | loc => 'l'
  | colour => 'C'
  | idkit => 'K'
  | chatphrase => 'e'
  | bas => '\u20ac'

def name? : Prim → Option String
  | undefined => some "undefined"
  | hook => some "hook"
  | void => some "void"
  | byte => some "byte"
  | short => some "short"
  | tribyte => some "tribyte"
  | type => some "type"
  | param => some "param"
  | null => none
  | int => some "int"
  | string => some "string"
  | spotanim => some "spotanim"
  | seq => some "seq"
  | stat => some "stat"
  | synth => some "synth"
  | coordgrid => some "coordgrid"
  | char => some "char"
  | fontmetrics => some "fontmetrics"
  | maparea => some "maparea"
  | enum => some "enum"
  | npc => some "npc"
  | model => some "model"
  | interface => some "interface"
  | component => some "component"
  | long => some "long"
  | boolean => some "boolean"
  | category => some "category"
  | namedobj => some "namedobj"
  | obj => some "obj"
  | inv => some "inv"
  | texture => some "texture"
  | mapelement => some "mapelement"
  | graphic => some "graphic"
  | struct => some "struct"
  | loc => some "loc"
  | colour => some "colour"
  | idkit => some "idkit"
  | chatphrase => some "chatphrase"
  | bas => some "bas"

def display (prim : Prim) : String := prim.name?.getD "null"

def tag (prim : Prim) : String := prim.display.capitalize

def stack? : Prim → Option Stack
  | undefined | hook | void | byte | short | tribyte | type | param | null => none
  | string => some .string
  | long => some .long
  | _ => some .int

/-- Narrow integers of configuration files count as `int`. -/
def widened : Prim → Prim
  | byte | short | tribyte => int
  | other => other

def agrees (left right : Prim) : Bool := left.widened = right.widened

def isReferencable : Prim → Bool
  | hook | undefined | byte | short | tribyte | type | null => false
  | _ => true

def isDeclarable (prim : Prim) : Bool := prim.stack?.isSome

def isArrayable (prim : Prim) : Bool := prim ≠ boolean && prim.stack? = some .int

def isConfig : Prim → Bool
  | seq | stat | maparea | enum | npc | category | namedobj | obj | inv | mapelement | struct | loc
  | param | spotanim => true
  | _ => false

def ofName? (name : String) : Option Prim := all.find? fun prim => prim.name? = some name

def ofSource? (name : String) : Option Prim :=
  all.find? fun prim => prim.isReferencable && prim.name? = some name

end Prim

end TriggerScript
