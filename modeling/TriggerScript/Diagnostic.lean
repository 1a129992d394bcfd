import TriggerScript.Bytecode.Fault
import TriggerScript.Script.Operator
import TriggerScript.Text.Placed
import TriggerScript.Token.Basic
import TriggerScript.Value.Basic
import TriggerScript.Value.Ty

/-!
Diagnostics.

A diagnostic is a cause at a place of a source. The causes fall into four families by the stage
that finds them; `Fault.message` words each of them and `Diagnostic.render` adds family, line and
column.
-/

namespace TriggerScript

/-- Causes found while tokens are read. -/
inductive LexicalFault where
  | unexpectedCharacter (char : Char)
  | unclosedInterpolation
  | unclosedString
  | invalidEscape
  | deepInterpolation
  | emptyHexadecimal
  | unclosedComment
  | invalidEncoding
  deriving DecidableEq

def LexicalFault.message : LexicalFault → String
  | unexpectedCharacter char => "Unexpected character: " ++ String.singleton char
  | unclosedInterpolation => "Interpolated string is not properly closed"
  | unclosedString => "String literal is not properly closed by a double-quote"
  | invalidEscape =>
    "Invalid escape sequence (valid ones are  \\b  \\t  \\n  \\f  \\\"  \\\\  \\<  \\>)"
  | deepInterpolation => "String interpolation is nested too deeply"
  | emptyHexadecimal => "Hex literal must have at least one digit"
  | unclosedComment => "Unexpected end of comment"
  | invalidEncoding => "Source is not valid UTF-8"

/-- The type whose literals have a limited range. -/
inductive LiteralType where
  | int
  | long
  | coordgrid
  | type
  deriving DecidableEq

def LiteralType.display : LiteralType → String
  | int => "int"
  | long => "long"
  | coordgrid => "coordgrid"
  | type => "type"

inductive CoordComponent where
  | level
  | squareX
  | squareY
  | tileX
  | tileY
  deriving DecidableEq

def CoordComponent.display : CoordComponent → String
  | level => "level"
  | squareX => "square-x"
  | squareY => "square-y"
  | tileX => "tile-x"
  | tileY => "tile-y"

def CoordComponent.limit : CoordComponent → Nat
  | level => 3
  | squareX => 127
  | squareY => 255
  | tileX => 63
  | tileY => 63

/-- Causes found while phrases are read. -/
inductive GrammarFault where
  | expectedToken (expected found : TokenKind)
  | expectedIdentifier (found : TokenKind)
  | expectingStatement
  | expectingExpression
  | expectingVariable
  | expectingLocalName
  | expectingArrayName
  | expectingCallOperator
  | expectingPropertyValue
  | literalOutOfRange (literal : String) (sort : LiteralType)
  | coordgridArity
  | coordgridRange (component : CoordComponent)
  | unknownType (name : String)
  | illegalParameterType (prim : Prim)
  | arrayParameter
  | globalArray
  | secondDefault
  | contentAfterHook
  deriving DecidableEq

def GrammarFault.message : GrammarFault → String
  | expectedToken expected found => "Expected " ++ expected.name ++ ", got " ++ found.name
  | expectedIdentifier found => "Expected an identifier but got: " ++ found.name
  | expectingStatement => "Expecting a statement"
  | expectingExpression => "Expecting an expression"
  | expectingVariable => "Expecting a variable"
  | expectingLocalName => "Expecting a local variable name"
  | expectingArrayName => "Expecting an array name"
  | expectingCallOperator => "Expecting a script call operator"
  | expectingPropertyValue => "Expected a property value"
  | literalOutOfRange literal sort =>
    "The literal " ++ literal ++ " of type " ++ sort.display ++ " is out of range"
  | coordgridArity => "Expected 5 components for literal of type coordgrid"
  | coordgridRange component =>
    "Expected the " ++ component.display ++ " component value to be between [0-"
      ++ Nat.repr component.limit ++ "] inclusively"
  | unknownType name => "Unknown type: " ++ name
  | illegalParameterType prim => "Illegal type: " ++ prim.display
  | arrayParameter => "Array parameters are not supported"
  | globalArray => "Unrecognised scope for array variable expression"
  | secondDefault => "Switch statements can only have one default case defined"
  | contentAfterHook => "Unexpected content after the hook arguments"

/-- A statement that only loops may hold. -/
inductive LoopControl where
  | again
  | leave
  deriving DecidableEq

def LoopControl.word : LoopControl → String
  | again => "continue"
  | leave => "break"

/-- Causes found while names and types are checked. -/
inductive SemanticFault where
  | typeMismatch (actual expected : Ty)
  | illegalType (prim : Prim)
  | illegalArrayType (prim : Prim)
  | illegalSwitchType (prim : Prim)
  | annotationTwice (name : String)
  | duplicateLocal (name : String)
  | duplicateArray (name : String)
  | duplicateCase
  | duplicateConstant (name : String)
  | duplicateConfig (name : String)
  | duplicateProperty (key : String)
  | duplicateScript (trigger name : String)
  | tooManyArrays (capacity : Nat)
  | arrayElementAmongTargets
  | outsideLoop (control : LoopControl)
  | caseNotConstant
  | untypedNull
  | unresolvedVariable (name : String)
  | unresolvedConstant (name : String)
  | unresolvedSymbol (name : String)
  | unresolvedScript (trigger name : String)
  | unresolvedTrigger (trigger : String)
  | noAlternative (command : String)
  | commandArguments (command : String) (expected actual : List Prim)
  | scriptArguments (trigger name : String) (expected actual : List Prim)
  | undefinedOperator (operator : Operator) (left right : Ty)
  | paramsNotAllowed (trigger : String)
  | returnsNotAllowed (trigger : String)
  | constantNotLiteral
  | unknownProperty (key : String)
  | missingProperty (key : String)
  | requiresProperty (key required : String)
  | argumentCount (expected actual : Nat)
  | outsideRange (least greatest : Int32)
  | notPositive
  | unsupportedExtension (extension : String)
  deriving DecidableEq

def SemanticFault.message : SemanticFault → String
  | typeMismatch actual expected =>
    "Type mismatch: cannot convert from " ++ actual.display ++ " to " ++ expected.display
  | illegalType prim => "Illegal type: " ++ prim.display
  | illegalArrayType prim => "Illegal array type: " ++ prim.display
  | illegalSwitchType prim => "Illegal switch type: " ++ prim.display
  | annotationTwice name => "Duplicate annotation: " ++ name
  | duplicateLocal name => "Duplicate local variable " ++ name
  | duplicateArray name => "Duplicate array " ++ name
  | duplicateCase => "Duplicate case"
  | duplicateConstant name => "Duplicate constant: " ++ name
  | duplicateConfig name => "Duplicate configuration: " ++ name
  | duplicateProperty key => "Duplicate property: " ++ key
  | duplicateScript trigger name =>
    "The script '[" ++ trigger ++ "," ++ name ++ "]' is already defined"
  | tooManyArrays capacity =>
    "Too many arrays declared, a script may only declare " ++ Nat.repr capacity
  | arrayElementAmongTargets => "Array elements must be assigned on their own"
  | outsideLoop control => control.word ++ " cannot be used outside of a loop"
  | caseNotConstant => "Case keys must be known at compile-time"
  | untypedNull => "Cannot infer the type of null"
  | unresolvedVariable name => name ++ " cannot be resolved to a variable"
  | unresolvedConstant name => name ++ " cannot be resolved to a constant"
  | unresolvedSymbol name => name ++ " cannot be resolved to a symbol"
  | unresolvedScript trigger name =>
    "Could not resolve " ++ trigger ++ " script with the name '" ++ name ++ "'"
  | unresolvedTrigger trigger => trigger ++ " cannot be resolved to a trigger type"
  | noAlternative command => "The command " ++ command ++ " has no alternative form"
  | commandArguments command expected actual =>
    "The command " ++ command ++ "(" ++ Ty.displayList ", " expected
      ++ ") is not applicable for the arguments (" ++ Ty.displayList ", " actual ++ ")"
  | scriptArguments trigger name expected actual =>
    "The script [" ++ trigger ++ "," ++ name ++ "](" ++ Ty.displayList ", " expected
      ++ ") is not applicable for the arguments (" ++ Ty.displayList ", " actual ++ ")"
  | undefinedOperator operator left right =>
    "The operator " ++ operator.symbol ++ " is undefined for the argument type(s) " ++ left.display
      ++ ", " ++ right.display
  | paramsNotAllowed trigger =>
    "The trigger type '" ++ trigger ++ "' does not allow parameters"
  | returnsNotAllowed trigger =>
    "The trigger type '" ++ trigger ++ "' does not allow return values"
  | constantNotLiteral => "Constant values must be literals"
  | unknownProperty key => "Unknown property: " ++ key
  | missingProperty key => "Missing required property: " ++ key
  | requiresProperty key required =>
    "Property '" ++ key ++ "' requires property '" ++ required ++ "'"
  | argumentCount expected actual =>
    "Argument mismatch: expected " ++ Nat.repr expected ++ " argument(s) but got "
      ++ Nat.repr actual ++ " argument(s)"
  | outsideRange least greatest =>
    "Value of this component must be in range [" ++ Int.repr least.toInt ++ ","
      ++ Int.repr greatest.toInt ++ "]"
  | notPositive => "Expected a positive value for this component"
  | unsupportedExtension extension => "Unsupported file extension: '" ++ extension ++ "'"

/-- Causes found while code is generated from a tree that was not accepted before, or while code is
written. -/
inductive InternalFault where
  | noStack (prim : Prim)
  | noDefault (prim : Prim)
  | unresolvedLocal
  | unassignedArray
  | strayLoopControl
  | notAssignable
  | untypedNull
  | tooManyParts
  | errorNode
  | uncallableTrigger (trigger : String)
  | unknownGlobal (name : String)
  | unknownConstant (name : String)
  | unknownCommand (name : String)
  | unknownScript (trigger name : String)
  | unknownHookTarget (name : String)
  | unknownProperty (key : String)
  | unresolvedName (name : String)
  | errorValue
  | unencodable (value : Value) (prim : Prim) (config : String)
  | unwritable (script : String) (fault : WriteFault)
  deriving DecidableEq

def InternalFault.message : InternalFault → String
  | noStack prim => "Type " ++ prim.display ++ " has no stack"
  | noDefault prim => "Type " ++ prim.display ++ " has no default value"
  | unresolvedLocal => "Local variable was not resolved"
  | unassignedArray => "Array slot was not assigned"
  | strayLoopControl => "Loop control outside of a loop"
  | notAssignable => "Expression is not assignable"
  | untypedNull => "Untyped null"
  | tooManyParts => "Too many string parts"
  | errorNode => "Error node reached code generation"
  | uncallableTrigger trigger => "Scripts of " ++ trigger ++ " cannot be called"
  | unknownGlobal name => "Unknown global " ++ name
  | unknownConstant name => "Unknown constant " ++ name
  | unknownCommand name => "Unknown command " ++ name
  | unknownScript trigger name => "Unknown script [" ++ trigger ++ "," ++ name ++ "]"
  | unknownHookTarget name => "Unknown clientscript " ++ name
  | unknownProperty key => "Unknown property: " ++ key
  | unresolvedName name => name ++ " cannot be resolved"
  | errorValue => "Error value reached code generation"
  | unencodable value prim config =>
    "Cannot encode " ++ value.display ++ " as " ++ prim.display ++ " in config '" ++ config ++ "'"
  | unwritable script fault => script ++ ": " ++ fault.message

inductive Fault where
  | lexical (fault : LexicalFault)
  | grammar (fault : GrammarFault)
  | semantic (fault : SemanticFault)
  | internal (fault : InternalFault)
  deriving DecidableEq

def Fault.message : Fault → String
  | lexical fault => fault.message
  | grammar fault => fault.message
  | semantic fault => fault.message
  | internal fault => fault.message

def Fault.family : Fault → String
  | lexical _ => "lexical"
  | grammar _ => "syntax"
  | semantic _ => "semantic"
  | internal _ => "internal"

structure Diagnostic where
  fault : Fault
  span : Span
  deriving DecidableEq

namespace Diagnostic

def message (diagnostic : Diagnostic) : String := diagnostic.fault.message

/-- One line with the family, the place and the text of the cause. -/
def render (diagnostic : Diagnostic) (source : String) : String :=
  let (line, column) := lineColumn source diagnostic.span.start
  "[" ++ diagnostic.fault.family ++ "] line " ++ Nat.repr line ++ ":" ++ Nat.repr column ++ ": "
    ++ diagnostic.message

/-- Order diagnostics by the place where they begin; those that begin together keep their order. -/
def sorted (diagnostics : List Diagnostic) : List Diagnostic :=
  diagnostics.mergeSort fun left right => left.span.start ≤ right.span.start

end Diagnostic

end TriggerScript
