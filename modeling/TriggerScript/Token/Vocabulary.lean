import TriggerScript.Token.Basic
import TriggerScript.Value.Prim

/-!
Vocabularies: the words, separators and operators of a language.

Spellings are kept with the latest registration first, so a repeated registration replaces the
kind of a spelling.
-/

namespace TriggerScript

structure Vocabulary where
  keywords : List (String × TokenKind)
  separators : List (Char × TokenKind)
  operators : List (String × TokenKind)
  deriving Inhabited

namespace Vocabulary

def empty : Vocabulary := ⟨[], [], []⟩

def addKeyword (vocabulary : Vocabulary) (word : String) (kind : TokenKind) : Vocabulary :=
  { vocabulary with keywords := (word, kind) :: vocabulary.keywords }

def addSeparator (vocabulary : Vocabulary) (char : Char) (kind : TokenKind) : Vocabulary :=
  { vocabulary with separators := (char, kind) :: vocabulary.separators }

def addOperator (vocabulary : Vocabulary) (text : String) (kind : TokenKind) : Vocabulary :=
  { vocabulary with operators := (text, kind) :: vocabulary.operators }

def keyword? (vocabulary : Vocabulary) (word : String) : Option TokenKind :=
  vocabulary.keywords.lookup word

def separator? (vocabulary : Vocabulary) (char : Char) : Option TokenKind :=
  vocabulary.separators.lookup char

def operator? (vocabulary : Vocabulary) (text : String) : Option TokenKind :=
  vocabulary.operators.lookup text

def operatorLength (vocabulary : Vocabulary) : Nat :=
  vocabulary.operators.foldl (fun longest (text, _) => max longest text.length) 0

def startsOperator (vocabulary : Vocabulary) (char : Char) : Bool :=
  vocabulary.operators.any fun (text, _) => text.toList.head? = some char

def typeNames (condition : Prim → Bool) : List String :=
  (Prim.all.filter condition).filterMap Prim.name?

def scripts : Vocabulary where
  keywords :=
    (typeNames Prim.isReferencable).map (fun name => (name, .type))
      ++ (typeNames Prim.isDeclarable).map (fun name => ("def_" ++ name, .define))
      ++ (typeNames Prim.isArrayable).map (fun name => (name ++ "array", .arrayType))
      ++ (typeNames fun prim => prim.stack? = some .int).map
        (fun name => ("switch_" ++ name, .switch))
      ++ [("true", .bool), ("false", .bool), ("if", .ifWord), ("else", .elseWord),
        ("while", .whileWord), ("do", .doWord), ("return", .returnWord), ("case", .caseWord),
        ("default", .defaultWord), ("calc", .calcWord), ("null", .nullWord),
        ("continue", .continueWord), ("break", .breakWord)]
  separators := [
    ('(', .leftParen), (')', .rightParen), ('[', .leftBracket), (']', .rightBracket),
    ('\x7b', .leftBrace), ('\x7d', .rightBrace), (',', .comma), ('~', .tilde), ('@', .atSign),
    ('$', .dollar), ('^', .caret), (':', .colon), (';', .semicolon), ('.', .dot), ('#', .hash)]
  operators := [
    ("=", .equals), ("!", .notEquals), ("<", .lessThan), (">", .greaterThan),
    ("<=", .lessThanOrEqual), (">=", .greaterThanOrEqual), ("+", .plus), ("-", .minus),
    ("*", .mul), ("/", .div), ("%", .mod), ("&", .and), ("|", .or)]

def configs : Vocabulary where
  keywords :=
    (typeNames Prim.isReferencable).map (fun name => (name, .type))
      ++ [("yes", .bool), ("no", .bool), ("true", .bool), ("false", .bool)]
  separators := [
    ('[', .leftBracket), (']', .rightBracket), (',', .comma), ('^', .caret), (':', .colon)]
  operators := [("=", .equals)]

end Vocabulary

end TriggerScript
