import TriggerScript.Diagnostic
import TriggerScript.Text.Blank
import TriggerScript.Text.Numeral
import TriggerScript.Token.Literal
import TriggerScript.Token.Vocabulary

/-!
Reading of tokens.

A `Scanner` stands at a place of a text. `Scanner.next` reads one token and moves on; it never
fails, problems are noted as faults. Strings may hold interpolated expressions to any depth: the
scanner counts how many are open, and the mark that closes one resumes the string around it. At the
end every further call reports the end again.
-/

namespace TriggerScript

/-- A token set aside while the one before it was read. -/
inductive Pending where
  | text (span : Span) (lexeme : String)
  | close (span : Span)
  deriving DecidableEq

def Pending.token : Pending → Token
  | text span lexeme => ⟨.string, span, some lexeme⟩
  | close span => ⟨.concatEnd, span, some ""⟩

/-- A place in a text and what was noted on the way to it. -/
structure Scanner where
  vocabulary : Vocabulary
  /-- The characters ahead. -/
  rest : List Placed
  /-- The offset behind the last character. -/
  stop : Nat
  /-- The distance by which every range is moved. -/
  base : Nat
  /-- The number of interpolations that are open. -/
  depth : Nat
  /-- Interpolations nested deeper than this are reported. -/
  limit : Nat
  pending : Option Pending
  /-- The kind of the token before, comments apart. -/
  last : TokenKind
  faults : List Diagnostic

namespace Scanner

def defaultLimit : Nat := 256

/-- A scanner of characters that carry their offsets; carriage returns are expected to be gone. -/
def ofPlaced (vocabulary : Vocabulary) (content : List Placed) (stop : Nat) : Scanner where
  vocabulary
  rest := content
  stop
  base := 0
  depth := 0
  limit := defaultLimit
  pending := none
  last := .eof
  faults := []

/-- A scanner of a text. Carriage returns are skipped and ranges are moved by `base`. -/
def ofText (vocabulary : Vocabulary) (source : String) (base : Nat) : Scanner :=
  let content := (Placed.ofText source).filter fun placed => placed.char ≠ '\r'
  { ofPlaced vocabulary content source.utf8ByteSize with base }

/-- The range from an offset to the first of the characters ahead. -/
def spanTo (scanner : Scanner) (start : Nat) (rest : List Placed) : Span :=
  (Span.mk start (Placed.offsetOr scanner.stop rest)).shift scanner.base

def note (scanner : Scanner) (fault : LexicalFault) (span : Span) : Scanner :=
  { scanner with faults := scanner.faults ++ [⟨.lexical fault, span⟩] }

def accept (scanner : Scanner) (kind : TokenKind) (lexeme : List Char) (start : Nat)
    (rest : List Placed) : Token × Scanner :=
  (⟨kind, scanner.spanTo start rest, some (String.ofList lexeme)⟩, { scanner with rest })

def reject (scanner : Scanner) (char : Char) (start : Nat) (rest : List Placed) : Token × Scanner :=
  let span := scanner.spanTo start rest
  (⟨.error, span, none⟩, { scanner.note (.unexpectedCharacter char) span with rest })

def isNameStart (char : Char) : Bool := char.isAlpha || char = '_'

def isNamePart (char : Char) : Bool := char.isAlphanum || char = '_'

/-- Behind a complete operand a sign is an operator; elsewhere it may begin a number. -/
def signStartsNumber : TokenKind → Bool
  | .identifier | .integer | .long | .coordgrid | .string | .concatEnd | .bool
  | .rightParen => false
  | _ => true

def name (scanner : Scanner) (start : Nat) (first : Char) (rest : List Placed) : Token × Scanner :=
  let word := first :: Placed.chars (rest.takeWhile fun placed => isNamePart placed.char)
  let kind := (scanner.vocabulary.keyword? (String.ofList word)).getD .identifier
  scanner.accept kind word start (rest.dropWhile fun placed => isNamePart placed.char)

/-- The digits of a hexadecimal number, the characters `0x` having been read. -/
def hexadecimal (scanner : Scanner) (start : Nat) (rest : List Placed) : Token × Scanner :=
  let isDigit (placed : Placed) : Bool := (hexDigit? placed.char).isSome
  let digits := Placed.chars (rest.takeWhile isDigit)
  let lexeme := '0' :: 'x' :: digits
  match rest.dropWhile isDigit with
  | ⟨_, 'L'⟩ :: behind | ⟨_, 'l'⟩ :: behind => scanner.accept .long lexeme start behind
  | behind =>
    let scanner :=
      if digits.isEmpty then scanner.note .emptyHexadecimal (scanner.spanTo start behind)
      else scanner
    scanner.accept .integer lexeme start behind

/-- The pieces of a coordinate, its first underscore having been read. -/
def coordinate (scanner : Scanner) (start : Nat) (head : List Char) (rest : List Placed) :
    Token × Scanner :=
  let isPart (placed : Placed) : Bool := placed.char.isDigit || placed.char = '_'
  let lexeme := head ++ '_' :: Placed.chars (rest.takeWhile isPart)
  scanner.accept .coordgrid lexeme start (rest.dropWhile isPart)

def number (scanner : Scanner) (start : Nat) (first : Char) (rest : List Placed) :
    Token × Scanner :=
  let isDigit (placed : Placed) : Bool := placed.char.isDigit
  let lexeme := first :: Placed.chars (rest.takeWhile isDigit)
  match rest.dropWhile isDigit with
  | [] => scanner.accept .integer lexeme start []
  | next :: behind =>
    if (next.char = 'x' || next.char = 'X') && lexeme = ['0'] then scanner.hexadecimal start behind
    else if next.char = '_' then scanner.coordinate start lexeme behind
    else if next.char = 'L' || next.char = 'l' then scanner.accept .long lexeme start behind
    else scanner.accept .integer lexeme start (next :: behind)

def lineComment (scanner : Scanner) (start : Nat) (rest : List Placed) : Token × Scanner :=
  let isInside (placed : Placed) : Bool := placed.char ≠ '\n'
  scanner.accept .comment (trimBlanks (Placed.chars (rest.takeWhile isInside))) start
    (rest.dropWhile isInside)

/-- The body of a block comment, whether it is closed, and what stands behind it. -/
def blockBody : List Placed → List Char × Bool × List Placed
  | [] => ([], false, [])
  | first :: rest =>
    if first.char = '*' && (rest.head?.map Placed.char) = some '/' then ([], true, rest.tail)
    else
      let (body, closed, behind) := blockBody rest
      (first.char :: body, closed, behind)

/-- The lines of a text that a line feed ends; `line` is the reversed start of the first one. -/
def finishedLines (line : List Char) : List Char → List (List Char)
  | [] => []
  | char :: rest =>
    if char = '\n' then line.reverse :: finishedLines [] rest else finishedLines (char :: line) rest

/-- A line of a block comment without blanks at its ends and without one leading star. -/
def trimStar (line : List Char) : List Char :=
  match trimBlanks line with
  | '*' :: rest => trimBlanks rest
  | trimmed => trimmed

/-- The lexeme of a block comment: its finished lines, from the first one that holds a text. -/
def blockText (body : List Char) : List Char :=
  List.intercalate ['\n'] (((finishedLines [] body).map trimStar).dropWhile List.isEmpty)

def blockComment (scanner : Scanner) (start : Nat) (rest : List Placed) : Token × Scanner :=
  let (body, closed, behind) := blockBody rest
  let scanner :=
    if closed then scanner else scanner.note .unclosedComment (scanner.spanTo start behind)
  scanner.accept .comment (blockText body) start behind

/-- A piece of a string literal. `interpolated` says that an interpolation was closed before it. -/
def string (scanner : Scanner) (interpolated : Bool) (start : Nat) (content : List Placed) :
    Token × Scanner :=
  let literal := Literal.read scanner.stop content
  let lexeme := String.ofList literal.content
  let span := scanner.spanTo start literal.rest
  let invalid := literal.invalid.map fun offset =>
    Diagnostic.mk (.lexical .invalidEscape) ((Span.mk start offset).shift scanner.base)
  let scanner := { scanner with rest := literal.rest, faults := scanner.faults ++ invalid }
  match literal.ending with
  | .broken =>
    let pending := if interpolated then some (.close span) else none
    (⟨.string, span, some lexeme⟩, { scanner.note .unclosedString span with pending })
  | .closed =>
    if interpolated then
      if lexeme.isEmpty then (⟨.concatEnd, span, some ""⟩, scanner)
      else (⟨.string, span, some lexeme⟩, { scanner with pending := some (.close span) })
    else (⟨.string, span, some lexeme⟩, scanner)
  | .opened =>
    let noted :=
      if scanner.limit ≤ scanner.depth then scanner.note .deepInterpolation span else scanner
    let deeper := { noted with depth := scanner.depth + 1 }
    if interpolated then (⟨.string, span, some lexeme⟩, deeper)
    else (⟨.concatBegin, span, some ""⟩, { deeper with pending := some (.text span lexeme) })

/-- The longest operator made of `first` and at most `count` of the characters behind it, with the
number of characters taken from those. -/
def longestOperator (vocabulary : Vocabulary) (first : Char) (behind : List Char) :
    Nat → Option (TokenKind × Nat)
  | 0 => (vocabulary.operator? (String.ofList [first])).map fun kind => (kind, 0)
  | count + 1 =>
    match vocabulary.operator? (String.ofList (first :: behind.take (count + 1))) with
    | some kind => some (kind, count + 1)
    | none => longestOperator vocabulary first behind count

/-- An operator: the longest one of the vocabulary that the line holds at this place. -/
def operator (scanner : Scanner) (start : Nat) (first : Char) (rest : List Placed) :
    Token × Scanner :=
  let line := Placed.chars (rest.takeWhile fun placed => placed.char ≠ '\n')
  let behind := line.take (scanner.vocabulary.operatorLength - 1)
  match longestOperator scanner.vocabulary first behind behind.length with
  | some (kind, count) => scanner.accept kind (first :: behind.take count) start (rest.drop count)
  | none => scanner.reject first start rest

/-- The end of the text. Interpolations that are still open are reported once. -/
def finish (scanner : Scanner) : Token × Scanner :=
  let span := scanner.spanTo scanner.stop []
  let scanner := { scanner with rest := [] }
  let scanner :=
    if scanner.depth = 0 then scanner
    else { scanner.note .unclosedInterpolation span with depth := 0 }
  (⟨.eof, span, some ""⟩, scanner)

def dispatch (scanner : Scanner) (first : Placed) (rest : List Placed) : Token × Scanner :=
  let start := first.offset
  let char := first.char
  let next := rest.head?.map Placed.char
  if isNameStart char then scanner.name start char rest
  else if char = '"' then scanner.string false start rest
  else if char.isDigit
      || ((char = '-' || char = '+') && next.any Char.isDigit && signStartsNumber scanner.last) then
    scanner.number start char rest
  else if char = '/' && next = some '/' then scanner.lineComment start rest.tail
  else if char = '/' && next = some '*' then scanner.blockComment start rest.tail
  else
    match scanner.vocabulary.separator? char with
    | some kind => scanner.accept kind [char] start rest
    | none =>
      if scanner.depth ≠ 0 && char = '>' then
        { scanner with depth := scanner.depth - 1 }.string true
          (Placed.offsetOr scanner.stop rest) rest
      else if scanner.vocabulary.startsOperator char then scanner.operator start char rest
      else scanner.reject char start rest

def scan (scanner : Scanner) : Token × Scanner :=
  match scanner.pending with
  | some pending => (pending.token, { scanner with pending := none })
  | none =>
    match scanner.rest.dropWhile fun placed => isBlank placed.char with
    | [] => scanner.finish
    | first :: rest => scanner.dispatch first rest

def next (scanner : Scanner) : Token × Scanner :=
  let (token, scanner) := scanner.scan
  (token, if token.kind = .comment then scanner else { scanner with last := token.kind })

/-- The faults noted so far, and a scanner that has forgotten them. -/
def takeFaults (scanner : Scanner) : List Diagnostic × Scanner :=
  (scanner.faults, { scanner with faults := [] })

end Scanner

end TriggerScript
