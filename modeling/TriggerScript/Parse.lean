import TriggerScript.Token.Stream

/-!
Reading phrases from tokens.

A `Parse` takes tokens from a stream and ends in one of three ways: with a value, with a diagnostic
that rejects the phrase, or because the bound on its rounds was used up. Rejection ends the phrase,
a reported fault does not. The cursor remembers the range of the phrase being read.
-/

namespace TriggerScript

inductive Outcome (α : Type) where
  | found (value : α)
  | rejected (diagnostic : Diagnostic)
  | exhausted

/-- The stream, the range of the phrase being read and the faults reported so far. -/
structure Cursor where
  stream : TokenStream
  range : Span
  faults : List Diagnostic

def Cursor.start (stream : TokenStream) : Cursor := ⟨stream, Span.empty, []⟩

/-- Every fault found while reading, in the order of places. -/
def Cursor.finish (cursor : Cursor) : List Diagnostic :=
  Diagnostic.sorted (cursor.stream.takeFaults.1 ++ cursor.faults)

def Parse (α : Type) : Type := Cursor → Outcome α × Cursor

namespace Parse

variable {α β : Type}

def succeed (value : α) : Parse α := fun cursor => (.found value, cursor)

def andThen (first : Parse α) (next : α → Parse β) : Parse β := fun cursor =>
  match first cursor with
  | (.found value, behind) => next value behind
  | (.rejected diagnostic, behind) => (.rejected diagnostic, behind)
  | (.exhausted, behind) => (.exhausted, behind)

instance : Monad Parse where
  pure := succeed
  bind := andThen

def exhaust : Parse α := fun cursor => (.exhausted, cursor)

def reject (fault : GrammarFault) (span : Span) : Parse α := fun cursor =>
  (.rejected ⟨.grammar fault, span⟩, cursor)

def note (diagnostic : Diagnostic) : Parse Unit := fun cursor =>
  (.found (), { cursor with faults := cursor.faults ++ [diagnostic] })

def report (fault : GrammarFault) (span : Span) : Parse Unit := note ⟨.grammar fault, span⟩

/-- Build on a value, or report why there is none and take a stand-in. -/
def orReport (value : Except GrammarFault α) (build : α → β) (standIn : β) (span : Span) :
    Parse β :=
  fun cursor =>
    match value with
    | .ok value => (.found (build value), cursor)
    | .error fault =>
      (.found standIn, { cursor with faults := cursor.faults ++ [⟨.grammar fault, span⟩] })

/-! ### Tokens -/

def lookahead (count : Nat) : Parse Token := fun cursor =>
  let (token, stream) := cursor.stream.lookahead count
  (.found token, { cursor with stream })

def peek : Parse Token := lookahead 0

def kindAhead (count : Nat) : Parse TokenKind := do return (← lookahead count).kind

def kind : Parse TokenKind := kindAhead 0

def isFinished : Parse Bool := do return (← kind) = .eof

def take : Parse Token := fun cursor =>
  let (token, stream) := cursor.stream.take
  (.found token, { cursor with stream, range := cursor.range.merge token.span })

def skip : Parse Unit := fun cursor => (.found (), { cursor with stream := cursor.stream.take.2 })

def rejectNext (fault : GrammarFault) : Parse α := do reject fault (← peek).span

def expect (expected : TokenKind) : Parse Token := do
  let found ← kind
  if found = expected then take else rejectNext (.expectedToken expected found)

def accept (expected : TokenKind) : Parse Bool := do
  if (← kind) = expected then
    let _ ← take
    return true
  else
    return false

/-! ### Phrases -/

/-- Read a phrase together with its range, which becomes part of the range around it. -/
def ranged (phrase : Parse α) : Parse (α × Span) := fun cursor =>
  match phrase { cursor with range := Span.empty } with
  | (.found value, behind) =>
    (.found (value, behind.range), { behind with range := cursor.range.merge behind.range })
  | (.rejected diagnostic, behind) => (.rejected diagnostic, behind)
  | (.exhausted, behind) => (.exhausted, behind)

/-- Read a phrase from an embedded text, which is closed however reading ends. -/
def embedded (scanner : Scanner) (phrase : Parse α) : Parse α := fun cursor =>
  let (outcome, behind) := phrase { cursor with stream := cursor.stream.enter scanner }
  (outcome, { behind with stream := behind.stream.leave.2 })

def attempt (phrase : Parse α) : Parse (Except Diagnostic α) := fun cursor =>
  match phrase cursor with
  | (.found value, behind) => (.found (.ok value), behind)
  | (.rejected diagnostic, behind) => (.found (.error diagnostic), behind)
  | (.exhausted, behind) => (.exhausted, behind)

def many (condition : Parse Bool) (phrase : Parse α) : Nat → Parse (List α)
  | 0 => exhaust
  | bound + 1 => do
    if ← condition then
      let first ← phrase
      return first :: (← many condition phrase bound)
    else
      return []

/-- Read phrases divided by commas; each may depend on how many stand before it. -/
def separated (phrase : Nat → Parse α) (index : Nat) : Nat → Parse (List α)
  | 0 => exhaust
  | bound + 1 => do
    let first ← phrase index
    if ← accept .comma then
      return first :: (← separated phrase (index + 1) bound)
    else
      return [first]

def skipUntil (kinds : List TokenKind) : Nat → Parse Unit
  | 0 => exhaust
  | bound + 1 => do
    let found ← kind
    if found = .eof || kinds.contains found then return ()
    else
      skip
      skipUntil kinds bound

/-- Read declarations up to the end. One that is rejected is reported, and `recover` finds the
place where the next one may begin. -/
def declarations (phrase : Parse α) (recover : Parse Unit) : Nat → Parse (List α)
  | 0 => exhaust
  | bound + 1 => do
    if ← isFinished then return []
    match ← attempt phrase with
    | .ok value => return value :: (← declarations phrase recover bound)
    | .error diagnostic =>
      note diagnostic
      recover
      declarations phrase recover bound

end Parse

/-- A number of rounds that is enough to read any text of a given size. -/
def enoughRounds (source : String) : Nat := 8 * (source.utf8ByteSize + 1)

end TriggerScript
