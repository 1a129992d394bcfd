import TriggerScript.Token.Progress

/-!
Token streams.

A stream reads tokens on demand, hides comments and lets a reader look ahead. A text embedded in a
token can be opened as a stream of its own; the stream around it waits, exactly as it was, until
the embedded one is closed. The end of a text is reported for ever.
-/

namespace TriggerScript

/-- One text of a stream: its scanner, the tokens read ahead and the token taken last. -/
structure Lane where
  scanner : Scanner
  ahead : List Token
  previous : Option Token

def Lane.start (scanner : Scanner) : Lane := ⟨scanner, [], none⟩

structure TokenStream where
  active : Lane
  /-- The texts around the active one, the nearest first. -/
  suspended : List Lane
  comments : List Token
  /-- Faults of embedded texts that were closed. -/
  faults : List Diagnostic

namespace TokenStream

def ofScanner (scanner : Scanner) : TokenStream := ⟨Lane.start scanner, [], [], []⟩

def ofText (vocabulary : Vocabulary) (source : String) : TokenStream :=
  ofScanner (Scanner.ofText vocabulary source 0)

def readAhead (stream : TokenStream) : TokenStream :=
  let (comments, token, scanner) := stream.active.scanner.advance
  { stream with
    active := { stream.active with scanner, ahead := stream.active.ahead ++ [token] }
    comments := stream.comments ++ comments }

def fill (stream : TokenStream) (count : Nat) : TokenStream :=
  Nat.repeat readAhead (count + 1 - stream.active.ahead.length) stream

/-- A token that stands for the end of a text of which nothing is known. -/
def endToken : Token := ⟨.eof, Span.empty, some ""⟩

def lookahead (stream : TokenStream) (count : Nat) : Token × TokenStream :=
  let stream := stream.fill count
  (stream.active.ahead.getD count endToken, stream)

def peek (stream : TokenStream) : Token × TokenStream := stream.lookahead 0

/-- Take the next token. The end of a text is never used up. -/
def take (stream : TokenStream) : Token × TokenStream :=
  let stream := stream.fill 0
  match stream.active.ahead with
  | [] => (endToken, stream)
  | token :: ahead =>
    if token.kind = .eof then (token, stream)
    else (token, { stream with active := { stream.active with ahead, previous := some token } })

def previous (stream : TokenStream) : Option Token := stream.active.previous

def isFinished (stream : TokenStream) : Bool × TokenStream :=
  let (token, stream) := stream.peek
  (token.kind = .eof, stream)

def enter (stream : TokenStream) (scanner : Scanner) : TokenStream :=
  { stream with active := Lane.start scanner, suspended := stream.active :: stream.suspended }

/-- Close an embedded text, keeping its faults. Fails if none is open. -/
def leave (stream : TokenStream) : Bool × TokenStream :=
  match stream.suspended with
  | [] => (false, stream)
  | active :: suspended =>
    (true, { stream with
      active, suspended, faults := stream.faults ++ stream.active.scanner.faults })

def depth (stream : TokenStream) : Nat := stream.suspended.length

def forgetFaults (lane : Lane) : Lane := { lane with scanner := { lane.scanner with faults := [] } }

/-- The faults noted so far by every text, in the order of their places, and a stream that has
forgotten them. -/
def takeFaults (stream : TokenStream) : List Diagnostic × TokenStream :=
  let faults :=
    stream.faults ++ stream.active.scanner.faults
      ++ stream.suspended.reverse.flatMap fun lane => lane.scanner.faults
  (Diagnostic.sorted faults,
    { stream with
      active := forgetFaults stream.active
      suspended := stream.suspended.map forgetFaults
      faults := [] })

end TokenStream

end TriggerScript
