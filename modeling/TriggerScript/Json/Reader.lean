import TriggerScript.Json.Basic
import TriggerScript.Json.Magnitude

/-!
Reading of JSON texts.

The text is first cut into symbols; a machine with a stack of open lists and objects then reads the
symbols one by one. A number beyond the range of floating-point numbers is broken, and so are a text
with half of a surrogate pair, an object with such a text for a name, and what is nested deeper than
`maxDepth`.
-/

namespace TriggerScript

namespace Json

inductive Symbol where
  | openList
  | closeList
  | openObject
  | closeObject
  | comma
  | colon
  /-- A text, unless it is broken. -/
  | text (content : Option String)
  | atom (value : Json)

def isSpace (char : Char) : Bool := char = ' ' || char = '\t' || char = '\n' || char = '\r'

def unit? : List Char → Option (Nat × List Char)
  | first :: second :: third :: fourth :: rest =>
    (Numeral.hexadecimal? [first, second, third, fourth]).map fun value => (value, rest)
  | _ => none

def isHighHalf (unit : Nat) : Bool := 0xD800 ≤ unit && unit < 0xDC00

def isLowHalf (unit : Nat) : Bool := 0xDC00 ≤ unit && unit < 0xE000

def lowHalf? : List Char → Option (Nat × List Char)
  | '\\' :: 'u' :: rest => (unit? rest).filter fun (low, _) => isLowHalf low
  | _ => none

/-- The character of an escape by number, of which there is none for half of a pair. -/
def numbered (unit : Nat) (rest : List Char) : Option Char × List Char :=
  if isHighHalf unit then
    match lowHalf? rest with
    | some (low, behind) =>
      (some (Char.ofNat (0x10000 + (unit - 0xD800) * 0x400 + (low - 0xDC00))), behind)
    | none => (none, rest)
  else if isLowHalf unit then (none, rest)
  else (some (Char.ofNat unit), rest)

def escaped? : List Char → Option (Option Char × List Char)
  | '"' :: rest => some (some '"', rest)
  | '\\' :: rest => some (some '\\', rest)
  | '/' :: rest => some (some '/', rest)
  | 'b' :: rest => some (some '\x08', rest)
  | 'f' :: rest => some (some '\x0c', rest)
  | 'n' :: rest => some (some '\n', rest)
  | 'r' :: rest => some (some '\r', rest)
  | 't' :: rest => some (some '\t', rest)
  | 'u' :: rest => (unit? rest).map fun (unit, rest) => numbered unit rest
  | _ => none

theorem length_unit? {content behind : List Char} {value : Nat}
    (read : unit? content = some (value, behind)) : behind.length < content.length := by
  unfold unit? at read
  split at read
  · simp only [Option.map_eq_some_iff, Prod.mk.injEq] at read
    obtain ⟨_, _, _, rfl⟩ := read
    simp only [List.length_cons]
    omega
  · contradiction

theorem length_lowHalf? {content behind : List Char} {low : Nat}
    (read : lowHalf? content = some (low, behind)) : behind.length < content.length := by
  unfold lowHalf? at read
  split at read
  · have shorter := length_unit? (Option.filter_eq_some_iff.mp read).1
    simp only [List.length_cons]
    omega
  · contradiction

theorem length_numbered (unit : Nat) (rest : List Char) :
    (numbered unit rest).2.length ≤ rest.length := by
  unfold numbered
  split
  · split
    · rename_i low behind read
      exact Nat.le_of_lt (length_lowHalf? read)
    · exact Nat.le_refl _
  · split <;> exact Nat.le_refl _

theorem length_escaped? {content behind : List Char} {char : Option Char}
    (read : escaped? content = some (char, behind)) : behind.length < content.length := by
  unfold escaped? at read
  split at read
  case h_9 rest =>
    simp only [Option.map_eq_some_iff] at read
    obtain ⟨⟨unit, inner⟩, unit_read, found⟩ := read
    have shorter := length_unit? unit_read
    have bounded := length_numbered unit inner
    simp only [found] at bounded
    simp only [List.length_cons]
    omega
  case h_10 => contradiction
  all_goals
    cases read
    exact Nat.lt_succ_self _

/-- One more character of a text, which is broken once it misses one. -/
def extend (char : Option Char) (before : Option (List Char)) : Option (List Char) :=
  match char, before with
  | some char, some before => some (char :: before)
  | _, _ => none

/-- The characters up to the closing quote, unless they are broken, and what stands behind it. -/
def textBody (content : List Char) (before : Option (List Char)) :
    Option (Option (List Char) × List Char) :=
  match content with
  | [] => none
  | char :: rest =>
    if char = '"' then some (before.map List.reverse, rest)
    else if char = '\\' then
      match read : escaped? rest with
      | none => none
      | some (char, behind) =>
        have := length_escaped? read
        textBody behind (extend char before)
    else if char.toNat < 0x20 then none
    else textBody rest (extend (some char) before)
termination_by content.length
decreasing_by all_goals simp only [List.length_cons]; omega

theorem length_textBody {content behind : List Char} {before body : Option (List Char)}
    (read : textBody content before = some (body, behind)) : behind.length < content.length := by
  fun_induction textBody content before with
  | case1 => contradiction
  | case2 =>
    cases read
    exact Nat.lt_succ_self _
  | case3 => contradiction
  | case4 _ _ _ _ _ shorter _ ih =>
    exact Nat.lt_trans (ih read) (Nat.lt_succ_of_lt shorter)
  | case5 => contradiction
  | case6 _ _ _ _ _ _ ih => exact Nat.lt_succ_of_lt (ih read)

def isNumberPart (char : Char) : Bool :=
  char.isDigit || char = '-' || char = '+' || char = '.' || char = 'e' || char = 'E'

def isWhole : List Char → Bool
  | ['0'] => true
  | '0' :: _ => false
  | digits => !digits.isEmpty && digits.all Char.isDigit

/-- The digits behind the point and the exponent of a number, by what stands behind its digits
before the point. -/
def tail? : List Char → Option (List Char × Int)
  | '.' :: rest =>
    let fraction := rest.takeWhile Char.isDigit
    if fraction.isEmpty then none
    else
      match rest.dropWhile Char.isDigit with
      | [] => some (fraction, 0)
      | 'e' :: exponent | 'E' :: exponent =>
        (Numeral.signed? exponent).map fun value => (fraction, value)
      | _ => none
  | 'e' :: exponent | 'E' :: exponent => (Numeral.signed? exponent).map fun value => ([], value)
  | _ => none

def ofMagnitude (magnitude : Magnitude) : Json := if magnitude.isBeyond then .broken else .real

/-- A number without its sign: whole numbers beyond the words of 64 bits are not kept. -/
def unsignedNumber? (negative : Bool) (content : List Char) : Option Json :=
  let whole := content.takeWhile Char.isDigit
  if !isWhole whole then none
  else
    match content.dropWhile Char.isDigit with
    | [] =>
      (Numeral.decimal? whole).map fun value =>
        if negative && 0 < value && value ≤ 0x8000000000000000 then .int (-(value : Int))
        else if !negative && value < UInt64.size then .int value
        else ofMagnitude (Magnitude.ofParts whole [] 0)
    | tail =>
      (tail? tail).map fun (fraction, exponent) =>
        ofMagnitude (Magnitude.ofParts whole fraction exponent)

def number? : List Char → Option Json
  | '-' :: content => unsignedNumber? true content
  | content => unsignedNumber? false content

/-- The first symbol of a text that does not begin with a blank. -/
def symbol? : List Char → Option (Symbol × List Char)
  | '[' :: rest => some (.openList, rest)
  | ']' :: rest => some (.closeList, rest)
  | '\x7b' :: rest => some (.openObject, rest)
  | '\x7d' :: rest => some (.closeObject, rest)
  | ',' :: rest => some (.comma, rest)
  | ':' :: rest => some (.colon, rest)
  | '"' :: rest =>
    (textBody rest (some [])).map fun (body, behind) => (.text (body.map String.ofList), behind)
  | 'n' :: 'u' :: 'l' :: 'l' :: rest => some (.atom .null, rest)
  | 't' :: 'r' :: 'u' :: 'e' :: rest => some (.atom (.bool true), rest)
  | 'f' :: 'a' :: 'l' :: 's' :: 'e' :: rest => some (.atom (.bool false), rest)
  | char :: rest =>
    if isNumberPart char then
      (number? (char :: rest.takeWhile isNumberPart)).map fun value =>
        (.atom value, rest.dropWhile isNumberPart)
    else none
  | [] => none

theorem length_symbol? {content behind : List Char} {symbol : Symbol}
    (read : symbol? content = some (symbol, behind)) : behind.length < content.length := by
  unfold symbol? at read
  split at read
  case h_7 rest =>
    simp only [Option.map_eq_some_iff, Prod.mk.injEq] at read
    obtain ⟨⟨body, rest⟩, body_read, _, rfl⟩ := read
    exact Nat.lt_succ_of_lt (length_textBody body_read)
  case h_11 char rest _ _ _ _ _ _ _ _ _ _ =>
    split at read
    · simp only [Option.map_eq_some_iff, Prod.mk.injEq] at read
      obtain ⟨value, _, _, rfl⟩ := read
      exact Nat.lt_succ_of_le (List.dropWhile_sublist isNumberPart).length_le
    · contradiction
  case h_12 => contradiction
  all_goals
    cases read
    simp only [List.length_cons]
    omega

def symbols? (content : List Char) : Option (List Symbol) :=
  match content with
  | [] => some []
  | char :: rest =>
    if isSpace char then symbols? rest
    else
      match read : symbol? (char :: rest) with
      | none => none
      | some (symbol, behind) =>
        have := length_symbol? read
        (symbols? behind).map fun symbols => symbol :: symbols
termination_by content.length
decreasing_by
  · exact Nat.lt_succ_self _
  · exact this

/-- A list or object that is still open, what it holds in reverse order. An object is broken if it
holds `none`. -/
inductive Frame where
  | list (items : List Json)
  | object (members : Option (List (String × Json))) (name : String)

inductive Expected where
  | value
  /-- A value or the end of the list that was just opened. -/
  | item
  | name
  /-- A name or the end of the object that was just opened. -/
  | member
  /-- The colon behind a name. -/
  | colon
  /-- A comma or the end of what is open. -/
  | more
  /-- Nothing. -/
  | done (value : Json)

/-- What is open, the innermost first, and what may come next. -/
structure Reading where
  frames : List Frame
  expected : Expected

/-- The number of lists and objects that may be nested in each other. -/
def maxDepth : Nat := 127

def Frame.value (outer : List Frame) (frame : Frame) : Json :=
  if (outer.drop (maxDepth - 1)).isEmpty then
    match frame with
    | .list items => .list items.reverse
    | .object (some members) _ => .object members.reverse
    | .object none _ => .broken
  else .broken

namespace Reading

def place (value : Json) : List Frame → Reading
  | [] => ⟨[], .done value⟩
  | .list items :: frames => ⟨.list (value :: items) :: frames, .more⟩
  | .object members name :: frames =>
    ⟨.object (members.map fun members => (name, value) :: members) "" :: frames, .more⟩

def close (frame : Frame) (outer : List Frame) : Reading := place (frame.value outer) outer

def begin (frames : List Frame) : Symbol → Option Reading
  | .atom value => some (place value frames)
  | .text content => some (place (content.elim .broken .text) frames)
  | .openList => some ⟨.list [] :: frames, .item⟩
  | .openObject => some ⟨.object (some []) "" :: frames, .member⟩
  | _ => none

def beginMember (name : Option String) : List Frame → Option Reading
  | .object members _ :: frames =>
    match name with
    | some name => some ⟨.object members name :: frames, .colon⟩
    | none => some ⟨.object none "" :: frames, .colon⟩
  | _ => none

def step (reading : Reading) (symbol : Symbol) : Option Reading :=
  match reading.expected, symbol, reading.frames with
  | .value, symbol, frames => begin frames symbol
  | .item, .closeList, .list items :: frames => some (close (.list items) frames)
  | .item, symbol, frames => begin frames symbol
  | .member, .closeObject, .object members name :: frames =>
    some (close (.object members name) frames)
  | .member, .text name, frames | .name, .text name, frames => beginMember name frames
  | .colon, .colon, frames => some ⟨frames, .value⟩
  | .more, .comma, .list items :: frames => some ⟨.list items :: frames, .value⟩
  | .more, .comma, .object members name :: frames => some ⟨.object members name :: frames, .name⟩
  | .more, .closeList, .list items :: frames => some (close (.list items) frames)
  | .more, .closeObject, .object members name :: frames =>
    some (close (.object members name) frames)
  | _, _, _ => none

end Reading

def read? (text : String) : Option Json := do
  let symbols ← symbols? text.toList
  let reading ← symbols.foldlM Reading.step ⟨[], .value⟩
  match reading.expected with
  | .done value => some value
  | _ => none

end Json

end TriggerScript
