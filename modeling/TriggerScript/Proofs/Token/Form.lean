import Mathlib
import TriggerScript.Data.Total
import TriggerScript.Token.Progress

/-!
What begins with a character.

Which token begins with a character is settled by the characters behind it: its kind, its text and
how many of them belong to it. `formOf` says so, and `dispatch_eq` that a scanner reads just that.
What is true of reading a token is shown for the few ways to read a form.
-/

namespace TriggerScript

open List Placed

theorem mem_of_lookup {α : Type} [BEq α] [LawfulBEq α] {entries : List (α × TokenKind)}
    {spelling : α} {kind : TokenKind} (found : entries.lookup spelling = some kind) :
    kind ∈ entries.map Prod.snd := by
  obtain ⟨before, after, rfl, -⟩ := lookup_eq_some_iff.mp found
  simp

namespace Scanner

/-- What begins with a character. -/
inductive Form where
  /-- A word, with the number of characters behind the first one that belong to it and what is wrong
  with it. -/
  | word (kind : TokenKind) (lexeme : List Char) (count : Nat) (fault : Option LexicalFault)
  /-- Nothing that is known. -/
  | unknown
  /-- A piece of a string, at its start or behind an interpolation. -/
  | piece (interpolated : Bool)

/-- Note a fault, if there is one. -/
def remark (scanner : Scanner) (fault : Option LexicalFault) (span : Span) : Scanner :=
  fault.elim scanner fun fault => scanner.note fault span

/-- Read what begins with a character. -/
def Form.read (scanner : Scanner) (first : Placed) (rest : List Placed) : Form → Token × Scanner
  | .word kind lexeme count fault =>
    (scanner.remark fault (scanner.spanTo first.offset (rest.drop count))).accept kind lexeme
      first.offset
      (rest.drop count)
  | .unknown => scanner.reject first.char first.offset rest
  | .piece false => scanner.string false first.offset rest
  | .piece true =>
    { scanner with depth := scanner.depth - 1 }.string true (Placed.offsetOr scanner.stop rest) rest

/-- A hexadecimal number; `behind` follows the characters `0x`. -/
def hexadecimalForm (behind : List Char) : Form :=
  let digits := behind.takeWhile fun char => (hexDigit? char).isSome
  if ((behind.drop digits.length).head?.any fun char => char = 'L' || char = 'l') then
    .word .long ('0' :: 'x' :: digits) (digits.length + 2) none
  else
    .word .integer ('0' :: 'x' :: digits) (digits.length + 1)
      (if digits.isEmpty then some .emptyHexadecimal else none)

def numberForm (first : Char) (behind : List Char) : Form :=
  let digits := behind.takeWhile Char.isDigit
  let later := behind.drop (digits.length + 1)
  match (behind.drop digits.length).head? with
  | none => .word .integer (first :: digits) digits.length none
  | some next =>
    if (next = 'x' || next = 'X') && first :: digits = ['0'] then hexadecimalForm later
    else if next = '_' then
      let parts := later.takeWhile fun char => char.isDigit || char = '_'
      .word .coordgrid (first :: digits ++ '_' :: parts) (digits.length + 1 + parts.length) none
    else if next = 'L' || next = 'l' then .word .long (first :: digits) (digits.length + 1) none
    else .word .integer (first :: digits) digits.length none

/-- The body of a block comment, whether it is closed, and the number of characters up to its
end. -/
def blockExtent : List Char → List Char × Bool × Nat
  | [] => ([], false, 0)
  | first :: rest =>
    if first = '*' && rest.head? = some '/' then ([], true, 2)
    else
      let (body, closed, count) := blockExtent rest
      (first :: body, closed, count + 1)

def operatorForm (vocabulary : Vocabulary) (first : Char) (behind : List Char) : Form :=
  let line := (behind.takeWhile fun char => char ≠ '\n').take (vocabulary.operatorLength - 1)
  match longestOperator vocabulary first line line.length with
  | some (kind, count) => .word kind (first :: line.take count) count none
  | none => .unknown

/-- What begins with a character. `nested` says that an interpolation is open and `signed` that a
sign may begin a number. -/
def formOf (vocabulary : Vocabulary) (nested signed : Bool) (first : Char) (behind : List Char) :
    Form :=
  if isNameStart first then
    let word := behind.takeWhile isNamePart
    .word ((vocabulary.keyword? (String.ofList (first :: word))).getD .identifier)
      (first :: word) word.length none
  else if first = '"' then .piece false
  else if first.isDigit ||
      ((first = '-' || first = '+') && behind.head?.any Char.isDigit && signed) then
    numberForm first behind
  else if first = '/' && behind.head? = some '/' then
    let line := behind.tail.takeWhile fun char => char ≠ '\n'
    .word .comment (trimBlanks line) (line.length + 1) none
  else if first = '/' && behind.head? = some '*' then
    let (body, closed, count) := blockExtent behind.tail
    .word .comment (blockText body) (count + 1) (if closed then none else some .unclosedComment)
  else
    match vocabulary.separator? first with
    | some kind => .word kind [first] 0 none
    | none =>
      if nested && first = '>' then .piece true
      else if vocabulary.startsOperator first then operatorForm vocabulary first behind
      else .unknown

/-- What a scanner finds to begin with a character. -/
def form (scanner : Scanner) (first : Placed) (rest : List Placed) : Form :=
  formOf scanner.vocabulary (scanner.depth ≠ 0) (signStartsNumber scanner.last) first.char
    (Placed.chars rest)

/-! ### Reading by characters -/

variable {scanner : Scanner} {first : Placed} {rest : List Placed}

theorem take_while_chars (test : Char → Bool) (content : List Placed) :
    chars (content.takeWhile fun placed => test placed.char) = (chars content).takeWhile test :=
  takeWhile_map.symm

theorem drop_while_chars (test : Char → Bool) (content : List Placed) :
    (content.dropWhile fun placed => test placed.char) =
      content.drop ((chars content).takeWhile test).length := by
  induction content with
  | nil => rfl
  | cons first rest ih =>
    simp only [chars, map_cons, takeWhile_cons, dropWhile_cons] at ih ⊢
    split
    · exact ih
    · rfl

theorem head_chars (content : List Placed) : content.head?.map char = (chars content).head? :=
  head?_map.symm

theorem drop_chars (count : Nat) (content : List Placed) :
    (chars content).drop count = chars (content.drop count) := map_drop.symm

theorem hexadecimal_eq (scanner : Scanner) (start : Nat) (rest : List Placed) :
    scanner.hexadecimal start rest =
      let isDigit (placed : Placed) : Bool := (hexDigit? placed.char).isSome
      let digits := chars (rest.takeWhile isDigit)
      let behind := rest.dropWhile isDigit
      if (behind.head?.map char).any fun char => char = 'L' || char = 'l' then
        scanner.accept .long ('0' :: 'x' :: digits) start behind.tail
      else
        (if digits.isEmpty then scanner.note .emptyHexadecimal (scanner.spanTo start behind)
          else scanner).accept .integer ('0' :: 'x' :: digits) start behind := by
  unfold hexadecimal
  simp only
  split
  · rename_i ahead
    simp [ahead]
  · rename_i ahead
    simp [ahead]
  · rename_i no_capital no_small
    cases ahead : rest.dropWhile fun placed => (hexDigit? placed.char).isSome with
    | nil => rfl
    | cons next behind =>
      obtain ⟨offset, char⟩ := next
      have capital : char ≠ 'L' := fun same => no_capital offset behind (same ▸ ahead)
      have small : char ≠ 'l' := fun same => no_small offset behind (same ▸ ahead)
      simp [capital, small]

theorem hexadecimal_eq_form : scanner.hexadecimal first.offset (rest.drop 1) =
    (hexadecimalForm (chars (rest.drop 1))).read scanner first rest := by
  simp only [hexadecimal_eq, hexadecimalForm, take_while_chars fun char => (hexDigit? char).isSome,
    drop_while_chars fun char => (hexDigit? char).isSome, drop_chars, head_chars, tail_drop,
    drop_drop]
  split
  · simp only [Form.read, remark, Option.elim, Nat.add_comm _ 2, Nat.add_comm 1]
  · split
    · simp only [Form.read, remark, Option.elim, Nat.add_comm 1]
    · simp only [Form.read, remark, Option.elim, Nat.add_comm 1]

theorem number_eq_form : scanner.number first.offset first.char rest =
    (numberForm first.char (chars rest)).read scanner first rest := by
  simp only [number, numberForm, take_while_chars Char.isDigit, drop_while_chars Char.isDigit,
    drop_chars]
  generalize digits : (chars rest).takeWhile Char.isDigit = word
  cases ahead : rest.drop word.length with
  | nil =>
    simp only [chars, map_nil, head?_nil, Form.read, remark, Option.elim, ahead]
  | cons next later =>
    have follows : rest.drop (word.length + 1) = later := by rw [← tail_drop, ahead, tail_cons]
    simp only [chars, map_cons, head?_cons, follows]
    split
    · rename_i zero
      have empty : word = [] :=
        (List.cons.inj (of_decide_eq_true (Bool.and_eq_true_iff.mp zero).2)).2
      rw [empty] at follows
      rw [← follows]
      exact hexadecimal_eq_form
    · split
      · simp only [coordinate, take_while_chars fun char => char.isDigit || char = '_',
          drop_while_chars fun char => char.isDigit || char = '_', Form.read, remark, Option.elim,
          ← follows, drop_drop]
        rfl
      · split
        · simp only [Form.read, remark, Option.elim, follows]
        · simp only [Form.read, remark, Option.elim, ahead]

theorem block_body_eq (content : List Placed) : blockBody content =
    ((blockExtent (chars content)).1, (blockExtent (chars content)).2.1,
      content.drop (blockExtent (chars content)).2.2) := by
  induction content with
  | nil => rfl
  | cons first rest ih =>
    simp only [blockBody, chars, map_cons, blockExtent, head?_map] at ih ⊢
    split
    · simp
    · rw [ih]
      rfl

theorem operator_eq_form : scanner.operator first.offset first.char rest =
    (operatorForm scanner.vocabulary first.char (chars rest)).read scanner first rest := by
  obtain ⟨word, named⟩ :
    ∃ word, word = ((chars rest).takeWhile fun char => decide (char ≠ '\n')).take
      (scanner.vocabulary.operatorLength - 1) := ⟨_, rfl⟩
  simp only [operator, operatorForm, take_while_chars fun char => decide (char ≠ '\n'), ← named]
  cases longestOperator scanner.vocabulary first.char word word.length <;> rfl

theorem dispatch_eq (scanner : Scanner) (first : Placed) (rest : List Placed) :
    scanner.dispatch first rest = (scanner.form first rest).read scanner first rest := by
  have tail : (chars rest).tail = chars rest.tail := map_tail.symm
  simp only [dispatch, form, formOf, head_chars]
  split
  · simp only [name, take_while_chars isNamePart, drop_while_chars isNamePart]
    rfl
  split
  · rfl
  split
  · exact number_eq_form
  split
  · simp only [lineComment, take_while_chars fun char => decide (char ≠ '\n'),
      drop_while_chars fun char => decide (char ≠ '\n'), drop_tail, tail]
    rfl
  split
  · simp only [blockComment, block_body_eq, tail]
    cases (blockExtent (chars rest.tail)).2.1 with
    | true => simp [Form.read, remark]
    | false => simp [Form.read, remark]
  cases scanner.vocabulary.separator? first.char with
  | some kind => rfl
  | none =>
    dsimp only
    split
    · rfl
    · split
      · exact operator_eq_form
      · rfl

theorem fault_of_clean {count : Nat}
    (clean : ((Form.word kind lexeme count fault).read scanner first rest).2.faults =
      scanner.faults) :
    fault = none := by
  cases fault with
  | none => rfl
  | some fault => simp [Form.read, remark, accept, note] at clean

/-! ### Kinds of words -/

def IsNumber (kind : TokenKind) : Prop := kind = .integer ∨ kind = .long ∨ kind = .coordgrid

/-- A sign and a digit behind it. -/
def IsSign (first : Char) (behind : List Char) : Prop :=
  (first = '-' ∨ first = '+') ∧ behind.head?.any Char.isDigit = true

variable {vocabulary : Vocabulary} {nested signed : Bool} {char : Char} {behind lexeme : List Char}
  {kind : TokenKind}
  {count : Nat} {fault : Option LexicalFault}

theorem longest_operator_mem
    (found : longestOperator vocabulary char behind count = some (kind, taken)) :
    kind ∈ vocabulary.operators.map Prod.snd ∧ taken ≤ count := by
  induction count with
  | zero =>
    obtain ⟨other, known, same⟩ := Option.map_eq_some_iff.mp found
    cases same
    exact ⟨mem_of_lookup known, le_rfl⟩
  | succ count ih =>
    rw [longestOperator] at found
    split at found
    · rename_i known
      cases found
      exact ⟨mem_of_lookup known, le_rfl⟩
    · exact ⟨(ih found).1, Nat.le_succ_of_le (ih found).2⟩

theorem number_form_eq (first : Char) (behind : List Char) : ∃ kind more count fault,
    numberForm first behind = .word kind (first :: more) count fault ∧ IsNumber kind := by
  unfold numberForm
  dsimp only
  split
  · exact ⟨_, _, _, _, rfl, .inl rfl⟩
  · split
    · rename_i zero
      obtain ⟨rfl, -⟩ := List.cons.inj (of_decide_eq_true (Bool.and_eq_true_iff.mp zero).2)
      unfold hexadecimalForm
      dsimp only
      split
      · exact ⟨_, _, _, _, rfl, .inr (.inl rfl)⟩
      · exact ⟨_, _, _, _, rfl, .inl rfl⟩
    · split
      · exact ⟨_, _, _, _, rfl, .inr (.inr rfl)⟩
      · split
        · exact ⟨_, _, _, _, rfl, .inr (.inl rfl)⟩
        · exact ⟨_, _, _, _, rfl, .inl rfl⟩

/-- The kinds of words, spelled by the vocabulary or not. -/
def wordKinds (vocabulary : Vocabulary) : List TokenKind :=
  vocabulary.keywords.map Prod.snd ++ vocabulary.separators.map Prod.snd ++ vocabulary.operators.map
    Prod.snd ++
    [.identifier, .comment, .integer, .long, .coordgrid]

theorem kind_of_form
    (found : formOf vocabulary nested signed char behind = .word kind lexeme count fault) :
    kind ∈ wordKinds vocabulary := by
  rw [wordKinds, append_assoc, append_assoc]
  unfold formOf at found
  dsimp only at found
  split at found
  · cases known : vocabulary.keyword? _ with
    | none =>
      rw [known] at found
      cases found
      simp
    | some kind =>
      rw [known] at found
      cases found
      exact mem_append_left _ (mem_of_lookup known)
  refine mem_append_right _ ?_
  split at found
  · cases found
  split at found
  · obtain ⟨_, _, _, _, same, number⟩ := number_form_eq char behind
    rw [same] at found
    cases found
    rcases number with rfl | rfl | rfl <;> simp
  split at found
  · cases found
    simp
  split at found
  · cases found
    simp
  split at found
  · rename_i known
    cases found
    exact mem_append_left _ (mem_of_lookup known)
  split at found
  · cases found
  split at found
  · unfold operatorForm at found
    dsimp only at found
    split at found
    · rename_i known
      cases found
      exact mem_append_right _ (mem_append_left _ (longest_operator_mem known).1)
    · cases found
  · cases found

/-- What a piece of a string comes to: its token, what is set aside, the interpolations it opens and
its fault. -/
structure Piece where
  kind : TokenKind
  lexeme : String
  aside : Span → Option Pending → Option Pending
  opened : Nat
  fault : Option LexicalFault

/-- What a literal comes to, at the start of a string or behind an interpolation. `deep` says that
no more interpolations may be opened. -/
def pieceOf (interpolated deep : Bool) (literal : Literal) : Piece :=
  let lexeme := String.ofList literal.content
  match literal.ending, interpolated with
  | .broken, false => ⟨.string, lexeme, fun _ _ => none, 0, some .unclosedString⟩
  | .broken, true => ⟨.string, lexeme, fun span _ => some (.close span), 0, some .unclosedString⟩
  | .closed, false => ⟨.string, lexeme, fun _ => id, 0, none⟩
  | .closed, true =>
    if lexeme.isEmpty then ⟨.concatEnd, "", fun _ => id, 0, none⟩
    else ⟨.string, lexeme, fun span _ => some (.close span), 0, none⟩
  | .opened, false =>
    ⟨.concatBegin, "", fun span _ => some (.text span lexeme), 1,
      if deep then some .deepInterpolation else none⟩
  | .opened, true =>
    ⟨.string, lexeme, fun _ => id, 1, if deep then some .deepInterpolation else none⟩

/-- The faults of a literal that begins at an offset. -/
def invalidEscapes (scanner : Scanner) (start : Nat) (literal : Literal) : List Diagnostic :=
  literal.invalid.map fun offset =>
    ⟨.lexical .invalidEscape, (Span.mk start offset).shift scanner.base⟩

def Piece.read (scanner : Scanner) (start : Nat) (literal : Literal) (piece : Piece) :
    Token × Scanner :=
  let span := scanner.spanTo start literal.rest
  (⟨piece.kind, span, some piece.lexeme⟩, { scanner with
    rest := literal.rest
    depth := scanner.depth + piece.opened
    pending := piece.aside span scanner.pending
    faults :=
      scanner.faults ++ (scanner.invalidEscapes start literal ++ piece.fault.toList.map
        (⟨.lexical ·, span⟩)) })

theorem string_eq (scanner : Scanner) (interpolated : Bool) (start : Nat) (content : List Placed) :
    scanner.string interpolated start content =
      (pieceOf interpolated (scanner.limit ≤ scanner.depth) (.read scanner.stop content)).read
        scanner start
        (.read scanner.stop content) := by
  simp only [string, pieceOf, Piece.read, note, invalidEscapes, ← append_assoc]
  cases (Literal.read scanner.stop content).ending with
  | broken => cases interpolated <;> simp [spanTo]
  | closed =>
    cases interpolated with
    | false => simp
    | true =>
      by_cases empty : (String.ofList (Literal.read scanner.stop content).content).isEmpty <;>
        simp [empty]
  | opened =>
    cases interpolated <;> by_cases deep : scanner.limit ≤ scanner.depth <;> simp [deep, spanTo]

theorem kind_string (scanner : Scanner) (interpolated : Bool) (start : Nat) (rest : List Placed) :
    (scanner.string interpolated start rest).1.kind ∈ [TokenKind.string, .concatBegin,
      .concatEnd] := by
  rw [string_eq]
  simp only [Piece.read, pieceOf]
  repeat' split
  all_goals simp

/-- A token that begins with a character is a word, a piece of a string, or cannot be read, which is
noted. -/
theorem kind_dispatch (scanner : Scanner) (first : Placed) (rest : List Placed) :
    (scanner.dispatch first rest).1.kind ∈ wordKinds scanner.vocabulary ++ [.string, .concatBegin,
      .concatEnd] ∨
      (scanner.dispatch first rest).1.kind = .error ∧
      (scanner.dispatch first rest).2.faults ≠ [] := by
  rw [dispatch_eq]
  cases found : scanner.form first rest with
  | word kind lexeme count fault =>
    have known := kind_of_form found
    cases fault <;> exact .inl (mem_append_left _ known)
  | unknown => exact .inr ⟨rfl, by simp [Form.read, reject, note]⟩
  | piece interpolated => cases interpolated <;> exact .inl (mem_append_right _ (kind_string ..))

/-- A string is resumed only where an interpolation is open. -/
theorem nested_of_form (found : formOf vocabulary nested signed char behind = .piece true) :
    nested = true := by
  unfold formOf at found
  dsimp only at found
  split at found
  · cases found
  split at found
  · cases found
  split at found
  · obtain ⟨_, _, _, _, same, -⟩ := number_form_eq char behind
    rw [same] at found
    cases found
  split at found
  · cases found
  split at found
  · cases found
  split at found
  · cases found
  split at found
  · rename_i mark
    exact (Bool.and_eq_true_iff.mp mark).1
  split at found
  · unfold operatorForm at found
    dsimp only at found
    split at found <;> cases found
  · cases found

theorem form_of_sign (sign : IsSign char behind) :
    formOf vocabulary nested true char behind = numberForm char behind := by
  obtain ⟨marks, digit⟩ := sign
  rcases marks with rfl | rfl <;> simp [formOf, digit, isNameStart, Char.isAlpha, Char.isUpper,
    Char.isLower]

/-- What a sign may be matters only to a sign in front of a digit. -/
theorem form_sign (same : other = signed ∨ signed = true ∧ ¬IsSign char behind) :
    formOf vocabulary nested other char behind = formOf vocabulary nested signed char behind := by
  rcases same with rfl | ⟨rfl, plain⟩
  · rfl
  · have neither : ((char = '-' || char = '+') && behind.head?.any Char.isDigit) = false := by
      rw [Bool.eq_false_iff, Ne, Bool.and_eq_true, Bool.or_eq_true, decide_eq_true_eq,
        decide_eq_true_eq]
      exact plain
    simp only [formOf, neither, Bool.false_and]

/-- Whether an interpolation is open matters only to the mark. -/
theorem form_nested (same : char = '>' → other = nested) :
    formOf vocabulary other signed char behind = formOf vocabulary nested signed char behind := by
  by_cases mark : char = '>'
  · rw [same mark]
  · simp only [formOf, mark, decide_false, Bool.and_false]

/-! ### What is written behind -/

/-- Words end at the end of a line, or at the mark that is written behind. -/
def Ends (behind more : List Char) : Prop := '\n' ∈ behind ∨ more.head? = some '>'

variable {more : List Char}

/-- A run of characters that ends within the text, or at what is written behind. -/
theorem take_while_append
    (stops : (∃ char ∈ behind, test char = false) ∨ ∃ char, more.head? = some char ∧
      test char = false) :
    (behind ++ more).takeWhile test = behind.takeWhile test := by
  rw [takeWhile_append]
  split
  · rename_i whole
    have all : behind.takeWhile test = behind := (takeWhile_sublist test).eq_of_length whole
    rcases stops with ⟨char, inside, fails⟩ | ⟨char, follows, fails⟩
    · have passes := takeWhile_eq_self_iff.mp all char inside
      rw [fails] at passes
      cases passes
    · obtain ⟨later, rfl⟩ := head?_eq_some_iff.mp follows
      rw [takeWhile_cons_of_neg (by simp [fails]), append_nil, all]
  · rfl

theorem Ends.take_while (ends : Ends behind more) (test : Char → Bool) (line : test '\n' = false)
    (mark : test '>' = false) : (behind ++ more).takeWhile test = behind.takeWhile test :=
  take_while_append (ends.imp (fun inside => ⟨_, inside, line⟩) fun follows => ⟨_, follows, mark⟩)

theorem Ends.head_eq (ends : Ends behind more) (other : char ≠ '>') :
    (behind ++ more).head? = some char ↔ behind.head? = some char := by
  cases behind with
  | nil =>
    have follows : more.head? = some '>' := ends.resolve_left not_mem_nil
    simp [follows, other.symm]
  | cons first behind => rfl

theorem Ends.any_head (ends : Ends behind more) (test : Char → Bool) (mark : test '>' = false) :
    (behind ++ more).head?.any test = behind.head?.any test := by
  cases behind with
  | nil =>
    have follows : more.head? = some '>' := ends.resolve_left not_mem_nil
    simp [follows, mark]
  | cons first behind => rfl

theorem Ends.cons (ends : Ends (char :: behind) more) (inside : char ≠ '\n') : Ends behind more :=
  ends.imp_left fun member => (mem_cons.mp member).resolve_left inside.symm

theorem Ends.drop (ends : Ends behind more) (test : Char → Bool) (line : test '\n' = false) :
    Ends (behind.drop (behind.takeWhile test).length) more ∧
      ∀ count, count ≤ (behind.takeWhile test).length →
      (behind ++ more).drop count = behind.drop count ++ more := by
  have shorter := (takeWhile_sublist test (l := behind)).length_le
  refine ⟨ends.imp_left fun member => ?_,
    fun count inside => drop_append_of_le_length (inside.trans shorter)⟩
  rw [← take_append_drop (behind.takeWhile test).length behind, mem_append] at member
  refine member.resolve_left fun taken => ?_
  rw [← prefix_iff_eq_take.mp <| takeWhile_prefix test] at taken
  have passes := mem_takeWhile_imp taken
  rw [line] at passes
  cases passes

theorem hexadecimal_form_append (ends : Ends behind more) :
    hexadecimalForm (behind ++ more) = hexadecimalForm behind := by
  obtain ⟨left, dropped⟩ := ends.drop (fun char => (hexDigit? char).isSome) rfl
  simp only [hexadecimalForm, ends.take_while (fun char => (hexDigit? char).isSome) rfl rfl,
    dropped _ le_rfl, left.any_head (fun char => char = 'L' || char = 'l') rfl]

theorem number_form_append (ends : Ends behind more) (first : Char) :
    numberForm first (behind ++ more) = numberForm first behind := by
  obtain ⟨left, dropped⟩ := ends.drop Char.isDigit rfl
  simp only [numberForm, ends.take_while Char.isDigit rfl rfl, ← tail_drop, dropped _ le_rfl]
  cases ahead : behind.drop (behind.takeWhile Char.isDigit).length with
  | nil =>
    rw [ahead] at left
    have follows : more.head? = some '>' := left.resolve_left not_mem_nil
    simp [follows]
  | cons next later =>
    rw [ahead] at left
    simp only [cons_append, head?_cons, tail_cons]
    refine ite_congr rfl (fun hexadecimal => ?_) fun _ =>
      ite_congr rfl (fun coordinate => ?_) fun _ => rfl
    · exact hexadecimal_form_append (left.cons fun same => by simp [same] at hexadecimal)
    · rw [(left.cons (by rw [coordinate]; decide)).take_while
        (fun char => char.isDigit || char = '_') rfl rfl]

theorem block_extent_append (closed : (blockExtent behind).2.1 = true) (more : List Char) :
    blockExtent (behind ++ more) = blockExtent behind := by
  induction behind with
  | nil => cases closed
  | cons first rest ih =>
    cases rest with
    | nil => simp [blockExtent] at closed
    | cons second rest =>
      rw [cons_append, blockExtent, blockExtent, cons_append, head?_cons, head?_cons]
      rw [blockExtent, head?_cons] at closed
      refine ite_congr rfl (fun _ => rfl) fun goes_on => ?_
      rw [if_neg goes_on] at closed
      rw [← cons_append, ih closed]

theorem longest_operator_mark (first : Char) :
    longestOperator .scripts first ['>'] 1 = longestOperator .scripts first [] 0 := by
  have apart : ∀ entry ∈ Vocabulary.scripts.operators, entry.1.toList[1]? ≠ some '>' := by decide
  have none : Vocabulary.scripts.operator? (String.ofList [first, '>']) = none := by
    cases found : Vocabulary.scripts.operator? (String.ofList [first, '>']) with
    | none => rfl
    | some kind =>
      obtain ⟨before, after, listed, _⟩ := lookup_eq_some_iff.mp found
      have member : (String.ofList [first, '>'], kind) ∈ Vocabulary.scripts.operators := by
        rw [listed]
        exact mem_append_right _ mem_cons_self
      exact absurd (by rw [String.toList_ofList]; rfl) (apart _ member)
  simp only [longestOperator, List.take, none]

theorem operator_form_append (ends : Ends behind more)
    (known : '\n' ∈ behind ∨ vocabulary = .scripts) (first : Char) :
    operatorForm vocabulary first (behind ++ more) = operatorForm vocabulary first behind := by
  by_cases line : '\n' ∈ behind
  · rw [operatorForm, operatorForm, take_while_append (.inl ⟨_, line, by decide⟩)]
  · obtain rfl := known.resolve_left line
    obtain ⟨later, rfl⟩ := head?_eq_some_iff.mp (ends.resolve_left line)
    have two : Vocabulary.scripts.operatorLength - 1 = 1 := by decide
    cases behind with
    | nil =>
      simp only [operatorForm, two, nil_append, takeWhile_cons, takeWhile_nil, take_nil]
      rw [if_pos (by decide), take_succ_cons, take_zero, length_singleton, longest_operator_mark,
        length_nil]
      cases found : longestOperator .scripts first [] 0 with
      | none => rfl
      | some result =>
        obtain ⟨kind, count⟩ := result
        obtain rfl := Nat.le_zero.mp (longest_operator_mem found).2
        rfl
    | cons second behind =>
      have same :
        (((second :: behind) ++ '>' :: later).takeWhile fun char => decide (char ≠ '\n')).take 1 =
          ((second :: behind).takeWhile fun char => decide (char ≠ '\n')).take 1 := by
        rw [cons_append, takeWhile_cons, takeWhile_cons]
        split <;> rfl
      simp only [operatorForm, two, same]

/-- A word that is in order is the same, whatever is written behind its end. -/
theorem form_append (ends : Ends behind more) (known : '\n' ∈ behind ∨ vocabulary = .scripts)
    (ended : char = '/' → behind.head? = some '/' → '\n' ∈ behind.tail)
    (clean : ∀ kind lexeme count fault, formOf vocabulary nested signed char behind =
      .word kind lexeme count fault → fault = none) :
    formOf vocabulary nested signed char (behind ++ more) = formOf vocabulary nested signed char
      behind := by
  have tail : ∀ {other}, behind.head? = some other → (behind ++ more).tail = behind.tail ++ more :=
    fun ahead =>
    tail_append_of_ne_nil fun empty => by simp [empty] at ahead
  unfold formOf at clean ⊢
  simp only [ends.take_while isNamePart rfl rfl, ends.any_head Char.isDigit rfl,
    number_form_append ends, operator_form_append ends known,
    ends.head_eq (show '/' ≠ '>' by decide), ends.head_eq (show '*' ≠ '>' by decide)]
  refine ite_congr rfl (fun _ => rfl) fun unnamed => ite_congr rfl (fun _ => rfl) fun unquoted =>
    ite_congr rfl (fun _ => rfl) fun unnumbered => ite_congr rfl (fun line => ?_) fun unlined =>
      ite_congr rfl (fun block => ?_) fun _ => rfl
  · rw [Bool.and_eq_true, decide_eq_true_eq, decide_eq_true_eq] at line
    rw [tail line.2, take_while_append (.inl ⟨_, ended line.1 line.2, by decide⟩)]
  · rw [if_neg unnamed, if_neg unquoted, if_neg unnumbered, if_neg unlined, if_pos block] at clean
    rw [Bool.and_eq_true, decide_eq_true_eq, decide_eq_true_eq] at block
    have closed : (blockExtent behind.tail).2.1 = true := by
      by_contra unclosed
      simpa [unclosed] using clean _ _ _ _ rfl
    rw [tail block.2, block_extent_append closed]

/-- The characters up to a place, of which the last one does not end a line. -/
def Spares (behind : List Char) (count : Nat) : Prop :=
  count ≤ behind.length ∧ (behind.take count).getLast? ≠ some '\n'

theorem Spares.add {count more : Nat} (spares : Spares behind count)
    (later : Spares (behind.drop count) more) : Spares behind (count + more) := by
  refine ⟨?_, ?_⟩
  · have inside := later.1
    have before := spares.1
    rw [length_drop] at inside
    omega
  · rw [take_add, getLast?_append]
    cases last : ((behind.drop count).take more).getLast? with
    | none => exact spares.2
    | some char =>
      rw [Option.some_or, ← last]
      exact later.2

theorem spares_zero (behind : List Char) : Spares behind 0 := ⟨Nat.zero_le _, by simp⟩

theorem spares_one (ahead : behind.head? = some char) (inside : char ≠ '\n') : Spares behind 1 := by
  obtain ⟨later, rfl⟩ := head?_eq_some_iff.mp ahead
  exact ⟨by simp, by simpa using inside⟩

theorem spares_of_le (line : test '\n' = false) (inside : count ≤ (behind.takeWhile test).length) :
    Spares behind count := by
  have taken : behind.takeWhile test <+: behind := takeWhile_prefix test
  refine ⟨inside.trans taken.length_le, fun last => ?_⟩
  have begins : behind.take count <+: behind := take_prefix ..
  have shorter : behind.take count <+: behind.takeWhile test :=
    prefix_of_prefix_length_le begins taken (by rw [length_take]; omega)
  have passes := mem_takeWhile_imp (shorter.subset (mem_of_getLast? last))
  rw [line] at passes
  cases passes

theorem spares_take_while (test : Char → Bool) (line : test '\n' = false) (behind : List Char) :
    Spares behind (behind.takeWhile test).length := spares_of_le line le_rfl

theorem spares_block (closed : (blockExtent behind).2.1 = true) :
    1 < (blockExtent behind).2.2 ∧ Spares behind (blockExtent behind).2.2 := by
  induction behind with
  | nil => cases closed
  | cons first rest ih =>
    rw [blockExtent] at closed ⊢
    split
    · rename_i ends
      obtain ⟨later, rfl⟩ :=
        head?_eq_some_iff.mp (of_decide_eq_true (Bool.and_eq_true_iff.mp ends).2)
      exact ⟨by decide, by simp, by simp⟩
    · rename_i goes_on
      rw [if_neg goes_on] at closed
      obtain ⟨filled, inside, last⟩ := ih closed
      refine ⟨Nat.lt_succ_of_lt filled, Nat.succ_le_succ inside, ?_⟩
      have taken : (rest.take (blockExtent rest).2.2) ≠ [] :=
        ne_nil_of_length_pos (by rw [length_take]; omega)
      rwa [take_succ_cons, getLast?_cons_of_ne_nil taken]

theorem spares_hexadecimal (first : Spares behind 1)
    (found : hexadecimalForm (behind.drop 1) = .word kind lexeme count none) :
    Spares behind count := by
  have digits :=
    first.add (spares_take_while (fun char => (hexDigit? char).isSome) rfl (behind.drop 1))
  unfold hexadecimalForm at found
  dsimp only at found
  split at found
  · rename_i long
    obtain ⟨letter, ahead, marks⟩ := (Option.any_eq_true _ _).mp long
    rw [drop_drop] at ahead
    have mark := digits.add (spares_one ahead fun same => by simp [same] at marks)
    cases found
    rwa [Nat.add_comm 1, Nat.add_assoc] at mark
  · simp only [Form.word.injEq] at found
    rw [← found.2.2.1, Nat.add_comm]
    exact digits

theorem spares_number (found : numberForm char behind = .word kind lexeme count none) :
    Spares behind count := by
  have digits := spares_take_while Char.isDigit rfl behind
  unfold numberForm at found
  dsimp only at found
  split at found
  · cases found
    exact digits
  · rename_i next ahead
    have mark : next ≠ '\n' → Spares behind ((behind.takeWhile Char.isDigit).length + 1) :=
      fun inside => digits.add (spares_one ahead inside)
    split at found
    · rename_i hexadecimal
      have first := mark fun same => by simp [same] at hexadecimal
      have empty := (List.cons.inj (of_decide_eq_true (Bool.and_eq_true_iff.mp hexadecimal).2)).2
      rw [empty] at found first
      exact spares_hexadecimal first found
    · split at found
      · rename_i coordinate
        cases found
        exact (mark (by rw [coordinate]; decide)).add (spares_take_while _ (by decide) _)
      · split at found
        · rename_i long
          cases found
          exact mark fun same => by simp [same] at long
        · cases found
          exact digits

/-- A word that is in order does not take the end of its line. -/
theorem spares_of_form
    (found : formOf vocabulary nested signed char behind = .word kind lexeme count none) :
    Spares behind count := by
  unfold formOf at found
  dsimp only at found
  split at found
  · cases found
    exact spares_take_while isNamePart rfl behind
  split at found
  · cases found
  split at found
  · exact spares_number found
  split at found
  · rename_i line
    rw [Bool.and_eq_true, decide_eq_true_eq, decide_eq_true_eq] at line
    cases found
    rw [Nat.add_comm]
    refine (spares_one line.2 (by decide)).add ?_
    rw [drop_one]
    exact spares_take_while _ (by decide) _
  split at found
  · rename_i block
    rw [Bool.and_eq_true, decide_eq_true_eq, decide_eq_true_eq] at block
    cases closed : (blockExtent behind.tail).2.1 with
    | false => simp [closed] at found
    | true =>
      simp only [closed, if_true, Form.word.injEq] at found
      rw [← found.2.2.1, Nat.add_comm]
      refine (spares_one block.2 (by decide)).add ?_
      rw [drop_one]
      exact (spares_block closed).2
  split at found
  · cases found
    exact spares_zero behind
  split at found
  · cases found
  split at found
  · unfold operatorForm at found
    dsimp only at found
    split at found
    · rename_i known
      have inside := (longest_operator_mem known).2
      rw [length_take] at inside
      cases found
      exact spares_of_le (by decide) (inside.trans (Nat.min_le_right ..))
    · cases found
  · cases found

/-! ### What was read before -/

/-- The scanner without what was noted before. -/
def fresh (scanner : Scanner) : Scanner := { scanner with faults := [] }

/-- What reading a token comes to, for a scanner behind other tokens and faults. -/
def carry (scanner : Scanner) (read : Token × Scanner) : Token × Scanner :=
  (read.1, { scanner with
    rest := read.2.rest
    depth := read.2.depth
    pending := read.2.pending
    faults := scanner.faults ++ read.2.faults })

variable {content : List Placed} {last : TokenKind} {faults : List Diagnostic}

theorem string_carry (interpolated : Bool) (start : Nat) :
    string { scanner with rest := content, last, faults } interpolated start rest =
      carry { scanner with rest := content, last, faults }
        (scanner.fresh.string interpolated start rest) := by
  simp only [string_eq, Piece.read, carry, fresh, nil_append]
  rfl

theorem dispatch_carry
    (same : formOf scanner.vocabulary (scanner.depth ≠ 0) (signStartsNumber last) first.char
      (chars rest) = scanner.form first rest) :
    dispatch { scanner with rest := content, last, faults } first rest =
      carry { scanner with rest := content, last, faults } (scanner.fresh.dispatch first rest) := by
  rw [dispatch_eq, dispatch_eq]
  rw [show scanner.fresh.form first rest = scanner.form first rest from rfl, form, same]
  cases scanner.form first rest with
  | word kind lexeme count fault =>
    cases fault <;> simp [Form.read, carry, fresh, remark, accept, note, spanTo]
  | unknown => simp [Form.read, carry, fresh, reject, note, spanTo]
  | piece interpolated =>
    cases interpolated with
    | false => exact string_carry _ _
    | true => exact @string_carry { scanner with depth := scanner.depth - 1 } _ _ _ _ _ _

/-- What was read last matters only to a sign in front of a number, and what was noted does not
matter. -/
theorem scan_carry
    (same : signStartsNumber last = signStartsNumber scanner.last ∨
      signStartsNumber scanner.last = true ∧ ¬IsNumber scanner.scan.1.kind) :
    scan { scanner with last, faults } = carry { scanner with last, faults }
      scanner.fresh.scan := by
  simp only [scan, fresh] at same ⊢
  cases set_aside : scanner.pending with
  | some pending => simp [carry]
  | none =>
    simp only [set_aside] at same ⊢
    cases ahead : scanner.rest.dropWhile fun placed => isBlank placed.char with
    | nil => by_cases closed : scanner.depth = 0 <;> simp [finish, carry, closed, note, spanTo]
    | cons first rest =>
      simp only [ahead] at same
      refine @dispatch_carry { scanner with pending := none } _ _ _ _ _
        (form_sign (same.imp_right fun apart => ⟨apart.1, fun sign => apart.2 ?_⟩))
      -- A sign that begins a number behind one token does so where any sign may.
      obtain ⟨kind, more, count, fault, number, numeral⟩ := number_form_eq first.char (chars rest)
      have found : scanner.form first rest = .word kind (first.char :: more) count fault := by
        rw [form, apart.1, form_of_sign sign, number]
      rw [dispatch_eq, found]
      cases fault <;> exact numeral

theorem scan_eq_carry (scanner : Scanner) : scanner.scan = scanner.carry scanner.fresh.scan :=
  scan_carry (.inl rfl)

end Scanner

end TriggerScript
