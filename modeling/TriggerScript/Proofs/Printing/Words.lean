import TriggerScript.Proofs.Printing.Printer
import TriggerScript.Proofs.Token.Succession

/-!
Words of a source text.

A word is read as one token if what is written behind it does not belong to it. `Word` says so for
one word and `Spelled` for a text: reading it gives certain tokens, one after the other, and then
the end. What was read before matters only to the sign of a number.
-/

namespace TriggerScript

open List Placed Scanner Vocabulary

variable {char first : Char} {kind : TokenKind}

namespace Scanner

/-- A scanner between two tokens of an expression, with nothing open and nothing noted. -/
structure Idle (scanner : Scanner) (last : TokenKind) : Prop where
  vocabulary : scanner.vocabulary = .scripts
  depth : scanner.depth = 0
  pending : scanner.pending = none
  last : scanner.last = last
  faults : scanner.faults = []

end Scanner

/-- A word in front of a text is read as a token. -/
structure Word (last : TokenKind) (lexeme : Lexeme) (word rest : List Char) : Prop where
  filled : word ≠ []
  unreturned : '\r' ∉ word
  uncommented : lexeme.1 ≠ .comment
  reads : ∀ (scanner : Scanner) (offset : Nat), scanner.Idle last →
    scanner.rest = Placed.ofList offset (word ++ rest) → ∃ span, scanner.next =
      (⟨lexeme.1, span, some lexeme.2⟩, { scanner with
        rest := Placed.ofList (offset + total Char.utf8Size word) rest
        last := lexeme.1 })

/-- A text is read as a sequence of tokens. -/
structure Spelled (last : TokenKind) (text : List Char) (given : List Lexeme) : Prop where
  unreturned : '\r' ∉ text
  short : given.length ≤ text.length
  reads : ∀ (scanner : Scanner) (offset : Nat), scanner.Idle last →
    scanner.rest = Placed.ofList offset text → scanner.Clean ∧ ∀ index,
    ((scanner.token index).kind, (scanner.token index).text) = given.getD index (.eof, "")

namespace Spelled

variable {last : TokenKind} {text : List Char} {given : List Lexeme}

theorem nil (last : TokenKind) : Spelled last [] [] := by
  have ends : ∀ (scanner : Scanner) {last : TokenKind}, scanner.Idle last → scanner.rest = [] →
    ∃ span,
      scanner.advance.2 = (⟨.eof, span, some ""⟩, { scanner with last := .eof }) := by
    intro scanner last idle empty
    obtain ⟨vocabulary, rest, stop, base, depth, limit, pending, last, faults⟩ := scanner
    obtain ⟨rfl, rfl, rfl, rfl, rfl⟩ := idle
    obtain rfl : rest = [] := empty
    exact ⟨_, by rw [advance_eq]; rfl⟩
  have stays : ∀ (scanner : Scanner) {last : TokenKind}, scanner.Idle last → scanner.rest = [] →
    ∀ index,
      ∃ last, (scanner.after index).Idle last ∧ (scanner.after index).rest = [] := by
    intro scanner last idle empty index
    induction index with
    | zero => exact ⟨last, idle, empty⟩
    | succ index ih =>
      obtain ⟨last, idle, empty⟩ := ih
      obtain ⟨span, ended⟩ := ends _ idle empty
      have step : scanner.after (index + 1) = { scanner.after index with last := .eof } :=
        congrArg Prod.snd ended
      rw [step]
      exact ⟨.eof, ⟨idle.vocabulary, idle.depth, idle.pending, rfl, idle.faults⟩, empty⟩
  refine ⟨not_mem_nil, le_rfl, fun scanner offset idle empty => ⟨fun index => ?_, fun index => ?_⟩⟩
  · obtain ⟨last, idle, -⟩ := stays scanner idle empty index
    exact idle.faults
  · obtain ⟨last, idle, empty⟩ := stays scanner idle empty index
    obtain ⟨span, ended⟩ := ends _ idle empty
    have here : scanner.token index = ⟨.eof, span, some ""⟩ := congrArg Prod.fst ended
    rw [here]
    rfl

theorem blank (spelled : Spelled last text given) : Spelled last (' ' :: text) given := by
  refine ⟨?_, Nat.le_succ_of_le spelled.short, fun scanner offset idle ahead => ?_⟩
  · simpa using spelled.unreturned
  · have skipped : scan { scanner with rest := ofList (offset + ' '.utf8Size) text } =
      scanner.scan := by
      refine scan_of_blanks idle.pending ?_
      rw [ahead, ofList, dropWhile_cons_of_pos rfl]
    have next : Scanner.next { scanner with rest := ofList (offset + ' '.utf8Size) text } =
      scanner.next := by
      rw [Scanner.next, skipped]
      rfl
    have advanced := advance_eq { scanner with rest := ofList (offset + ' '.utf8Size) text }
    rw [next, ← advance_eq scanner] at advanced
    obtain ⟨tokens, scanners⟩ := after_of_advance advanced.symm
    obtain ⟨clean, read⟩ :=
      spelled.reads { scanner with rest := ofList (offset + ' '.utf8Size) text }
      (offset + ' '.utf8Size) ⟨idle.vocabulary, idle.depth, idle.pending, idle.last,
        idle.faults⟩ rfl
    rw [tokens]
    refine ⟨fun count => ?_, read⟩
    cases count with
    | zero => exact idle.faults
    | succ count => rw [scanners, clean]

theorem word {chars : List Char} (word : Word last lexeme chars text)
    (spelled : Spelled lexeme.1 text given) : Spelled last (chars ++ text) (lexeme :: given) := by
  refine ⟨?_, ?_, fun scanner offset idle ahead => ?_⟩
  · simpa using ⟨word.unreturned, spelled.unreturned⟩
  · have some_chars := length_pos_iff.mpr word.filled
    have := spelled.short
    rw [length_append, length_cons]
    omega
  · obtain ⟨span, next⟩ := word.reads scanner offset idle ahead
    have advanced := scanner.advance_eq
    rw [next, if_neg (by exact word.uncommented)] at advanced
    obtain ⟨clean, read⟩ := spelled.reads { scanner with
        rest := ofList (offset + total Char.utf8Size chars) text
        last := lexeme.1 } _ ⟨idle.vocabulary, idle.depth, idle.pending, rfl, idle.faults⟩ rfl
    refine ⟨fun count => ?_, fun index => ?_⟩
    · cases count with
      | zero => exact idle.faults
      | succ count => rw [after_succ, advanced, clean]
    · cases index with
      | zero =>
        have here : scanner.token 0 = ⟨lexeme.1, span, some lexeme.2⟩ := congrArg Prod.fst advanced
        rw [here]
        rfl
      | succ index => rw [token_succ, advanced, read, getD_cons_succ]

end Spelled

/-! ### What is written behind a word -/

/-- A text that does not go on with what a test asks for. -/
def Stops (test : Char → Bool) (rest : List Char) : Prop :=
  ∀ char, rest.head? = some char → test char = false

/-- A text that ends a name and a number. -/
def Breaks (rest : List Char) : Prop := ∀ char, rest.head? = some char → char ∈ [' ', '(', ')', ',']

variable {rest more : List Char} {last : TokenKind}

theorem breaks_nil : Breaks [] := by
  rintro char ⟨⟩

theorem breaks_cons (member : char ∈ [' ', '(', ')', ',']) : Breaks (char :: rest) := by
  rintro other same
  cases same
  exact member

theorem Breaks.stops (breaks : Breaks rest)
    (fails : [' ', '(', ')', ','].all (fun char => !test char) = true) : Stops test rest := by
  intro char ahead
  simpa using List.all_eq_true.mp fails char (breaks char ahead)

theorem Stops.take_while (stops : Stops test rest) (passes : ∀ char ∈ more, test char = true) :
    (more ++ rest).takeWhile test = more := by
  rw [takeWhile_append_of_pos passes]
  cases rest with
  | nil => simp
  | cons char rest => simp [stops char rfl]

theorem Placed.drop_of_list (offset : Nat) (more rest : List Char) :
    (ofList offset (more ++ rest)).drop more.length =
      ofList (offset + total Char.utf8Size more) rest := by
  have length : (ofList offset more).length = more.length := by
    rw [← length_map, ← chars, chars_ofList]
  rw [of_list_append, ← length, drop_left]

/-! ### Words -/

theorem Word.of_dispatch {lexeme : Lexeme} (visible : isBlank first = false)
    (unreturned : '\r' ∉ first :: more) (uncommented : lexeme.1 ≠ .comment)
    (reads : ∀ (scanner : Scanner) (offset : Nat), scanner.Idle last → ∃ span,
      scanner.dispatch ⟨offset, first⟩ (ofList (offset + first.utf8Size) (more ++ rest)) =
        (⟨lexeme.1, span, some lexeme.2⟩, { scanner with
          rest := ofList (offset + first.utf8Size + total Char.utf8Size more) rest })) :
    Word last lexeme (first :: more) rest := by
  refine ⟨cons_ne_nil _ _, unreturned, uncommented, fun scanner offset idle ahead => ?_⟩
  obtain ⟨span, dispatched⟩ := reads scanner offset idle
  have scanned : scanner.scan = scanner.dispatch ⟨offset, first⟩
    (ofList (offset + first.utf8Size) (more ++ rest)) := by
    simp only [scan, idle.pending, ahead, cons_append, ofList, dropWhile_cons, visible,
      Bool.false_eq_true, if_false]
  refine ⟨span, ?_⟩
  rw [Scanner.next, scanned, dispatched]
  simp only [if_neg uncommented, total_cons, Nat.add_assoc]

theorem Word.of_form (visible : isBlank first = false) (unreturned : '\r' ∉ first :: more)
    (uncommented : kind ≠ .comment)
    (found : formOf .scripts false (signStartsNumber last) first (more ++ rest) =
      .word kind spelling more.length none) :
    Word last (kind, String.ofList spelling) (first :: more) rest := by
  refine .of_dispatch visible unreturned uncommented fun scanner offset idle => ?_
  have form : scanner.form ⟨offset, first⟩ (ofList (offset + first.utf8Size) (more ++ rest)) =
      .word kind spelling more.length none := by
    rw [Scanner.form, chars_ofList, idle.vocabulary, idle.depth, idle.last]
    exact found
  rw [dispatch_eq, form, Form.read, drop_of_list]
  exact ⟨_, rfl⟩

theorem name_part_of_start (starts : Scanner.isNameStart char = true) :
    Scanner.isNamePart char = true := by
  simp only [Scanner.isNameStart, Scanner.isNamePart, Char.isAlphanum, Bool.or_eq_true] at starts ⊢
  exact starts.imp_left .inl

theorem visible_of_name_part (part : Scanner.isNamePart char = true) :
    isBlank char = false ∧ char ≠ '\r' := by
  have shown : isBlank char = false := by
    simp only [Scanner.isNamePart, Char.isAlphanum, Char.isAlpha, Char.isUpper, Char.isLower,
      Char.isDigit, Bool.or_eq_true, Bool.and_eq_true, decide_eq_true_eq, UInt32.le_iff_toNat_le,
      ge_iff_le, Char.reduceVal, UInt32.reduceToNat] at part
    simp only [isBlank, Char.toNat, Bool.or_eq_false_iff, Bool.and_eq_false_iff,
      decide_eq_false_iff_not, beq_eq_false_iff_ne]
    rcases part with code | rfl
    · omega
    · decide
  refine ⟨shown, fun same => ?_⟩
  rw [same] at shown
  cases shown

theorem visible_of_digit (digit : char.isDigit = true) :
    isBlank char = false ∧ char ≠ '\r' ∧ Scanner.isNameStart char = false ∧ char ≠ '"' := by
  have part : Scanner.isNamePart char = true := by simp [Scanner.isNamePart, Char.isAlphanum, digit]
  have shown := visible_of_name_part part
  have unnamed : Scanner.isNameStart char = false := by
    have unmarked : char ≠ '_' := by
      rintro rfl
      cases digit
    simp only [Char.isDigit, Bool.and_eq_true, decide_eq_true_eq, UInt32.le_iff_toNat_le, ge_iff_le,
      Char.reduceVal, UInt32.reduceToNat] at digit
    simp only [Scanner.isNameStart, Char.isAlpha, Char.isUpper, Char.isLower, Bool.or_eq_false_iff,
      Bool.and_eq_false_iff, decide_eq_false_iff_not, UInt32.le_iff_toNat_le, ge_iff_le,
      Char.reduceVal, UInt32.reduceToNat]
    exact ⟨by omega, unmarked⟩
  refine ⟨shown.1, shown.2, unnamed, ?_⟩
  rintro rfl
  cases digit

namespace Word

variable {next : Char}

theorem uncommented_keyword (word : String) :
    (Vocabulary.scripts.keyword? word).getD .identifier ≠ .comment := by
  cases known : Vocabulary.scripts.keyword? word with
  | none => decide
  | some kind =>
    have none_comments : TokenKind.comment ∉ scripts.keywords.map Prod.snd := by decide
    rintro rfl
    exact none_comments (mem_of_lookup known)

/-- A name that does not go on is read as one token. -/
theorem name {word : String} (starts : word.toList.head?.any Scanner.isNameStart)
    (parts : word.toList.all Scanner.isNamePart) (breaks : Breaks rest) :
    Word last ((Vocabulary.scripts.keyword? word).getD .identifier, word) word.toList rest := by
  obtain ⟨chars, rfl⟩ : ∃ chars, word = String.ofList chars :=
    ⟨word.toList, String.ofList_toList.symm⟩
  rw [String.toList_ofList] at *
  obtain _ | ⟨first, more⟩ := chars
  · cases starts
  have starts : Scanner.isNameStart first = true := starts
  have parts : ∀ char ∈ more, Scanner.isNamePart char = true := fun char member =>
    List.all_eq_true.mp parts char (List.mem_cons_of_mem _ member)
  have visible := visible_of_name_part (name_part_of_start starts)
  refine of_form visible.1 ?_ (uncommented_keyword _) ?_
  · rintro (_ | ⟨_, member⟩)
    · exact visible.2 rfl
    · exact (visible_of_name_part (parts _ member)).2 rfl
  · rw [formOf, if_pos starts, (breaks.stops (by decide)).take_while parts]

/-! ### Numbers -/

/-- The characters of a number: digits behind a digit or, where it may stand, behind a sign. -/
structure IsNumeral (last : TokenKind) (first : Char) (more : List Char) : Prop where
  digits : ∀ char ∈ more, char.isDigit = true
  starts : first.isDigit = true ∨
    first = '-' ∧ more.head?.any Char.isDigit = true ∧ Scanner.signStartsNumber last = true

namespace IsNumeral

variable {first : Char}

theorem visible (numeral : IsNumeral last first more) :
    isBlank first = false ∧ '\r' ∉ first :: more := by
  have shown : isBlank first = false ∧ first ≠ '\r' := by
    rcases numeral.starts with digit | ⟨rfl, -, -⟩
    · exact ⟨(visible_of_digit digit).1, (visible_of_digit digit).2.1⟩
    · decide
  refine ⟨shown.1, ?_⟩
  rintro (_ | ⟨_, member⟩)
  · exact shown.2 rfl
  · exact (visible_of_digit (numeral.digits _ member)).2.1 rfl

theorem form_eq (numeral : IsNumeral last first more) :
    formOf .scripts false (signStartsNumber last) first (more ++ rest) =
      numberForm first (more ++ rest) := by
  rcases numeral.starts with digit | ⟨rfl, behind, sign⟩
  · obtain ⟨-, -, unnamed, unquoted⟩ := visible_of_digit digit
    simp [formOf, unnamed, unquoted, digit]
  · obtain _ | ⟨second, more⟩ := more
    · cases behind
    · rw [sign]
      exact form_of_sign ⟨.inl rfl, behind⟩

end IsNumeral

/-- A number that does not go on. -/
theorem integer (numeral : IsNumeral last first more) (breaks : Breaks rest) :
    Word last (.integer, String.ofList (first :: more)) (first :: more) rest := by
  refine of_form numeral.visible.1 numeral.visible.2 (by simp) ?_
  rw [numeral.form_eq, numberForm, (breaks.stops (by decide)).take_while numeral.digits]
  obtain _ | ⟨next, rest⟩ := rest
  · simp
  · have plain : ∀ char ∈ [' ', '(', ')', ','], (char = 'x' || char = 'X') = false ∧ char ≠ '_' ∧
      (char = 'L' || char = 'l') = false := by simp
    obtain ⟨decimal, single, short⟩ := plain next (breaks next rfl)
    simp [decimal, single, short]

theorem long (numeral : IsNumeral last first more) :
    Word last (.long, String.ofList (first :: more)) (first :: (more ++ ['L'])) rest := by
  refine of_form numeral.visible.1 ?_ (by simp) ?_
  · simpa using numeral.visible.2
  · have stops : Stops Char.isDigit ('L' :: rest) := by
      rintro char same
      cases same
      rfl
    rw [append_assoc, singleton_append, numeral.form_eq, numberForm,
      stops.take_while numeral.digits]
    simp

theorem digits_of_repr (value : Nat) :
    value.repr.toList ≠ [] ∧ ∀ char ∈ value.repr.toList, char.isDigit = true := by
  rw [Nat.toList_repr]
  exact ⟨Nat.toDigits_ne_nil, fun char member => Nat.isDigit_of_mem_toDigits (by decide)
    (by decide) member⟩

theorem numeral_of_repr (value : Int) (sign : signStartsNumber last = true) :
    ∃ first more, value.repr.toList = first :: more ∧ IsNumeral last first more := by
  cases value with
  | ofNat value =>
    obtain ⟨filled, digits⟩ := digits_of_repr value
    obtain ⟨first, more, split⟩ := exists_cons_of_ne_nil filled
    rw [split] at digits
    exact ⟨first, more, split, fun char member => digits char (List.mem_cons_of_mem _ member),
      .inl (digits first mem_cons_self)⟩
  | negSucc value =>
    obtain ⟨filled, digits⟩ := digits_of_repr (value + 1)
    obtain ⟨first, more, split⟩ := exists_cons_of_ne_nil filled
    refine ⟨'-', (value + 1).repr.toList, by simp [Int.repr], digits, .inr ⟨rfl, ?_, sign⟩⟩
    rw [split] at digits ⊢
    exact digits first mem_cons_self

/-! ### Strings -/

theorem read_escaped (stop : Nat) (behind : List Placed) (written : chars front = escaped char) :
    Literal.read stop (front ++ behind) = .push char (Literal.read stop behind) := by
  revert written
  fun_cases escaped char
  case case5 unquoted unslashed unopened unbroken =>
    intro written
    obtain ⟨first, left, rfl, rfl, empty⟩ := map_eq_cons_iff.mp written
    rw [map_eq_nil_iff.mp empty, singleton_append, Literal.read.eq_def]
    simp only [if_neg unquoted, if_neg unslashed, if_neg unopened, if_neg unbroken]
  all_goals
    intro written
    obtain ⟨first, left, rfl, slash, later⟩ := map_eq_cons_iff.mp written
    obtain ⟨letter, left, rfl, escape, empty⟩ := map_eq_cons_iff.mp later
    rw [map_eq_nil_iff.mp empty, cons_append, singleton_append, Literal.read.eq_def]
    simp [slash, escape, unescape?]

/-- Characters of a string are read back up to what ends the string or opens an interpolation. -/
theorem read_written (stop : Nat) {content behind : List Char} {text : List Placed}
    (ends : mark = '<' ∨ mark = '"')
    (written : chars text = content.flatMap escaped ++ mark :: behind) :
    Literal.read stop text = ⟨content, if mark = '<' then .opened else .closed,
      text.drop ((content.flatMap escaped).length + 1), []⟩ := by
  induction content generalizing text with
  | nil =>
    obtain ⟨first, rest, rfl, rfl, later⟩ := map_eq_cons_iff.mp written
    rw [Literal.read.eq_def]
    rcases ends with opening | quote
    · simp [opening]
    · simp [quote]
  | cons char content ih =>
    rw [flatMap_cons, append_assoc] at written
    obtain ⟨front, later, rfl, here, there⟩ := map_eq_append_iff.mp written
    have length : front.length = (escaped char).length := by rw [← here, length_map]
    rw [read_escaped stop later here, ih there, flatMap_cons, length_append, ← length,
      Nat.add_assoc, drop_length_add_append]
    rfl

/-- Only a carriage return is written with one. -/
theorem return_of_mem_escaped (member : '\r' ∈ escaped char) : char = '\r' := by
  revert member
  fun_cases escaped char <;> simp
  exact Eq.symm

theorem return_of_mem_written {content : List Char} (member : '\r' ∈ content.flatMap escaped) :
    '\r' ∈ content := by
  obtain ⟨char, inside, returns⟩ := mem_flatMap.mp member
  exact return_of_mem_escaped returns ▸ inside

theorem string {value : String} (unreturned : '\r' ∉ value.toList) :
    Word last (.string, value) ('"' :: value.toList.flatMap escaped ++ ['"']) rest := by
  rw [cons_append]
  refine of_dispatch (by decide) ?_ (by simp) fun scanner offset idle => ?_
  · simp only [mem_cons, mem_append, not_mem_nil, or_false, not_or]
    exact ⟨by decide, fun member => unreturned (return_of_mem_written member), by decide⟩
  · rw [append_assoc, singleton_append]
    have opens : scanner.dispatch ⟨offset, '"'⟩ (ofList (offset + '"'.utf8Size)
          (value.toList.flatMap escaped ++ '"' :: rest)) =
        scanner.string false offset (ofList (offset + '"'.utf8Size)
          (value.toList.flatMap escaped ++ '"' :: rest)) := rfl
    have read := read_written scanner.stop (.inr rfl) (Placed.chars_ofList (offset + '"'.utf8Size)
      (value.toList.flatMap escaped ++ '"' :: rest))
    have left := drop_of_list (offset + '"'.utf8Size) (value.toList.flatMap escaped ++ ['"']) rest
    rw [append_assoc, singleton_append, length_append, length_singleton] at left
    rw [left] at read
    rw [opens, Scanner.string]
    simp only [read, Bool.false_eq_true, if_false, String.ofList_toList, map_nil, append_nil]
    exact ⟨_, rfl⟩

/-! ### Separators and operators -/

theorem separator (member : (char, kind) ∈ scripts.separators) :
    Word last (kind, String.ofList [char]) [char] rest := by
  have inert : ∀ entry ∈ scripts.separators, isBlank entry.1 = false ∧ '\r' ∉ [entry.1] ∧
      entry.2 ≠ TokenKind.comment ∧ Scanner.isNameStart entry.1 = false ∧
      entry.1 ∉ ['"', '-', '+', '/'] ∧ entry.1.isDigit = false ∧
      scripts.separator? entry.1 = some entry.2 := by decide
  obtain ⟨visible, unreturned, uncommented, unnamed, unmarked, undigit, known⟩ := inert _ member
  refine of_form visible unreturned uncommented ?_
  simp only [mem_cons, not_mem_nil, or_false, not_or] at unmarked
  obtain ⟨unquoted, unminus, unplus, unslashed⟩ := unmarked
  simp [formOf, unnamed, unquoted, unminus, unplus, unslashed, undigit, known]

/-- The first character of an operator begins nothing else, a number and a comment apart. -/
theorem inert_of_starts_operator (starts : scripts.startsOperator first = true) :
    isBlank first = false ∧ first ≠ '\r' ∧ Scanner.isNameStart first = false ∧ first ≠ '"' ∧
      first.isDigit = false ∧
      scripts.separator? first = none := by
  have inert : ∀ entry ∈ scripts.operators, entry.1.toList.head?.all (fun first =>
      isBlank first = false ∧ first ≠ '\r' ∧ Scanner.isNameStart first = false ∧ first ≠ '"' ∧
        first.isDigit = false ∧ scripts.separator? first = none) = true := by decide
  obtain ⟨entry, member, head⟩ := any_eq_true.mp starts
  have here := inert entry member
  rw [of_decide_eq_true head] at here
  exact of_decide_eq_true here

/-- At the front of a line stands the longest operator that can be read there. -/
theorem operator_form_eq {count : Nat} (starts : scripts.startsOperator first = true)
    (follows : next.isDigit = false ∧ next ∉ ['/', '*', '\n'])
    (longest : longestOperator .scripts first [next] 1 = some (kind, count)) :
    formOf .scripts false (signStartsNumber last) first (next :: rest) =
      .word kind (first :: [next].take count) count none := by
  obtain ⟨-, -, unnamed, unquoted, undigit, unseparated⟩ := inert_of_starts_operator starts
  have two : scripts.operatorLength = 2 := by decide
  simp only [mem_cons, not_mem_nil, or_false, not_or] at follows
  obtain ⟨unnumbered, uncommented, unopened, unbroken⟩ := follows
  simp [formOf, operatorForm, unnamed, unquoted, undigit, unseparated, unnumbered, uncommented,
    unopened, starts, two, unbroken, longest]

/-- An operator of one character, where the next one does not belong to it. -/
theorem single (starts : scripts.startsOperator first = true) (uncommented : kind ≠ .comment)
    (follows : next.isDigit = false ∧ next ∉ ['/', '*', '\n'])
    (longest : longestOperator .scripts first [next] 1 = some (kind, 0)) :
    Word last (kind, String.ofList [first]) [first] (next :: rest) := by
  obtain ⟨visible, unreturned, -⟩ := inert_of_starts_operator starts
  exact of_form visible (by simpa using unreturned.symm) uncommented
    (operator_form_eq starts follows longest)

theorem double (starts : scripts.startsOperator first = true) (uncommented : kind ≠ .comment)
    (longest : longestOperator .scripts first ['='] 1 = some (kind, 1)) :
    Word last (kind, String.ofList [first, '=']) [first, '='] rest := by
  obtain ⟨visible, unreturned, -⟩ := inert_of_starts_operator starts
  exact of_form visible (by simpa using unreturned.symm) uncommented
    (operator_form_eq starts (by decide) longest)

theorem operator (operator : Operator) :
    Word last (operator.token, operator.symbol) operator.symbol.toList (' ' :: rest) := by
  cases operator
  case lessThanOrEqual | greaterThanOrEqual => exact double (by decide) (by decide) (by decide)
  all_goals exact single (by decide) (by decide) (by decide) (by decide)

theorem global (starts : Scanner.isNameStart next = true) :
    Word last (.mod, "%") ['%'] (next :: rest) := by
  have alone : scripts.operator? (String.ofList ['%', next]) = none := by
    have lone : ∀ entry ∈ scripts.operators, entry.1.toList.head? = some '%' →
      entry.1.toList.length = 1 := by
      decide
    refine lookup_eq_none_iff.mpr fun entry member => bne_iff_ne.mpr fun same => ?_
    have length := lone entry member
    rw [← same, String.toList_ofList] at length
    cases length rfl
  have unmarked : ∀ char ∈ ['/', '*', '\n'], Scanner.isNameStart char = false := by
    simp only [forall_mem_cons, not_mem_nil, false_imp_iff, implies_true, and_true]
    decide
  refine single (by decide) (by decide) ⟨?_, fun member => ?_⟩ ?_
  · refine Bool.eq_false_iff.mpr fun digit => ?_
    rw [(visible_of_digit digit).2.2.1] at starts
    cases starts
  · rw [unmarked next member] at starts
    cases starts
  · simp only [longestOperator, List.take, alone]
    decide

end Word

/-! ### Printed expressions -/

/-- Characters are read as tokens wherever a number may have a sign and a name ends. -/
def Spells (chars : List Char) (tokens : List Lexeme) : Prop :=
  ∀ ⦃last : TokenKind⦄ ⦃text : List Char⦄ ⦃given : List Lexeme⦄,
    Scanner.signStartsNumber last = true → Breaks text → (∀ last, Spelled last text given) →
    Spelled last (chars ++ text) (tokens ++ given)

section

variable {chars text : List Char} {tokens given : List Lexeme} {name : Ident}

theorem Spelled.separator (member : (char, kind) ∈ scripts.separators)
    (behind : Spelled kind text given) :
    Spelled last (char :: text) ((kind, String.ofList [char]) :: given) :=
  .word (.separator member) behind

theorem Spells.enclosed (spells : Spells chars tokens) (behind : ∀ last, Spelled last text given)
    (last : TokenKind) :
    Spelled last (Expr.enclosed chars ++ text) (Expr.parens tokens ++ given) := by
  have closed : ∀ last, Spelled last (')' :: text) ((.rightParen, ")") :: given) := fun last =>
    .separator (by decide) (behind .rightParen)
  have opened : Spelled last ('(' :: (chars ++ ')' :: text))
    ((.leftParen, "(") :: (tokens ++ (.rightParen, ")") :: given)) :=
    .separator (by decide) (spells (by decide) (breaks_cons (by decide)) closed)
  simpa [Expr.enclosed, Expr.parens] using opened

theorem Spelled.plain (plain : name.IsPlain) (breaks : Breaks text)
    (behind : Spelled .identifier text given) :
    Spelled last (name.text.toList ++ text) ((.identifier, name.text) :: given) := by
  obtain ⟨starts, parts, unknown⟩ := plain
  have word : Word last (_, name.text) name.text.toList text := .name starts parts breaks
  rw [unknown] at word
  exact .word word behind

theorem Spelled.keyword {word : String} (known : Vocabulary.scripts.keyword? word = some kind)
    (starts : word.toList.head?.any Scanner.isNameStart)
    (parts : word.toList.all Scanner.isNamePart) (breaks : Breaks text)
    (behind : Spelled kind text given) :
    Spelled last (word.toList ++ text) ((kind, word) :: given) := by
  have read : Word last (_, word) word.toList text := .name starts parts breaks
  rw [known] at read
  exact .word read behind

theorem Spelled.marked (member : (char, kind) ∈ scripts.separators) (plain : name.IsPlain)
    (breaks : Breaks text) (behind : Spelled .identifier text given) :
    Spelled last (char :: name.text.toList ++ text)
    ((kind, String.ofList [char]) :: (.identifier, name.text) :: given) :=
  .separator member (.plain plain breaks behind)

theorem Spelled.globalName (plain : name.IsPlain) (breaks : Breaks text)
    (behind : Spelled .identifier text given) :
    Spelled last ('%' :: name.text.toList ++ text)
    ((.mod, "%") :: (.identifier, name.text) :: given) := by
  have named : Spelled .mod (name.text.toList ++ text) ((.identifier, name.text) :: given) :=
    .plain plain breaks behind
  obtain ⟨starts, -, -⟩ := plain
  have mark : Word last (.mod, "%") ['%'] (name.text.toList ++ text) := by
    generalize name.text.toList = chars at starts
    obtain _ | ⟨first, more⟩ := chars
    · cases starts
    · exact .global starts
  rw [cons_append]
  exact .word mark named

namespace Expr

theorem breaks_enclosed : Breaks (enclosed chars ++ text) := breaks_cons (by decide)

theorem spells_all (spells : ∀ arg ∈ args, Spells arg.print arg.lexemes) :
    Spells (printAll args) (lexemesAll args) := by
  intro last text given sign breaks behind
  induction args generalizing last with
  | nil => exact behind last
  | cons arg rest ih =>
    have first := spells arg mem_cons_self
    obtain _ | ⟨next, rest⟩ := rest
    · exact first sign breaks behind
    · have others : Spelled .comma (printAll (next :: rest) ++ text)
        (lexemesAll (next :: rest) ++ given) :=
        ih (fun arg member => spells arg (List.mem_cons_of_mem _ member)) (by decide)
      have divided : ∀ last, Spelled last (',' :: ' ' :: (printAll (next :: rest) ++ text))
          ((.comma, ",") :: (lexemesAll (next :: rest) ++ given)) :=
          fun last => .separator (by decide) others.blank
      simpa [printAll, lexemesAll] using first sign (breaks_cons (by decide)) divided

theorem spells_operand {expr : Expr} (spells : Spells expr.print expr.lexemes) (loose : Prop)
    [Decidable loose] :
    Spells (if loose then enclosed expr.print else expr.print)
    (if loose then parens expr.lexemes else expr.lexemes) := by
  split
  · exact fun _ _ _ _ _ behind => spells.enclosed behind _
  · exact spells

theorem Writable.spells (writable : Writable inCalc expr) : Spells expr.print expr.lexemes := by
  induction writable with intro last text given sign breaks behind
  | @int _ _ value =>
    obtain ⟨first, more, split, numeral⟩ := Word.numeral_of_repr value.toInt sign
    have word := Word.integer numeral breaks
    rw [← split, String.ofList_toList] at word
    exact .word word (behind _)
  | @long _ _ value =>
    obtain ⟨first, more, split, numeral⟩ := Word.numeral_of_repr value.toInt sign
    have word : Word last (.long, _) _ text := Word.long numeral
    rw [← cons_append, ← split, String.ofList_toList] at word
    exact .word word (behind _)
  | text unreturned => exact .word (.string unreturned) (behind _)
  | @bool _ _ value =>
    cases value
    · exact .keyword (by decide) (by decide) (by decide) breaks (behind _)
    · exact .keyword (by decide) (by decide) (by decide) breaks (behind _)
  | null => exact .keyword (by decide) (by decide) (by decide) breaks (behind _)
  | localVar plain | constant plain => exact .marked (by decide) plain breaks (behind _)
  | @arrayElement _ _ name index plain inner ih =>
    have named : Spelled last ('$' :: name.text.toList ++ (enclosed index.print ++ text))
        ((.dollar, "$") :: (.identifier, name.text) :: (parens index.lexemes ++ given)) :=
      .marked (by decide) plain breaks_enclosed (ih.enclosed behind _)
    simpa [print, lexemes] using named
  | global plain => exact .globalName plain breaks (behind _)
  | bare plain => exact .plain plain breaks (behind _)
  | @command _ _ name alternative args plain inner ih =>
    have named : ∀ last, Spelled last (name.text.toList ++ (enclosed (printAll args) ++ text))
        ((.identifier, name.text) :: (parens (lexemesAll args) ++ given)) := fun last =>
      .plain plain breaks_enclosed ((spells_all ih).enclosed behind _)
    cases alternative
    · simpa [print, lexemes] using named last
    · have marked : Spelled last ('.' :: (name.text.toList ++ (enclosed (printAll args) ++ text)))
          ((.dot, ".") :: (.identifier, name.text) :: (parens (lexemesAll args) ++ given)) :=
        .separator (by decide) (named _)
      simpa [print, lexemes] using marked
  | @call _ _ trigger name args called plain inner ih =>
    have closed := (spells_all ih).enclosed behind .identifier
    have marked :
      Spelled last ((callMark trigger).2.toList ++ name.text.toList ++
        (enclosed (printAll args) ++ text))
        (callMark trigger :: (.identifier, name.text) :: (parens (lexemesAll args) ++ given)) := by
      unfold callMark
      split
      · exact .marked (by decide) plain breaks_enclosed closed
      · exact .marked (by decide) plain breaks_enclosed closed
    simpa [print, lexemes] using marked
  | @calculation _ _ inner _ ih =>
    have word : Spelled last ("calc".toList ++ (enclosed inner.print ++ text))
        ((.calcWord, "calc") :: (parens inner.lexemes ++ given)) :=
      .keyword (by decide) (by decide) (by decide) breaks_enclosed (ih.enclosed behind _)
    simpa [print, lexemes] using word
  | @binary _ _ operator left right _ _ _ first second =>
    have sign_behind : signStartsNumber operator.token = true := by cases operator <;> rfl
    have right :=
      (spells_operand second (right.level ≤ operator.level) sign_behind breaks behind).blank
    have middle : ∀ last, Spelled last _ _ :=
      fun last => (Spelled.word (.operator operator) right).blank
    simpa [print, lexemes] using spells_operand first (left.level < operator.level) sign
      (breaks_cons (by decide)) middle

end Expr

end

end TriggerScript
