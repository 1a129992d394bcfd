import TriggerScript.Proofs.Printing.Words
import TriggerScript.Proofs.Token.Enclosed

/-!
String literals with interpolated texts.

A literal is written as its first segment and then, for each part, an interpolated text between its
marks and the segment behind it. Reading it gives the tokens of the texts as they are read alone,
with the segments between them. The texts may hold such literals themselves.
-/

namespace TriggerScript

open List

variable {content : List Placed} {segment : String} {parts : List (String × String)}

/-- What stands behind a segment of a literal: texts between marks, each with the segment behind it,
and the quote. -/
def writtenParts : List (String × String) → List Char
  | [] => ['"']
  | (body, segment) :: parts =>
    '<' :: (body.toList ++ '>' :: (segment.toList.flatMap escaped ++ writtenParts parts))

/-- The source text of a literal. -/
def interpolated (first : String) (parts : List (String × String)) : String :=
  String.ofList ('"' :: (first.toList.flatMap escaped ++ writtenParts parts))

/-- The tokens of a text by itself, without its end. -/
def bodyTokens (body : String) : List (TokenKind × Option String) :=
  (Scanner.ofText .scripts body 0).tokens.1.dropLast.map Token.spelled

/-- The tokens behind the first segment. An empty segment at the end is left out. -/
def partTokens : List (String × String) → List (TokenKind × Option String)
  | [] => [(.concatEnd, some "")]
  | (body, segment) :: parts =>
    bodyTokens body ++ (if segment = "" ∧ parts = [] then [] else [(.string, some segment)]) ++
      partTokens parts

/-- A text that may be interpolated: it is in order, the closing mark stands only in its strings and
comments, a line comment in it is ended by a line feed, and it does not begin with a number that has
a sign. -/
structure Interpolable (body : String) : Prop where
  clean : (Scanner.ofText .scripts body 0).tokens.2.faults = []
  inside : ∀ token ∈ (Scanner.ofText .scripts body 0).tokens.1, Scanner.MarkInside token
  ended : ∀ count < (Scanner.ofText .scripts body 0).tokens.1.length,
    ¬((Scanner.ofText .scripts body 0).following count).BeforeOpenComment
  unsigned : Scanner.Unsigned (Scanner.ofText .scripts body 0).tokens.1

/-! ### Pieces of a literal -/

theorem Literal.read_segment (stop : Nat) {segment : List Char} (ends : mark = '<' ∨ mark = '"')
    (written : Placed.chars content = segment.flatMap escaped ++ mark :: behind) :
    ∃ rest, Literal.read stop content = ⟨segment, if mark = '<' then .opened else .closed,
      rest, []⟩ ∧
      Placed.chars rest = behind := by
  refine ⟨_, Word.read_written stop ends written, ?_⟩
  rw [Placed.chars, map_drop]
  rw [Placed.chars] at written
  rw [written, append_cons]
  exact drop_left' (by simp)

/-- Carriage returns are not read, and none is written for a segment without one. -/
theorem filter_escaped {segment : List Char} (unreturned : '\r' ∉ segment) :
    (segment.flatMap escaped).filter (fun char => char ≠ '\r') = segment.flatMap escaped := by
  rw [filter_eq_self]
  intro char member
  simp only [decide_eq_true_eq]
  rintro rfl
  exact unreturned (Word.return_of_mem_written member)

theorem filter_written {body : String} (unreturned : '\r' ∉ segment.toList) :
    (writtenParts ((body, segment) :: parts)).filter (fun char => char ≠ '\r') =
      '<' :: (body.toList.filter (fun char => char ≠ '\r') ++ '>' ::
        (segment.toList.flatMap escaped ++
        (writtenParts parts).filter (fun char => char ≠ '\r'))) := by
  simp only [writtenParts, filter_cons, filter_append, filter_escaped unreturned]
  rfl

namespace Scanner

/-- The scanner stands before a text, with a number of interpolations open. -/
structure Before (text : List Char) (depth : Nat) (scanner : Scanner) : Prop where
  vocabulary : scanner.vocabulary = .scripts
  depth : scanner.depth = depth
  pending : scanner.pending = none
  rest : Placed.chars scanner.rest = text

variable {scanner final : Scanner} {text behind : List Char} {depth : Nat}
  {lexeme : TokenKind × Option String}
  {others : List (TokenKind × Option String)}

theorem Spells.trans (before : Spells scanner lexemes middle) (after : Spells middle others final) :
    Spells scanner (lexemes ++ others) final := by
  induction before with
  | done => exact after
  | step unfinished _ ih => exact .step unfinished (ih after)

theorem tokens_of_spells (spells : Spells scanner lexemes final) :
    scanner.tokens.1.map Token.spelled = lexemes ++ final.tokens.1.map Token.spelled := by
  induction spells with
  | done => rfl
  | step unfinished _ ih =>
    rw [tokens_of_token unfinished, map_cons, ih]
    rfl

theorem Before.spells_next (before : scanner.scan.2.Before text depth) (kind : lexeme.1 ≠ .eof)
    (spelled : scanner.scan.1.spelled = lexeme) :
    Spells scanner [lexeme] scanner.next.2 ∧ scanner.next.2.Before text depth := by
  subst spelled
  refine ⟨.step kind (.done _), ?_⟩
  simp only [next]
  split
  · exact before
  · exact ⟨before.vocabulary, before.depth, before.pending, before.rest⟩

theorem Before.spells_two {pending : Pending}
    (before : { scanner.scan.2 with pending := none }.Before text depth)
    (kind : lexeme.1 ≠ .eof) (spelled : scanner.scan.1.spelled = lexeme)
    (kept : scanner.scan.2.pending = some pending) :
    ∃ final, Spells scanner [lexeme, pending.token.spelled] final ∧ final.Before text depth := by
  have scanned : scanner.next.2.scan =
    (pending.token, { scanner.next.2 with pending := none }) := by
    have held : scanner.next.2.pending = some pending := by
      simp only [next]
      split <;> exact kept
    rw [scan, held]
  have after : scanner.next.2.scan.2.Before text depth := by
    rw [scanned]
    simp only [next]
    split <;> exact ⟨before.vocabulary, before.depth, rfl, before.rest⟩
  have other : pending.token.spelled.1 ≠ .eof := by
    cases pending <;> simp [Pending.token, Token.spelled]
  obtain ⟨spells, there⟩ := after.spells_next other (by rw [scanned])
  subst spelled
  exact ⟨_, .step kind spells, there⟩

/-- A segment that begins a literal and is followed by a text to interpolate. -/
theorem string_begins (start : Nat) (vocabulary : scanner.vocabulary = .scripts)
    (written : Placed.chars content = segment.toList.flatMap escaped ++ '<' :: behind) :
    ∃ span, (scanner.string false start content).1.spelled = (.concatBegin, some "") ∧
      (scanner.string false start content).2.pending = some (.text span segment) ∧
      { (scanner.string false start content).2 with pending := none }.Before behind
        (scanner.depth + 1) := by
  obtain ⟨rest, read, left⟩ := Literal.read_segment scanner.stop (.inl rfl) written
  simp only [string, read, if_true, Bool.false_eq_true, if_false, String.ofList_toList]
  refine ⟨_, rfl, rfl, ?_, rfl, rfl, ?_⟩
  all_goals split <;> assumption

theorem string_continues (start : Nat) (vocabulary : scanner.vocabulary = .scripts)
    (pending : scanner.pending = none)
    (written : Placed.chars content = segment.toList.flatMap escaped ++ '<' :: behind) :
    (scanner.string true start content).1.spelled = (.string, some segment) ∧
      (scanner.string true start content).2.Before behind (scanner.depth + 1) := by
  obtain ⟨rest, read, left⟩ := Literal.read_segment scanner.stop (.inl rfl) written
  simp only [string, read, if_true, String.ofList_toList]
  refine ⟨rfl, ?_, rfl, ?_, ?_⟩
  all_goals split <;> assumption

theorem string_ends (start : Nat) (vocabulary : scanner.vocabulary = .scripts)
    (pending : scanner.pending = none)
    (written : Placed.chars content = [].flatMap escaped ++ '"' :: behind) :
    (scanner.string true start content).1.spelled = (.concatEnd, some "") ∧
      (scanner.string true start content).2.Before behind scanner.depth := by
  obtain ⟨rest, read, left⟩ := Literal.read_segment scanner.stop (.inr rfl) written
  simp only [string, read]
  exact ⟨rfl, vocabulary, rfl, pending, left⟩

theorem string_ends_filled (start : Nat) (filled : segment ≠ "")
    (vocabulary : scanner.vocabulary = .scripts)
    (written : Placed.chars content = segment.toList.flatMap escaped ++ '"' :: behind) :
    ∃ span, (scanner.string true start content).1.spelled = (.string, some segment) ∧
      (scanner.string true start content).2.pending = some (.close span) ∧
      { (scanner.string true start content).2 with pending := none }.Before behind
        scanner.depth := by
  obtain ⟨rest, read, left⟩ := Literal.read_segment scanner.stop (.inr rfl) written
  have holds : segment.isEmpty = false := by simpa [String.isEmpty_iff] using filled
  simp only [string, read, String.ofList_toList, holds]
  exact ⟨_, rfl, rfl, vocabulary, rfl, rfl, left⟩

theorem AtMark.resumes (arrived : scanner.AtMark behind depth) :
    ∃ (resumed : Scanner) (start : Nat) (content : List Placed),
      scanner.scan = resumed.string true start content ∧ resumed.vocabulary = .scripts ∧
      resumed.pending = none ∧
        resumed.depth = depth ∧ Placed.chars content = behind := by
  obtain ⟨mark, content, ahead, same, left⟩ := arrived.rest
  refine ⟨{ scanner with depth }, Placed.offsetOr scanner.stop content, content, ?_,
    arrived.vocabulary, arrived.pending, rfl, left⟩
  rw [scan, arrived.pending]
  simp [ahead, dispatch, same, arrived.vocabulary, arrived.depth, arrived.pending,
    show isNameStart '>' = false from by decide, show '>'.isDigit = false from by decide,
    show Vocabulary.scripts.separator? '>' = none from by decide]

theorem Before.spells_body (interpolable : Interpolable body)
    (before : scanner.Before (body.toList.filter (fun char => char ≠ '\r') ++ '>' :: behind)
      (depth + 1)) :
    ∃ final, Spells scanner (bodyTokens body) final ∧ final.AtMark behind depth := by
  refine spells_enclosed ⟨⟨rfl, before.vocabulary, ?_, ?_⟩, ?_⟩ interpolable.clean
    interpolable.inside
    interpolable.ended (.inr ⟨rfl, interpolable.unsigned⟩)
  · rw [before.depth]
    exact (Nat.zero_add _).symm
  · rw [before.pending]
    rfl
  · rw [Placed.Enclosed, before.rest, rest_of_text]

theorem AtMark.spells_segment
    (arrived : scanner.AtMark (segment.toList.flatMap escaped ++ '<' :: behind) depth) :
    ∃ final, Spells scanner [(.string, some segment)] final ∧ final.Before behind (depth + 1) := by
  obtain ⟨resumed, start, content, scanned, vocabulary, pending, rfl, written⟩ := arrived.resumes
  obtain ⟨spelled, before⟩ := string_continues start vocabulary pending written
  rw [← scanned] at spelled before
  exact ⟨_, before.spells_next (by simp) spelled⟩

theorem AtMark.spells_end
    (arrived : scanner.AtMark (segment.toList.flatMap escaped ++ '"' :: behind) depth) :
    ∃ final, Spells scanner ((if segment = "" then [] else [(.string, some segment)]) ++
      [(.concatEnd, some "")]) final ∧
      final.Before behind depth := by
  obtain ⟨resumed, start, content, scanned, vocabulary, pending, rfl, written⟩ := arrived.resumes
  by_cases empty : segment = ""
  · subst empty
    obtain ⟨spelled, before⟩ := string_ends start vocabulary pending written
    rw [← scanned] at spelled before
    exact ⟨_, before.spells_next (by decide) spelled⟩
  · obtain ⟨span, spelled, kept, before⟩ := string_ends_filled start empty vocabulary written
    rw [← scanned] at spelled kept before
    rw [if_neg empty]
    exact before.spells_two (by simp) spelled kept

theorem AtMark.spells_parts (bodies : ∀ part ∈ parts, Interpolable part.1 ∧ '\r' ∉ part.2.toList)
    (arrived : scanner.AtMark
      (segment.toList.flatMap escaped ++
        ((writtenParts parts).filter (fun char => char ≠ '\r') ++ behind)) depth) :
    ∃ final, Spells scanner
        ((if segment = "" ∧ parts = [] then [] else [(.string, some segment)]) ++ partTokens parts)
          final ∧
      final.Before behind depth := by
  induction parts generalizing scanner segment with
  | nil =>
    obtain ⟨final, spells, there⟩ := AtMark.spells_end arrived
    refine ⟨final, ?_, there⟩
    simpa [partTokens] using spells
  | cons part parts ih =>
    obtain ⟨body, next⟩ := part
    obtain ⟨⟨interpolable, unreturned⟩, others⟩ := forall_mem_cons.mp bodies
    rw [filter_written unreturned, cons_append, append_assoc, cons_append, append_assoc] at arrived
    obtain ⟨opened, first, before⟩ := arrived.spells_segment
    obtain ⟨marked, second, there⟩ := before.spells_body interpolable
    obtain ⟨final, third, ended⟩ := ih others there
    refine ⟨final, ?_, ended⟩
    simpa [partTokens] using first.trans (second.trans third)

theorem Before.spells_interpolated {first : String} (filled : parts ≠ [])
    (unreturned : '\r' ∉ first.toList)
    (bodies : ∀ part ∈ parts, Interpolable part.1 ∧ '\r' ∉ part.2.toList)
    (before : scanner.Before ((interpolated first parts).toList.filter (fun char => char ≠ '\r') ++
      behind) depth) :
    ∃ final, Spells scanner ((.concatBegin, some "") :: (.string, some first) :: partTokens parts)
      final ∧
      final.Before behind depth := by
  obtain ⟨⟨body, segment⟩, others, rfl⟩ := exists_cons_of_ne_nil filled
  obtain ⟨⟨interpolable, plain⟩, later⟩ := forall_mem_cons.mp bodies
  have written : (interpolated first ((body, segment) :: others)).toList.filter
    (fun char => char ≠ '\r') =
      '"' :: (first.toList.flatMap escaped ++
        (writtenParts ((body, segment) :: others)).filter (fun char => char ≠ '\r')) := by
    rw [interpolated, String.toList_ofList, filter_cons_of_pos (by decide), filter_append,
      filter_escaped unreturned]
  have rest := before.rest
  rw [written, filter_written plain, cons_append, append_assoc, cons_append] at rest
  obtain ⟨quote, content, ahead, same, left⟩ := map_eq_cons_iff.mp rest
  have scanned : scanner.scan = scanner.string false quote.offset content := by
    rw [scan, before.pending]
    simp [ahead, dispatch, same, show isBlank '"' = false from by decide,
      show isNameStart '"' = false from by decide]
  obtain ⟨span, spelled, kept, opened⟩ := string_begins quote.offset before.vocabulary left
  rw [← scanned] at spelled kept opened
  obtain ⟨begun, first, inside⟩ := opened.spells_two (by simp) spelled kept
  rw [before.depth, append_assoc, cons_append, append_assoc] at inside
  obtain ⟨marked, second, there⟩ := inside.spells_body interpolable
  obtain ⟨final, third, ended⟩ := there.spells_parts later
  refine ⟨final, ?_, ended⟩
  simpa [partTokens, Pending.token, Token.spelled] using first.trans (second.trans third)

/-- A literal is split into its segments and the tokens of the texts between them. -/
theorem tokens_interpolated {first : String} {parts : List (String × String)} (base : Nat)
    (filled : parts ≠ []) (unreturned : '\r' ∉ first.toList)
    (bodies : ∀ part ∈ parts, Interpolable part.1 ∧ '\r' ∉ part.2.toList) :
    (ofText .scripts (interpolated first parts) base).tokens.1.map Token.spelled =
      (.concatBegin, some "") :: (.string, some first) :: partTokens parts ++
      [(.eof, some "")] := by
  have before : (ofText .scripts (interpolated first parts) base).Before
      ((interpolated first parts).toList.filter (fun char => char ≠ '\r') ++ []) 0 := by
    refine ⟨rfl, rfl, rfl, ?_⟩
    rw [List.append_nil, rest_of_text]
  obtain ⟨final, spells, ended⟩ := before.spells_interpolated filled unreturned bodies
  have finished : final.next.1.spelled = (.eof, some "") := by
    have empty : final.rest = [] := List.map_eq_nil_iff.mp ended.rest
    have scanned : final.scan = final.finish := by
      rw [scan, ended.pending]
      simp [empty]
    rw [next, scanned]
    rfl
  rw [tokens_of_spells spells, tokens_of_end (congrArg Prod.fst finished), List.map_singleton,
    finished]

/-- A literal that is split itself and a comment that holds the mark. -/
def salutation : String := "\"sir <$name>\" /* > */"

/-- A line comment that is ended. -/
def tally : String := "calc($count + 1) // more >\n"

theorem tokens_salutation : (ofText .scripts salutation 0).tokens =
    ((List.range 7).map fun index => ((ofText .scripts salutation 0).following index).next.1,
      (ofText .scripts salutation 0).following 7) :=
  tokens_of_following _ 6 (by decide +kernel) (by decide +kernel)

theorem tokens_tally : (ofText .scripts tally 0).tokens =
    ((List.range 9).map fun index => ((ofText .scripts tally 0).following index).next.1,
      (ofText .scripts tally 0).following 9) :=
  tokens_of_following _ 8 (by decide) rfl

theorem salutation_interpolable : Interpolable salutation := by
  constructor <;> rw [tokens_salutation] <;> decide +kernel

theorem tally_interpolable : Interpolable tally := by
  constructor <;> rw [tokens_tally] <;> decide +kernel

/-- The mark inside of a segment is escaped, and an empty segment stays between two texts but not at
the end. -/
theorem letter_tokens :
    (ofText .scripts (interpolated "Dear <" [(salutation, ""), (tally, "")]) 0).tokens.1.map
      Token.spelled =
      [(.concatBegin, some ""), (.string, some "Dear <"),
        (.concatBegin, some ""), (.string, some "sir "), (.dollar, some "$"),
        (.identifier, some "name"),
        (.concatEnd, some ""), (.comment, some ""), (.string, some ""),
        (.calcWord, some "calc"), (.leftParen, some "("), (.dollar, some "$"),
        (.identifier, some "count"),
        (.plus, some "+"), (.integer, some "1"), (.rightParen, some ")"), (.comment, some "more >"),
        (.concatEnd, some ""), (.eof, some "")] := by
  refine (tokens_interpolated 0 (by decide) (by decide) ?_).trans ?_
  · exact List.forall_mem_cons.mpr ⟨⟨salutation_interpolable, by decide⟩,
      List.forall_mem_singleton.mpr ⟨tally_interpolable, by decide⟩⟩
  · rw [partTokens, partTokens, partTokens, bodyTokens, bodyTokens, tokens_salutation, tokens_tally]
    decide +kernel

end Scanner

end TriggerScript
