import TriggerScript.Proofs.Token.Succession

/-!
Texts inside of an interpolation.

A text that is in order by itself is read alike inside of an interpolation, up to the mark that
closes it. Two scanners are compared, one of the text alone and one of the text with the mark and
more behind it. What the second one notes is left out, since it may be too deep where the first one
is not.
-/

namespace TriggerScript

open List Placed

/-- The kind and the text of a token, without its place. -/
def Token.spelled (token : Token) : TokenKind × Option String := (token.kind, token.lexeme)

namespace Placed

/-- The second text is the first one, the mark that closes an interpolation, and more. -/
def Enclosed (behind : List Char) (inner outer : List Placed) : Prop :=
  chars outer = chars inner ++ '>' :: behind

variable {behind : List Char} {inner outer : List Placed}

theorem Enclosed.nil (enclosed : Enclosed behind [] outer) :
    ∃ mark rest, outer = mark :: rest ∧ mark.char = '>' ∧ chars rest = behind := by
  cases outer with
  | nil => cases enclosed
  | cons mark rest =>
    obtain ⟨here, there⟩ := List.cons.inj enclosed
    exact ⟨mark, rest, rfl, here, there⟩

theorem Enclosed.cons {first : Placed} {rest : List Placed}
    (enclosed : Enclosed behind (first :: rest) outer) :
    ∃ other rest', outer = other :: rest' ∧ other.char = first.char ∧
      Enclosed behind rest rest' := by
  cases outer with
  | nil => cases enclosed
  | cons other rest' =>
    obtain ⟨here, there⟩ := List.cons.inj enclosed
    exact ⟨other, rest', rfl, here, there⟩

theorem Enclosed.drop (enclosed : Enclosed behind inner outer) {count : Nat}
    (inside : count ≤ inner.length) : Enclosed behind (inner.drop count) (outer.drop count) := by
  have shorter : count ≤ (chars inner).length := by rwa [chars, length_map]
  rw [Enclosed, chars, chars, map_drop, map_drop]
  exact (congrArg (List.drop count) enclosed).trans (drop_append_of_le_length shorter)

theorem Enclosed.drop_blanks (enclosed : Enclosed behind inner outer) :
    Enclosed behind (inner.dropWhile fun placed => isBlank placed.char)
      (outer.dropWhile fun placed => isBlank placed.char) := by
  have same : (chars outer).takeWhile isBlank = (chars inner).takeWhile isBlank := by
    rw [enclosed]
    exact Scanner.take_while_append (.inr ⟨'>', rfl, by decide⟩)
  have shorter := (takeWhile_sublist isBlank (l := chars inner)).length_le
  rw [Scanner.drop_while_chars, Scanner.drop_while_chars, same]
  refine enclosed.drop ?_
  rwa [chars, length_map] at shorter

end Placed

namespace Scanner

/-- A scanner of a text and one of the same text inside of interpolations. What lies ahead is left
out. -/
structure Twins (depth : Nat) (inner outer : Scanner) : Prop where
  innerWords : inner.vocabulary = .scripts
  outerWords : outer.vocabulary = .scripts
  depth : outer.depth = inner.depth + (depth + 1)
  pending : inner.pending.map (fun pending => pending.token.spelled) =
    outer.pending.map fun pending => pending.token.spelled

/-- The scanners stand at the same place of the text. -/
structure Enclosing (behind : List Char) (depth : Nat) (inner outer : Scanner) : Prop
    extends Twins depth inner outer where
  rest : Placed.Enclosed behind inner.rest outer.rest

/-- The scanners read the same token and then stand at the same place. -/
def Echoes (behind : List Char) (depth : Nat) (inner outer : Token × Scanner) : Prop :=
  outer.1.spelled = inner.1.spelled ∧ Enclosing behind depth inner.2 outer.2

variable {behind : List Char} {depth : Nat} {inner outer : Scanner} {rest rest' : List Placed}

theorem literal_enclosed {stop stop' : Nat} (enclosed : Placed.Enclosed behind rest rest')
    (whole : (Literal.read stop rest).ending ≠ .broken) :
    (Literal.read stop' rest').content = (Literal.read stop rest).content ∧
      (Literal.read stop' rest').ending = (Literal.read stop rest).ending ∧
      Placed.Enclosed behind (Literal.read stop rest).rest (Literal.read stop' rest').rest := by
  fun_induction Literal.read stop rest generalizing rest' with
  | case1 | case2 | case5 => exact absurd rfl whole
  | case3 first rest inside mark | case4 first rest inside _ mark =>
    obtain ⟨other, later, rfl, same, beyond⟩ := enclosed.cons
    rw [Literal.read.eq_def]
    simp [same, mark, beyond]
  | case6 first inside unquoted unmarked escape letter rest _ escaped ih
  | case7 first inside unquoted unmarked escape letter rest escaped ih =>
    obtain ⟨other, later, rfl, same, beyond⟩ := enclosed.cons
    obtain ⟨other', later', rfl, same', beyond'⟩ := beyond.cons
    obtain ⟨content, ending, left⟩ := ih beyond' whole
    rw [Literal.read.eq_def]
    simp [same, escape, same', escaped, Literal.push, Literal.note, content, ending, left]
  | case8 first rest inside unquoted unmarked plain ih =>
    obtain ⟨other, later, rfl, same, beyond⟩ := enclosed.cons
    obtain ⟨content, ending, left⟩ := ih beyond whole
    rw [Literal.read.eq_def]
    simp [same, inside, unquoted, unmarked, plain, Literal.push, content, ending, left]

section

variable (twins : Twins depth inner outer) (enclosed : Placed.Enclosed behind rest rest')

include twins enclosed

theorem echoes_accept (kind : TokenKind) (lexeme : List Char) (start start' : Nat) :
    Echoes behind depth (inner.accept kind lexeme start rest)
    (outer.accept kind lexeme start' rest') :=
  ⟨rfl, ⟨twins.innerWords, twins.outerWords, twins.depth, twins.pending⟩, enclosed⟩

theorem echoes_reject (char : Char) (start start' : Nat) :
    Echoes behind depth (inner.reject char start rest) (outer.reject char start' rest') :=
  ⟨rfl, ⟨twins.innerWords, twins.outerWords, twins.depth, twins.pending⟩, enclosed⟩

theorem echoes_string (whole : (Literal.read inner.stop rest).ending ≠ .broken)
    (interpolated : Bool) (start start' : Nat) :
    Echoes behind depth (inner.string interpolated start rest)
    (outer.string interpolated start' rest') := by
  obtain ⟨content, ending, left⟩ := @literal_enclosed _ _ _ inner.stop outer.stop enclosed whole
  -- The scanners may differ in what they note about the depth, which does not matter.
  rw [string_eq, string_eq]
  simp only [pieceOf, content, ending]
  refine ⟨?_, ⟨twins.innerWords, twins.outerWords, ?_, ?_⟩, left⟩
  all_goals simp only [Piece.read]
  all_goals split <;> try split
  all_goals first
    | rfl
    | exact twins.depth
    | exact twins.pending
    | simp only [twins.depth, Nat.add_right_comm _ _ 1]

end

/-- The token is a number with a sign. -/
def IsSigned (token : Token) : Prop :=
  IsNumber token.kind ∧ token.text.toList.head?.any (fun char => char = '+' || char = '-') = true

instance (token : Token) : Decidable (IsSigned token) :=
  inferInstanceAs (Decidable ((_ ∨ _ ∨ _) ∧ _ = _))

theorem text_word (scanner : Scanner) (first : Placed) (rest : List Placed) (kind : TokenKind)
    (lexeme : List Char) (count : Nat) (fault : Option LexicalFault) :
    ((Form.word kind lexeme count fault).read scanner first rest).1.kind = kind ∧
      ((Form.word kind lexeme count fault).read scanner first rest).1.text.toList = lexeme :=
  ⟨rfl, String.toList_ofList⟩

section

variable {first first' : Placed} (twins : Twins depth inner outer)
  (enclosed : Placed.Enclosed behind rest rest')
  (same : first'.char = first.char) (clean : (inner.dispatch first rest).2.faults = inner.faults)

include twins enclosed same clean

theorem form_enclosed (open_mark : first.char = '>' → inner.depth ≠ 0)
    (ended : first.char = '/' → (chars rest).head? = some '/' → '\n' ∈ (chars rest).tail)
    (sign : signStartsNumber outer.last = signStartsNumber inner.last ∨
      signStartsNumber inner.last = true ∧ ¬IsSigned (inner.dispatch first rest).1) :
    outer.form first' rest' = inner.form first rest := by
  have nested : outer.depth ≠ 0 := by rw [twins.depth]; omega
  have alone : formOf .scripts (outer.depth ≠ 0) (signStartsNumber outer.last) first.char
    (chars rest) =
      inner.form first rest := by
    rw [form, twins.innerWords]
    refine (form_nested fun mark => by simp [nested, open_mark mark]).trans
      (form_sign (sign.imp_right fun apart => ⟨apart.1, fun signed => apart.2 ?_⟩))
    -- Otherwise the text by itself would begin with a number that has a sign.
    obtain ⟨kind, more, count, fault, number, numeral⟩ := number_form_eq first.char (chars rest)
    have found : inner.form first rest = .word kind (first.char :: more) count fault := by
      rw [form, apart.1, form_of_sign signed, number]
    obtain ⟨kinds, text⟩ := text_word inner first rest kind (first.char :: more) count fault
    rw [dispatch_eq, found, IsSigned, kinds, text]
    exact ⟨numeral, by rcases signed.1 with minus | plus <;> simp [*]⟩
  rw [← alone, form, twins.outerWords, same, enclosed]
  refine form_append (.inr rfl) (.inr rfl) ended fun kind lexeme count fault found => ?_
  rw [dispatch_eq, ← alone, found] at clean
  exact fault_of_clean clean

theorem echoes_dispatch (forms : outer.form first' rest' = inner.form first rest) :
    Echoes behind depth (inner.dispatch first rest) (outer.dispatch first' rest') := by
  rw [dispatch_eq] at clean
  rw [dispatch_eq, dispatch_eq, forms]
  cases found : inner.form first rest with
  | word kind lexeme count fault =>
    rw [found] at clean
    obtain rfl := fault_of_clean clean
    have inside := (spares_of_form found).1
    rw [chars, length_map] at inside
    exact echoes_accept twins (enclosed.drop inside) kind _ _ _
  | unknown =>
    simp only [Form.read, same]
    exact echoes_reject twins enclosed _ _ _
  | piece interpolated =>
    rw [found] at clean
    cases interpolated with
    | false => exact echoes_string twins enclosed (literal_of_clean clean).1 _ _ _
    | true =>
      have deep : inner.depth ≠ 0 := of_decide_eq_true (nested_of_form found)
      have depths : outer.depth - 1 = inner.depth - 1 + (depth + 1) := by rw [twins.depth]; omega
      refine echoes_string ?_ enclosed (literal_of_clean clean).1 _ _ _
      exact ⟨twins.innerWords, twins.outerWords, depths, twins.pending⟩

end

/-! ### Token by token -/

/-- The scanner stands before a line comment that no line feed ends. -/
def BeforeOpenComment (scanner : Scanner) : Prop :=
  let ahead := Placed.chars (scanner.rest.dropWhile fun placed => isBlank placed.char)
  scanner.pending = none ∧ ['/', '/'] <+: ahead ∧ '\n' ∉ ahead

instance (scanner : Scanner) : Decidable scanner.BeforeOpenComment :=
  inferInstanceAs (Decidable (_ ∧ _ ∧ _))

/-- A token of the text by itself holds the mark only inside of a string or a comment. -/
def MarkInside (token : Token) : Prop :=
  '>' ∈ token.text.toList → token.kind = .string ∨ token.kind = .comment

instance (token : Token) : Decidable (MarkInside token) := inferInstanceAs (Decidable (_ → _ ∨ _))

theorem not_mark_inside (words : inner.vocabulary = .scripts) (depth : inner.depth = 0)
    {first : Placed} (mark : first.char = '>') : ¬MarkInside (inner.dispatch first rest).1 := by
  have known : ∀ line count, ∃ kind taken,
    longestOperator .scripts '>' line count = some (kind, taken) := by
    intro line count
    induction count with
    | zero => exact ⟨.greaterThan, 0, by rw [longestOperator]; decide⟩
    | succ count ih =>
      rw [longestOperator]
      split
      · exact ⟨_, _, rfl⟩
      · exact ih
  have read : inner.form first rest = operatorForm .scripts '>' (chars rest) := by
    simp [form, formOf, mark, words, depth, show isNameStart '>' = false from by decide,
      show '>'.isDigit = false from by decide,
      show Vocabulary.scripts.separator? '>' = none from by decide,
      show Vocabulary.scripts.startsOperator '>' = true from by decide]
  obtain ⟨kind, taken, found⟩ :=
    known (((chars rest).takeWhile fun char => decide (char ≠ '\n')).take
    (Vocabulary.scripts.operatorLength - 1)) _
  rw [operatorForm, found] at read
  have operators : ∀ kind ∈ Vocabulary.scripts.operators.map Prod.snd, kind ≠ .string ∧
    kind ≠ .comment := by decide
  obtain ⟨string, comment⟩ := operators kind (longest_operator_mem found).1
  intro inside
  rw [dispatch_eq, read, MarkInside, (text_word ..).1, (text_word ..).2] at inside
  exact (inside mem_cons_self).elim string comment

theorem echoes_scan (enclosing : Enclosing behind depth inner outer)
    (unfinished : inner.scan.1.kind ≠ .eof) (clean : inner.scan.2.faults = inner.faults)
    (inside : MarkInside inner.scan.1) (ended : ¬inner.BeforeOpenComment)
    (sign : signStartsNumber outer.last = signStartsNumber inner.last ∨
      signStartsNumber inner.last = true ∧ ¬IsSigned inner.scan.1) :
    Echoes behind depth inner.scan outer.scan := by
  cases kept : inner.pending with
  | some pending =>
    obtain ⟨pending', kept', same⟩ : ∃ pending', outer.pending = some pending' ∧
        pending'.token.spelled = pending.token.spelled := by
      have equal := enclosing.pending
      rw [kept, Option.map_some, eq_comm, Option.map_eq_some_iff] at equal
      exact equal
    simp only [scan, kept, kept']
    exact ⟨same, ⟨enclosing.innerWords, enclosing.outerWords, enclosing.depth, rfl⟩, enclosing.rest⟩
  | none =>
    have kept' : outer.pending = none := by simpa [kept] using enclosing.pending.symm
    have ahead := enclosing.rest.drop_blanks
    simp only [scan, kept, kept'] at unfinished clean inside sign ⊢
    cases found : inner.rest.dropWhile fun placed => isBlank placed.char with
    | nil =>
      rw [found] at unfinished
      exact absurd rfl unfinished
    | cons first rest =>
      rw [found] at ahead unfinished clean inside sign
      obtain ⟨first', rest', found', same, beyond⟩ := ahead.cons
      rw [found']
      refine echoes_dispatch enclosing.toTwins beyond same clean
        (form_enclosed enclosing.toTwins beyond same clean ?_ ?_ sign)
      · -- The mark would be an operator where nothing is open.
        exact fun mark depth => not_mark_inside enclosing.innerWords depth mark inside
      · intro slash next
        by_contra broken
        obtain ⟨later, text⟩ := head?_eq_some_iff.mp next
        have line : chars (first :: rest) = '/' :: '/' :: later := by
          rw [chars, map_cons, slash, ← chars, text]
        refine ended ⟨kept, ?_⟩
        rw [found, line]
        rw [text] at broken
        exact ⟨⟨later, rfl⟩, by simpa using broken⟩

theorem echoes_next (enclosing : Enclosing behind depth inner outer)
    (unfinished : inner.next.1.kind ≠ .eof) (clean : inner.next.2.faults = inner.faults)
    (inside : MarkInside inner.next.1) (ended : ¬inner.BeforeOpenComment)
    (sign : signStartsNumber outer.last = signStartsNumber inner.last ∨
      signStartsNumber inner.last = true ∧ ¬IsSigned inner.next.1) :
    Echoes behind depth inner.next outer.next := by
  have scanned : inner.scan.2.faults = inner.faults := (faults_next_eq inner).symm.trans clean
  obtain ⟨token, same⟩ := echoes_scan enclosing unfinished scanned inside ended sign
  refine ⟨token, ?_⟩
  simp only [next]
  split <;> split <;> exact ⟨⟨same.innerWords, same.outerWords, same.depth, same.pending⟩,
    same.rest⟩

theorem last_next_of_token {scanner : Scanner} (token : scanner.next.1.kind ≠ .comment) :
    scanner.next.2.last = scanner.next.1.kind := by
  have kind : scanner.scan.1.kind ≠ .comment := token
  simp only [next, if_neg kind]

/-- Tokens that a scanner reads one after the other, comments included, before the end of its
text. -/
inductive Spells : Scanner → List (TokenKind × Option String) → Scanner → Prop where
  | done (scanner : Scanner) : Spells scanner [] scanner
  | step {scanner final : Scanner} {rest : List (TokenKind × Option String)}
      (unfinished : scanner.next.1.kind ≠ .eof) (later : Spells scanner.next.2 rest final) :
      Spells scanner (scanner.next.1.spelled :: rest) final

/-- The scanner stands before the mark that closes an interpolation, which others enclose. -/
structure AtMark (behind : List Char) (depth : Nat) (scanner : Scanner) : Prop where
  vocabulary : scanner.vocabulary = .scripts
  depth : scanner.depth = depth + 1
  pending : scanner.pending = none
  rest : ∃ mark rest, (scanner.rest.dropWhile fun placed => isBlank placed.char) = mark :: rest ∧
    mark.char = '>' ∧ Placed.chars rest = behind

/-- At the end of the text by itself the other scanner stands before the mark. -/
theorem Enclosing.at_mark (enclosing : Enclosing behind depth inner outer)
    (finished : inner.next.1.kind = .eof) (clean : inner.next.2.faults = inner.faults) :
    outer.AtMark behind depth := by
  have endless : inner.vocabulary.Endless := by
    rw [enclosing.innerWords]
    exact Vocabulary.scripts_endless
  obtain ⟨empty, blank, ending⟩ := scan_of_end endless finished
  have scanned : inner.finish.2.faults = inner.faults := by
    rw [← ending]
    exact (faults_next_eq inner).symm.trans clean
  have apart : outer.depth = 0 + (depth + 1) := (finish_of_clean scanned).1 ▸ enclosing.depth
  refine ⟨enclosing.outerWords, apart.trans (Nat.zero_add _), ?_, ?_⟩
  · have pending := enclosing.pending
    rw [empty] at pending
    exact Option.map_eq_none_iff.mp pending.symm
  · have left := enclosing.rest.drop_blanks
    rw [blank] at left
    exact left.nil

theorem faults_tokens (scanner : Scanner) : scanner.faults <+: scanner.tokens.2.faults := by
  induction scanner using tokens_induction with
  | ends scanner _ => exact scanner.faults_next
  | goes_on scanner _ _ _ ih => exact scanner.faults_next.trans ih

theorem rest_of_text (vocabulary : Vocabulary) (source : String) (base : Nat) :
    chars (ofText vocabulary source base).rest = source.toList.filter fun char => char ≠ '\r' := by
  calc chars ((Placed.ofText source).filter fun placed => placed.char ≠ '\r')
    _ = (chars (Placed.ofText source)).filter fun char => char ≠ '\r' := by
      rw [chars, chars, filter_map]
      rfl
    _ = source.toList.filter fun char => char ≠ '\r' := by rw [Placed.ofText, chars_ofList]

/-- The scanner behind a number of tokens, comments included. -/
def following (scanner : Scanner) (count : Nat) : Scanner :=
  Nat.repeat (fun scanner => scanner.next.2) count scanner

theorem following_succ (scanner : Scanner) (count : Nat) :
    scanner.following (count + 1) = scanner.next.2.following count := by
  induction count with
  | zero => rfl
  | succ count ih => exact congrArg (fun scanner => scanner.next.2) ih

theorem tokens_of_end {scanner : Scanner} (finished : scanner.next.1.kind = .eof) :
    scanner.tokens = ([scanner.next.1], scanner.next.2) := by
  fun_cases tokens scanner with
  | case1 token behind read => rw [read]
  | case2 token behind read unfinished =>
    rw [read] at finished
    exact absurd finished unfinished

theorem tokens_of_token {scanner : Scanner} (unfinished : scanner.next.1.kind ≠ .eof) :
    scanner.tokens = (scanner.next.1 :: scanner.next.2.tokens.1, scanner.next.2.tokens.2) := by
  fun_cases tokens scanner with
  | case1 token behind read finished =>
    rw [read] at unfinished
    exact absurd finished unfinished
  | case2 token behind read _ _ others last later => rw [read, later]

theorem tokens_of_following (scanner : Scanner) (count : Nat)
    (before : ∀ index < count, (scanner.following index).next.1.kind ≠ .eof)
    (ending : (scanner.following count).next.1.kind = .eof) :
    scanner.tokens =
      ((List.range (count + 1)).map fun index => (scanner.following index).next.1, scanner.following
        (count + 1)) := by
  induction count generalizing scanner with
  | zero => exact tokens_of_end ending
  | succ count ih =>
    have first : scanner.next.1.kind ≠ .eof := before 0 (Nat.succ_pos count)
    have later := ih scanner.next.2
      (fun index inside => following_succ scanner index ▸ before (index + 1)
        (Nat.succ_lt_succ inside))
      (following_succ scanner count ▸ ending)
    have shifted : (List.range (count + 2)).map (fun index => (scanner.following index).next.1) =
        scanner.next.1 :: (List.range (count + 1)).map fun index =>
          (scanner.next.2.following index).next.1 := by
      rw [range_succ_eq_map, map_cons, map_map]
      refine congrArg (scanner.next.1 :: ·) (map_congr_left fun index _ => ?_)
      exact congrArg (fun scanner => scanner.next.1) (following_succ scanner index)
    rw [tokens_of_token first, later, following_succ scanner (count + 1), shifted]

theorem tokens_ne_nil (scanner : Scanner) : scanner.tokens.1 ≠ [] := by
  by_cases finished : scanner.next.1.kind = .eof
  · rw [tokens_of_end finished]
    exact cons_ne_nil _ _
  · rw [tokens_of_token finished]
    exact cons_ne_nil _ _

/-- The first token of these that is no comment is no number with a sign. -/
def Unsigned (tokens : List Token) : Prop :=
  ∀ token ∈ tokens.find? fun token => token.kind ≠ .comment, ¬IsSigned token

instance (tokens : List Token) : Decidable (Unsigned tokens) :=
  inferInstanceAs
    (Decidable (∀ token ∈ tokens.find? fun token => token.kind ≠ .comment, ¬IsSigned token))

/-- The scanners tell a sign of a number from an operator alike, or there is none to tell. -/
def SignsAgree (inner outer : Scanner) (tokens : List Token) : Prop :=
  signStartsNumber outer.last = signStartsNumber inner.last ∨ signStartsNumber inner.last = true ∧
    Unsigned tokens

theorem Unsigned.head {token : Token} {tokens : List Token}
    (unsigned : Unsigned (token :: tokens)) :
    ¬IsSigned token := by
  by_cases comment : token.kind = .comment
  · rintro ⟨number, _⟩
    simp [IsNumber, comment] at number
  · exact unsigned token (find?_cons_of_pos (by simpa using comment))

theorem SignsAgree.next {tokens : List Token} (same : outer.next.1.kind = inner.next.1.kind)
    (agree : SignsAgree inner outer (inner.next.1 :: tokens)) :
    SignsAgree inner.next.2 outer.next.2 tokens := by
  by_cases comment : inner.next.1.kind = .comment
  · rw [SignsAgree, last_next_of_comment comment, last_next_of_comment (same.trans comment)]
    refine agree.imp_right (And.imp_right fun unsigned token found => unsigned token ?_)
    rwa [find?_cons_of_neg (by simpa using comment)]
  · left
    rw [last_next_of_token comment, last_next_of_token (same ▸ comment), same]

/-- A text in order is read inside of interpolations as it is read by itself, up to the mark. -/
theorem spells_enclosed (enclosing : Enclosing behind depth inner outer)
    (clean : inner.tokens.2.faults = []) (inside : ∀ token ∈ inner.tokens.1, MarkInside token)
    (ended : ∀ count < inner.tokens.1.length, ¬(inner.following count).BeforeOpenComment)
    (agree : SignsAgree inner outer inner.tokens.1) :
    ∃ final, Spells outer (inner.tokens.1.dropLast.map Token.spelled) final ∧
      final.AtMark behind depth := by
  induction inner using tokens_induction generalizing outer with
  | ends scanner finished =>
    refine ⟨outer, .done outer, enclosing.at_mark finished ?_⟩
    have before := scanner.faults_next
    rw [clean] at before
    rw [clean, prefix_nil.mp before]
  | goes_on scanner others unfinished later ih =>
    have nonempty : others.1 ≠ [] := later ▸ scanner.next.2.tokens_ne_nil
    have kept : scanner.next.2.faults = [] := by
      have onward := scanner.next.2.faults_tokens
      rw [later, clean] at onward
      exact prefix_nil.mp onward
    have before : scanner.next.2.faults = scanner.faults := by
      have onward := scanner.faults_next
      rw [kept] at onward ⊢
      exact (prefix_nil.mp onward).symm
    obtain ⟨spelled, same⟩ := echoes_next enclosing unfinished before (inside _ mem_cons_self)
      (ended 0 (Nat.succ_pos _))
      (agree.imp_right (And.imp_right Unsigned.head))
    obtain ⟨final, reads, arrived⟩ :=
      ih same clean (fun other member => inside other (mem_cons_of_mem _ member))
      (fun count earlier => following_succ scanner count ▸ ended (count + 1)
        (Nat.succ_lt_succ earlier))
      (agree.next (congrArg Prod.fst spelled))
    refine ⟨final, ?_, arrived⟩
    rw [dropLast_cons_of_ne_nil nonempty, map_cons, ← spelled]
    have kind : outer.next.1.kind = scanner.next.1.kind := congrArg Prod.fst spelled
    exact .step (kind ▸ unfinished) reads

end Scanner

end TriggerScript
