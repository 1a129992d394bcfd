import TriggerScript.Proofs.Token.Balance

/-!
Ranges of tokens.

A scanner stands behind the token that it read last: what is set aside has the range of that token,
and everything else begins where the scanner stands or later. Words that are neither comments nor
numbers in another notation are spelled as they stand in the text.
-/

namespace TriggerScript

open List Placed

/-- What is left of a text stands behind the characters that were read. -/
theorem Placed.of_list_of_suffix (suffix : rest <:+ ofText source) :
    ∃ before, source.toList = before ++ chars rest ∧ rest = ofList (total Char.utf8Size before)
    (chars rest) := by
  obtain ⟨front, whole⟩ := suffix
  have parts : source.toList = chars front ++ chars rest := by
    rw [← chars_ofList 0 source.toList, chars, chars, chars, ← map_append, whole]
    rfl
  refine ⟨chars front, parts, ?_⟩
  rw [ofText, parts, of_list_append, Nat.zero_add] at whole
  refine (append_inj whole ?_).2
  exact (length_map char).symm.trans ((congrArg List.length (chars_ofList ..).symm).trans
    (length_map char))

theorem Placed.place_of_suffix (suffix : rest <:+ ofText source) :
    ∃ before, source.toList = before ++ chars rest ∧
      offsetOr source.utf8ByteSize rest = total Char.utf8Size before := by
  obtain ⟨before, parts, same⟩ := of_list_of_suffix suffix
  refine ⟨before, parts, ?_⟩
  cases rest with
  | nil => rw [utf8_size_eq, parts]; exact congrArg _ (append_nil _)
  | cons first rest => exact congrArg Placed.offset (List.cons.inj same).1

namespace Token

/-- An identifier, a keyword, a separator, an operator, a decimal integer or a coordgrid of a
script. -/
def Verbatim (token : Token) : Prop :=
  token.kind = .identifier ∨ token.kind = .coordgrid ∨
    token.kind = .integer ∧ ¬['0', 'x'] <+: token.text.toList ∨
    token.kind ∈ Vocabulary.scripts.keywords.map Prod.snd ++ Vocabulary.scripts.separators.map
      Prod.snd ++
      Vocabulary.scripts.operators.map Prod.snd

/-- The token is found in the text, at the bytes of its range. -/
def FoundIn (token : Token) (source : String) (base : Nat) : Prop :=
  ∃ before after, source = before ++ token.text ++ after ∧
    token.span = (Span.mk before.utf8ByteSize (before ++ token.text).utf8ByteSize).shift base

theorem Verbatim.kind_other {token : Token} (verbatim : token.Verbatim) :
    token.kind ∉ [TokenKind.string, .concatBegin, .concatEnd, .comment, .long, .error, .eof] ∧
      (token.kind = .integer → ¬['0', 'x'] <+: token.text.toList) := by
  have others :
    ∀ kind ∈ [TokenKind.string, .concatBegin, .concatEnd, .comment, .long, .error, .eof, .integer],
      kind ∉ Vocabulary.scripts.keywords.map Prod.snd ++ Vocabulary.scripts.separators.map
        Prod.snd ++
        Vocabulary.scripts.operators.map Prod.snd := by decide
  rcases verbatim with same | same | ⟨same, decimal⟩ | known
  · simp [same]
  · simp [same]
  · exact ⟨by simp [same], fun _ => decimal⟩
  · refine ⟨fun other => others _ ?_ known, fun same => absurd known (others _ (by simp [same]))⟩
    exact mem_append_left [.integer] other

end Token

namespace Scanner

variable {scanner : Scanner}

/-- The offset at which the text goes on. -/
def place (scanner : Scanner) : Nat := offsetOr scanner.stop scanner.rest + scanner.base

theorem place_le (ordered : scanner.Ordered) : scanner.place ≤ scanner.stop + scanner.base :=
  Nat.add_le_add_right (Ordered.offset_or_le ordered) _

/-- Where a token stands that a scanner reads, and what the scanner has ahead then. -/
structure Stands (scanner : Scanner) (token : Token) (after : Scanner) : Prop where
  forward : token.span.start ≤ token.span.stop
  stops : token.span.stop = after.place
  starts : (scanner.pending = none ∧ scanner.place ≤ token.span.start) ∨
    ∃ pending, scanner.pending = some pending ∧ token.span = pending.token.span
  aside : ∀ pending, after.pending = some pending → pending.token.span = token.span
  rest : after.rest <:+ scanner.rest
  stop : after.stop = scanner.stop
  base : after.base = scanner.base

/-- What is set aside has a range that ends where the text goes on. -/
def Sited (scanner : Scanner) : Prop := ∀ pending, scanner.pending = some pending →
  pending.token.span.start ≤ pending.token.span.stop ∧ pending.token.span.stop = scanner.place

theorem stands_next (ordered : scanner.Ordered) (sited : scanner.Sited) :
    scanner.Stands scanner.next.1 scanner.next.2 := by
  have scans : scanner.Stands scanner.scan.1 scanner.scan.2 := by
    unfold scan
    split
    · rename_i pending set_aside
      obtain ⟨forward, stops⟩ := sited pending set_aside
      exact ⟨forward, stops, .inr ⟨pending, set_aside, rfl⟩, nofun, suffix_rfl, rfl, rfl⟩
    · rename_i kept
      have blanks : scanner.rest.dropWhile (fun placed => isBlank placed.char) <:+ scanner.rest :=
        dropWhile_suffix _
      split
      · unfold finish
        simp only
        split <;> exact ⟨le_rfl, rfl, .inl ⟨kept, place_le ordered⟩,
          fun _ some => (by cases some.symm.trans kept),
          nil_suffix, rfl, rfl⟩
      · rename_i first rest ahead
        rw [ahead] at blanks
        have inside := Ordered.of_sublist ordered blanks.sublist
        have skipped : scanner.place ≤ first.offset + scanner.base :=
          Nat.add_le_add_right (Ordered.offset_or_mono ordered blanks) _
        have reading := reading_dispatch kept first rest
        have behind := (inside.of_sublist (sublist_cons_self ..)).offset_or_mono reading.suffix
        have moves := inside.offset_lt
        obtain ⟨start, span, begins⟩ := reading.span
        have begins : first.offset ≤ start ∧ start ≤ offsetOr scanner.stop rest := by omega
        refine ⟨?_, ?_, .inl ⟨kept, ?_⟩, fun pending some => (reading.pending pending some).1,
          reading.suffix.trans ((suffix_cons ..).trans blanks), reading.stop, reading.base⟩
        · rw [span]
          simp only [spanTo, Span.shift]
          omega
        · rw [span, place, reading.stop, reading.base]
          rfl
        · rw [span]
          exact Nat.le_trans skipped (Nat.add_le_add_right begins.1 _)
  unfold next
  simp only
  split <;> exact ⟨scans.forward, scans.stops, scans.starts, scans.aside, scans.rest, scans.stop,
    scans.base⟩

theorem Stands.sited {token : Token} {after : Scanner} (stands : scanner.Stands token after) :
    after.Sited := by
  intro pending set_aside
  rw [stands.aside pending set_aside]
  exact ⟨stands.forward, stands.stops⟩

/-! ### Words as they are spelled -/

variable {vocabulary : Vocabulary} {nested signed : Bool} {char : Char} {behind lexeme : List Char}
  {kind : TokenKind}
  {count : Nat} {fault : Option LexicalFault}

theorem number_form_verbatim (found : numberForm char behind = .word kind lexeme count fault) :
    kind = .long ∨ kind = .integer ∧ ['0', 'x'] <+: lexeme ∨
      lexeme = char :: behind.take count := by
  have digits := prefix_iff_eq_take.mp <| takeWhile_prefix Char.isDigit (l := behind)
  unfold numberForm at found
  dsimp only at found
  split at found
  · cases found
    exact .inr (.inr (congrArg _ digits))
  split at found
  · unfold hexadecimalForm at found
    dsimp only at found
    split at found
    · cases found
      exact .inl rfl
    · cases found
      exact .inr (.inl ⟨rfl, _, rfl⟩)
  split at found
  · rename_i ahead _ line
    subst line
    cases found
    refine .inr (.inr (congrArg (char :: ·) ?_))
    obtain ⟨more, whole⟩ := takeWhile_prefix Char.isDigit (l := behind)
    generalize behind.takeWhile Char.isDigit = digits at whole ahead ⊢
    subst whole
    rw [drop_left] at ahead
    obtain ⟨later, rfl⟩ := head?_eq_some_iff.mp ahead
    have parts := prefix_iff_eq_take.mp <|
      takeWhile_prefix (fun char => char.isDigit || decide (char = '_')) (l := later)
    rw [Nat.add_assoc, Nat.add_comm 1, take_length_add_append, take_succ_cons]
    simp [← parts]
  split at found
  · cases found
    exact .inl rfl
  · cases found
    exact .inr (.inr (congrArg _ digits))

/-- Words that are neither comments nor numbers in another notation are the characters that they are
read from. -/
theorem form_verbatim
    (found : formOf vocabulary nested signed char behind = .word kind lexeme count fault) :
    kind = .comment ∨ kind = .long ∨ kind = .integer ∧ ['0', 'x'] <+: lexeme ∨
      lexeme = char :: behind.take count := by
  unfold formOf at found
  dsimp only at found
  split at found
  · cases found
    exact .inr (.inr (.inr (congrArg _ (prefix_iff_eq_take.mp <| takeWhile_prefix _))))
  split at found
  · cases found
  split at found
  · exact .inr (number_form_verbatim found)
  split at found
  · cases found
    exact .inl rfl
  split at found
  · cases found
    exact .inl rfl
  split at found
  · cases found
    exact .inr (.inr (.inr rfl))
  split at found
  · cases found
  split at found
  · unfold operatorForm at found
    dsimp only at found
    split at found
    · rename_i known
      cases found
      have first := take_prefix (vocabulary.operatorLength - 1) <|
        behind.takeWhile fun char => decide (char ≠ '\n')
      have line := first.trans <| takeWhile_prefix _
      have short := (longest_operator_mem known).2
      refine .inr (.inr (.inr (congrArg _ ?_)))
      rw [prefix_iff_eq_take.mp line, take_take, Nat.min_eq_left short]
    · cases found
  · cases found

theorem found_of_word {source : String} {first : Placed} {rest : List Placed}
    (stop : scanner.stop = source.utf8ByteSize) (suffix : first :: rest <:+ Placed.ofText source)
    (verbatim : lexeme = first.char :: (chars rest).take count) :
    Token.FoundIn ⟨kind, scanner.spanTo first.offset (rest.drop count), some (String.ofList lexeme)⟩
      source
      scanner.base := by
  obtain ⟨before, whole, starts⟩ := place_of_suffix suffix
  obtain ⟨front, parts, stops⟩ :=
    place_of_suffix (((drop_suffix count rest).trans (suffix_cons ..)).trans suffix)
  rw [← drop_chars] at parts
  have longer : front = before ++ lexeme := by
    refine append_cancel_right (?_ : front ++ (chars rest).drop count = _)
    rw [← parts, whole, verbatim]
    simp [chars]
  refine ⟨String.ofList before, String.ofList ((chars rest).drop count), ?_, ?_⟩
  · rw [← String.toList_inj]
    simp [Token.text, parts, longer]
  · rw [longer] at stops
    rw [spanTo, stop, stops, Token.text, Option.getD_some, ← String.ofList_append,
      utf8_size_of_list, utf8_size_of_list]
    exact congrArg (fun start => (Span.mk start _).shift _) starts

theorem found_next {source : String} (stop : scanner.stop = source.utf8ByteSize)
    (suffix : scanner.rest <:+ Placed.ofText source) (verbatim : scanner.next.1.Verbatim) :
    scanner.next.1.FoundIn source scanner.base := by
  have scanned : scanner.scan.1.Verbatim → scanner.scan.1.FoundIn source scanner.base := by
    unfold scan
    split
    · rename_i pending _
      intro verbatim
      cases pending <;> exact absurd verbatim.kind_other.1 (by simp [Pending.token])
    · split
      · exact fun verbatim => absurd verbatim.kind_other.1 (by simp [finish])
      · rename_i first rest ahead
        have blanks : scanner.rest.dropWhile (fun placed => isBlank placed.char) <:+ scanner.rest :=
          dropWhile_suffix _
        rw [ahead] at blanks
        rw [dispatch_eq]
        cases found : scanner.form first rest with
        | word kind lexeme count fault =>
          intro verbatim
          obtain ⟨other, decimal⟩ := verbatim.kind_other
          rcases form_verbatim found with rfl | rfl | ⟨rfl, hexadecimal⟩ | spelled
          · simp [Form.read, accept] at other
          · simp [Form.read, accept] at other
          · exact absurd
              (by rwa [Token.text, Form.read, accept, Option.getD_some, String.toList_ofList])
              (decimal rfl)
          · have read := @found_of_word scanner lexeme kind count source first rest stop
              (blanks.trans suffix) spelled
            cases fault <;> exact read
        | unknown =>
          exact fun verbatim => absurd verbatim.kind_other.1 (by simp [Form.read, reject])
        | piece interpolated =>
          intro verbatim
          have other := verbatim.kind_other.1
          have piece : [TokenKind.string, .concatBegin, .concatEnd] ⊆
              [TokenKind.string, .concatBegin, .concatEnd, .comment, .long, .error, .eof] := by
                decide
          cases interpolated <;> exact absurd (piece (kind_string ..)) other
  exact scanned verbatim

theorem head_tokens (scanner : Scanner) : scanner.tokens.1.head? = some scanner.next.1 := by
  induction scanner using tokens_induction <;> rfl

/-- What is true of the tokens of a text: they lie in it, one behind the other, and words are found
in it. -/
structure Spread (source : String) (base : Nat) (tokens : List Token) : Prop where
  inside : ∀ token ∈ tokens, token.span.start ≤ token.span.stop ∧
    token.span.stop ≤ source.utf8ByteSize + base
  rising : tokens.IsChain fun token next => token.span = next.span ∨
    token.span.stop ≤ next.span.start
  found : '\r' ∉ source.toList → ∀ token ∈ tokens, token.Verbatim → token.FoundIn source base

theorem spread_tokens {source : String} (stop : scanner.stop = source.utf8ByteSize)
    (ordered : scanner.Ordered) (sited : scanner.Sited)
    (suffix : '\r' ∉ source.toList → scanner.rest <:+ Placed.ofText source) :
    Spread source scanner.base scanner.tokens.1 := by
  have inside : ∀ {scanner : Scanner}, scanner.stop = source.utf8ByteSize → scanner.Ordered →
    scanner.Sited →
      scanner.next.1.span.start ≤ scanner.next.1.span.stop ∧
        scanner.next.1.span.stop ≤ source.utf8ByteSize + scanner.base := by
    intro scanner stop ordered sited
    have stands := stands_next ordered sited
    have bound := place_le (weight_next ordered).1
    rw [stands.stop, stands.base, stop, ← stands.stops] at bound
    exact ⟨stands.forward, bound⟩
  induction scanner using tokens_induction with
  | ends scanner finished =>
    exact ⟨forall_mem_singleton.mpr (inside stop ordered sited), .singleton _,
      fun plain => forall_mem_singleton.mpr (found_next stop (suffix plain))⟩
  | goes_on scanner others unfinished later ih =>
    have stands := stands_next ordered sited
    have ordered_behind := (weight_next ordered).1
    have rest := ih (stands.stop.trans stop) ordered_behind stands.sited fun plain =>
      stands.rest.trans (suffix plain)
    rw [stands.base] at rest
    refine ⟨forall_mem_cons.mpr ⟨inside stop ordered sited, rest.inside⟩,
      isChain_cons.mpr ⟨?_, rest.rising⟩, fun plain =>
        forall_mem_cons.mpr ⟨found_next stop (suffix plain), rest.found plain⟩⟩
    rw [← later, head_tokens]
    rintro _ ⟨⟩
    rcases (stands_next ordered_behind stands.sited).starts with ⟨-, starts⟩ | ⟨pending,
      set_aside, same⟩
    · exact .inr (stands.stops ▸ starts)
    · exact .inl ((stands.aside pending set_aside).symm.trans same.symm)

/-- A text without carriage returns is read as it stands. -/
theorem rest_of_unreturned {source : String} (unreturned : '\r' ∉ source.toList)
    (vocabulary : Vocabulary) (base : Nat) :
    (ofText vocabulary source base).rest = Placed.ofText source := by
  refine filter_eq_self.mpr fun placed member => decide_eq_true ?_
  rintro same
  have read : placed.char ∈ chars (Placed.ofText source) := mem_map_of_mem member
  rw [Placed.ofText, chars_ofList, same] at read
  exact unreturned read

/-- **Ranges in order**: the range of a token lies in the text, the tokens follow one another unless
they are read from the same place, and words of a text without carriage returns are what the text
has at their range. -/
theorem spans_in_order (vocabulary : Vocabulary) (source : String) (base limit : Nat) :
    let read := (tokens { ofText vocabulary source base with limit }).1
    (∀ token ∈ read, token.span.start ≤ token.span.stop ∧
      token.span.stop ≤ source.utf8ByteSize + base) ∧
      (read.IsChain fun token next => token.span = next.span ∨ token.span.stop ≤ next.span.start) ∧
      ('\r' ∉ source.toList → ∀ token ∈ read, token.Verbatim → token.FoundIn source base) := by
  have ordered : ({ ofText vocabulary source base with limit } : Scanner).Ordered :=
    (ordered_of_text source).of_sublist filter_sublist
  have spread :=
    @spread_tokens { ofText vocabulary source base with limit } source rfl ordered nofun ?_
  · exact ⟨spread.inside, spread.rising, spread.found⟩
  · intro plain
    exact rest_of_unreturned plain vocabulary base ▸ suffix_rfl

end Scanner

end TriggerScript
