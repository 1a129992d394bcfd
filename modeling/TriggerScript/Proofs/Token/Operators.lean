import TriggerScript.Proofs.Token.Form

/-!
Operators.

Where an operator stands, the longest one is read that begins the rest of the line. The search
starts with as many characters as the longest operator has and gives them back one by one.
-/

namespace TriggerScript

open List Placed

variable {vocabulary : Vocabulary} {content text other : List Char}

/-- An operator that begins a text and ends on its first line. An operator without characters begins
nothing. -/
def Vocabulary.Begins (vocabulary : Vocabulary) (content text : List Char) : Prop :=
  text ≠ [] ∧ text <+: content ∧ '\n' ∉ text ∧ (vocabulary.operator? (String.ofList text)).isSome

theorem Vocabulary.length_le_operator_length {text : String}
    (known : (vocabulary.operator? text).isSome) : text.length ≤ vocabulary.operatorLength := by
  have grows : ∀ (entries : List (String × TokenKind)) (start : Nat),
      start ≤ entries.foldl (fun longest entry => max longest entry.1.length) start ∧
        ∀ entry ∈ entries, entry.1.length ≤ entries.foldl
          (fun longest entry => max longest entry.1.length) start := by
    intro entries
    induction entries with
    | nil => simp
    | cons entry rest ih =>
      intro start
      obtain ⟨start_le, later⟩ := ih (max start entry.1.length)
      exact ⟨le_of_max_le_left start_le, forall_mem_cons.mpr ⟨le_of_max_le_right start_le, later⟩⟩
  obtain ⟨kind, found⟩ := Option.isSome_iff_exists.mp known
  obtain ⟨before, after, split, -⟩ := lookup_eq_some_iff.mp found
  exact (grows vocabulary.operators 0).2 (text, kind) (split ▸ mem_append_right _ mem_cons_self)

namespace Scanner

/-- The scanner stands outside of strings and comments, and `first` begins an operator. -/
structure AtOperator (scanner : Scanner) (first : Placed) (rest : List Placed) : Prop where
  kept : scanner.pending = none
  ahead : (scanner.rest.dropWhile fun placed => isBlank placed.char) = first :: rest
  nameless : isNameStart first.char = false
  unquoted : first.char ≠ '"'
  undigited : first.char.isDigit = false
  unsigned : ((first.char = '-' || first.char = '+') && (chars rest).head?.any Char.isDigit &&
    signStartsNumber scanner.last) = false
  uncommented : first.char = '/' → (chars rest).head? ≠ some '/' ∧ (chars rest).head? ≠ some '*'
  unseparated : scanner.vocabulary.separator? first.char = none
  inside : first.char = '>' → scanner.depth = 0
  starts : scanner.vocabulary.startsOperator first.char = true

variable {scanner : Scanner} {first : Placed} {rest : List Placed}

theorem AtOperator.scan_eq (stands : scanner.AtOperator first rest) :
    scanner.scan = scanner.operator first.offset first.char rest := by
  obtain ⟨kept, ahead, nameless, unquoted, undigited, unsigned, uncommented, unseparated, inside,
    starts⟩ := stands
  have uncommented' : ∀ mark, mark = '/' ∨ mark = '*' →
    ¬ (first.char = '/' ∧ (chars rest).head? = some mark) := by
    rintro mark (rfl | rfl) ⟨slash, next⟩
    · exact (uncommented slash).1 next
    · exact (uncommented slash).2 next
  have outside : ¬ (scanner.depth ≠ 0 ∧ first.char = '>') :=
    fun ⟨nested, mark⟩ => nested (inside mark)
  simp only [scan, kept, ahead, dispatch, head_chars, nameless, unquoted, undigited, unsigned,
    unseparated, starts, Bool.and_eq_true, decide_eq_true_eq, uncommented' '/' (.inl rfl),
    uncommented' '*' (.inr rfl), outside, Bool.or_self, Bool.false_eq_true, if_false, if_true]

/-- What the search finds among the characters of a line, from `count` on downwards. -/
theorem longest_operator_eq (vocabulary : Vocabulary) (first : Char) (line : List Char)
    (count : Nat) :
    match longestOperator vocabulary first line count with
    | some (kind, taken) => taken ≤ count ∧
        vocabulary.operator? (String.ofList (first :: line.take taken)) = some kind ∧
        ∀ more ≤ count, vocabulary.operator? (String.ofList (first :: line.take more)) ≠ none →
        more ≤ taken
    | none =>
      ∀ more ≤ count, vocabulary.operator? (String.ofList (first :: line.take more)) = none := by
  induction count with
  | zero =>
    rw [longestOperator]
    cases known : vocabulary.operator? (String.ofList [first]) with
    | none => exact fun more none_taken => by rwa [Nat.le_zero.mp none_taken]
    | some kind => exact ⟨le_rfl, known, fun more none_taken _ => none_taken⟩
  | succ count ih =>
    rw [longestOperator]
    cases known : vocabulary.operator? (String.ofList (first :: line.take (count + 1))) with
    | some kind => exact ⟨le_rfl, known, fun more taken _ => taken⟩
    | none =>
      simp only
      split at ih
      · obtain ⟨taken_le, spelled, longest⟩ := ih
        refine ⟨Nat.le_succ_of_le taken_le, spelled, fun more few found => ?_⟩
        rcases Nat.le_succ_iff.mp few with fewer | rfl
        · exact longest more fewer found
        · exact absurd known found
      · intro more few
        rcases Nat.le_succ_iff.mp few with fewer | rfl
        · exact ih more fewer
        · exact known

/-- The operators that begin a text are among those that the search looks at. -/
theorem begins_iff {first : Char} {behind : List Char} :
    let line := (behind.takeWhile fun char => char ≠ '\n').take (vocabulary.operatorLength - 1)
    first ≠ '\n' → (vocabulary.Begins (first :: behind) text ↔
      ∃ count ≤ line.length, text = first :: line.take count ∧
      (vocabulary.operator? (String.ofList text)).isSome) := by
  intro line other
  constructor
  · rintro ⟨some_text, begins, one_line, known⟩
    obtain ⟨char, more, rfl⟩ := exists_cons_of_ne_nil some_text
    obtain ⟨rfl, later, rfl⟩ := cons_prefix_cons.mp begins
    have short := Vocabulary.length_le_operator_length known
    rw [String.length_ofList, length_cons] at short
    have inside : ∀ char ∈ more, decide (char ≠ '\n') = true := fun char member =>
      decide_eq_true fun feed => one_line (feed ▸ mem_cons_of_mem _ member)
    have same : line.take more.length = more := by
      rw [take_take, Nat.min_eq_left (by omega), takeWhile_append_of_pos inside, take_left]
    exact ⟨more.length, by rw [← same, length_take]; omega, by rw [same], known⟩
  · rintro ⟨count, few, rfl, known⟩
    have begins : line.take count <+: behind.takeWhile fun char => decide (char ≠ '\n') := by
      rw [take_take]
      exact take_prefix _ _
    refine ⟨cons_ne_nil _ _, cons_prefix_cons.mpr ⟨rfl, ?_⟩, ?_, known⟩
    · exact begins.trans <| takeWhile_prefix _
    intro member
    rcases mem_cons.mp member with same | inside
    · exact other same.symm
    · simpa using mem_takeWhile_imp (begins.subset inside)

/-- Where an operator stands, the longest one that begins the rest of the line is read, with the
kind that was registered for it last, and nothing more. If there is none, the first character alone
is read and reported. -/
theorem scan_longest_operator (stands : scanner.AtOperator first rest) :
    (∃ text kind, scanner.vocabulary.Begins (chars (first :: rest)) text ∧
      (∀ other, scanner.vocabulary.Begins (chars (first :: rest)) other →
        other.length ≤ text.length) ∧
      scanner.vocabulary.operator? (String.ofList text) = some kind ∧
      scanner.scan = (⟨kind, scanner.spanTo first.offset ((first :: rest).drop text.length),
        some (String.ofList text)⟩,
        { scanner with rest := (first :: rest).drop text.length })) ∨
    ((∀ text, ¬ scanner.vocabulary.Begins (chars (first :: rest)) text) ∧
      scanner.scan = (⟨.error, scanner.spanTo first.offset rest, none⟩, { scanner with
        rest, faults :=
  scanner.faults ++ [⟨.lexical (.unexpectedCharacter first.char), scanner.spanTo first.offset rest⟩]
    })) := by
  have visible : isBlank first.char = false := by
    have shown := head?_dropWhile_not (fun placed : Placed => isBlank placed.char) scanner.rest
    rw [stands.ahead] at shown
    simpa using shown
  have other : first.char ≠ '\n' := fun feed => absurd (feed ▸ visible) (by decide)
  rw [stands.scan_eq, operator_eq_form, operatorForm]
  have found := longest_operator_eq scanner.vocabulary first.char
    (((chars rest).takeWhile fun char => char ≠ '\n').take (scanner.vocabulary.operatorLength - 1))
    (((chars rest).takeWhile fun char => char ≠ '\n').take
      (scanner.vocabulary.operatorLength - 1)).length
  generalize line_eq : ((chars rest).takeWhile fun char => char ≠ '\n').take
    (scanner.vocabulary.operatorLength - 1) = line at found ⊢
  have begins : ∀ text, scanner.vocabulary.Begins (chars (first :: rest)) text ↔
    ∃ count ≤ line.length,
      text = first.char :: line.take count ∧
      (scanner.vocabulary.operator? (String.ofList text)).isSome := by
    intro text
    rw [← line_eq]
    exact begins_iff other
  cases search : longestOperator scanner.vocabulary first.char line line.length with
  | some result =>
    obtain ⟨kind, taken⟩ := result
    rw [search] at found
    obtain ⟨few, spelled, longest⟩ := found
    have size : (first.char :: line.take taken).length = taken + 1 := by
      rw [length_cons, length_take, Nat.min_eq_left few]
    refine .inl ⟨_, kind, (begins _).mpr ⟨taken, few, rfl, spelled ▸ rfl⟩, fun text starts => ?_,
      spelled, ?_⟩
    · obtain ⟨count, count_le, rfl, known⟩ := (begins text).mp starts
      rw [size, length_cons, length_take, Nat.min_eq_left count_le]
      exact Nat.succ_le_succ (longest count count_le (Option.isSome_iff_ne_none.mp known))
    · rw [size]
      rfl
  | none =>
    rw [search] at found
    refine .inr ⟨fun text starts => ?_, rfl⟩
    obtain ⟨count, count_le, rfl, known⟩ := (begins text).mp starts
    rw [found count count_le] at known
    cases known

/-- Of the operators `;`, `;=` and `;===` the second one is read from `;==`. -/
theorem second_operator_read :
    let vocabulary := ((Vocabulary.empty.addOperator ";" .plus).addOperator ";===" .mul).addOperator
      ";=" .minus
    let scanner := ofText vocabulary ";==" 0
    scanner.AtOperator ⟨0, ';'⟩ [⟨1, '='⟩, ⟨2, '='⟩] ∧ scanner.scan.1.text = ";=" ∧
      ∀ other, vocabulary.Begins [';', '=', '='] other → other.length ≤ 2 := by
  intro vocabulary scanner
  have stands : scanner.AtOperator ⟨0, ';'⟩ [⟨1, '='⟩, ⟨2, '='⟩] := by constructor <;> decide
  have read : scanner.scan.1.lexeme = some ";=" := by decide
  refine ⟨stands, congrArg (·.getD "") read, fun other begins => ?_⟩
  obtain ⟨text, kind, -, longest, -, scanned⟩ | ⟨none_begins, -⟩ := scan_longest_operator stands
  · rw [scanned] at read
    have size : text.length = 2 := by rw [← String.length_ofList, Option.some.inj read]; rfl
    exact size ▸ longest other begins
  · exact absurd begins (none_begins other)

/-- An operator without characters is no operator that could be read: what it begins is reported. -/
theorem empty_operator_unread :
    let vocabulary := (Vocabulary.empty.addOperator "" .eof).addOperator ";;" .minus
    let scanner := ofText vocabulary ";" 0
    scanner.AtOperator ⟨0, ';'⟩ [] ∧ vocabulary.operator? "" = some .eof ∧ "".toList <+: [';'] ∧
      scanner.scan.1 = ⟨.error, ⟨0, 1⟩, none⟩ := by
  intro vocabulary scanner
  exact ⟨by constructor <;> decide, by decide, by decide, by decide⟩

end Scanner

end TriggerScript
