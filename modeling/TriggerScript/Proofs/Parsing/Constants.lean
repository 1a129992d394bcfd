import TriggerScript.Proofs.Parsing.Consumption
import TriggerScript.Proofs.Parsing.Neighbours

/-!
Constants written one behind the other.

What a reader of constants finds depends on the kinds and texts of the tokens ahead. A passage
begins with a caret and holds no other one. Whatever is at fault in it, the reader comes to the
caret behind it and finds what it finds in the passage alone. The exception is a passage that breaks
off before the value of its constant: the next caret is then where the rest of the declaration
should be, and the reader steps over it or takes it for the value.
-/

namespace TriggerScript

open List Parse Cursor Scanner

/-- What a token says, wherever it stands. -/
def Token.word (token : Token) : TokenKind × String := (token.kind, token.text)

variable {cursor : Cursor} {word : TokenKind × String} {words body rest : List (TokenKind × String)}
  {bound : Nat}

namespace Cursor

/-- The words ahead of a reader, up to the end. -/
def Faces (cursor : Cursor) (words : List (TokenKind × String)) : Prop :=
  ∃ ahead, cursor.Sees ahead ∧ ahead.map Token.word = words

theorem Faces.fill (faces : cursor.Faces words) (count : Nat) :
    (cursor.fill count).Faces words := by
  obtain ⟨ahead, sees, same⟩ := faces
  exact ⟨ahead, sees.fill count, same⟩

theorem Faces.finished (faces : cursor.Faces []) : cursor.head.kind = .eof := by
  obtain ⟨ahead, sees, none⟩ := faces
  rw [map_eq_nil_iff.mp none] at sees
  exact InSight.finished sees

theorem Faces.cons (faces : cursor.Faces (word :: rest)) :
    cursor.head.word = word ∧ cursor.head.kind ≠ .eof ∧ (cursor.fill 0).taken.Faces rest := by
  obtain ⟨ahead, sees, same⟩ := faces
  obtain ⟨first, ahead, rfl, rfl, rfl⟩ := map_eq_cons_iff.mp same
  refine ⟨congrArg Token.word sees.head, sees.head ▸ sees.unfinished first mem_cons_self, ?_⟩
  exact ⟨ahead, (sees.fill 0).taken, rfl⟩

theorem Faces.kind (faces : cursor.Faces (word :: rest)) : cursor.head.kind = word.1 :=
  congrArg Prod.fst faces.cons.1

theorem Faces.unfinished (faces : cursor.Faces (word :: rest)) : cursor.head.kind ≠ .eof :=
  faces.cons.2.1

theorem Faces.taken (faces : cursor.Faces (word :: rest)) : (cursor.fill 0).taken.Faces rest :=
  faces.cons.2.2

theorem Faces.kind_ne (faces : cursor.Faces words) {kind : TokenKind}
    (apart : ∀ word ∈ words.head?, word.1 ≠ kind) (other : kind ≠ .eof) :
    cursor.head.kind ≠ kind := by
  cases words with
  | nil => exact fun same => other (same.symm.trans faces.finished)
  | cons word rest => exact faces.kind ▸ apart word rfl

end Cursor

/-! ### Recovery -/

/-- The words behind a passage: there are none, or the next one is a caret. -/
def Bordered (rest : List (TokenKind × String)) : Prop := ∀ word ∈ rest.head?, word.1 = .caret

def Unmarked (body : List (TokenKind × String)) : Prop := ∀ word ∈ body, word.1 ≠ .caret

theorem Unmarked.of_suffix {left : List (TokenKind × String)} (unmarked : Unmarked body)
    (suffix : left <:+ body) : Unmarked left :=
  fun word member => unmarked word (suffix.mem member)

theorem skip_until_succ (kinds : List TokenKind) : skipUntil kinds (bound + 1) cursor =
    if cursor.head.kind = .eof || kinds.contains cursor.head.kind then (.found (), cursor.fill 0)
    else skipUntil kinds bound { cursor.fill 0 with stream := (cursor.fill 0).stream.take.2 } := by
  refine (kind_ahead_bind 0 _).trans ?_
  rw [← Cursor.head]
  split <;> rfl

theorem skip_until_faces (faces : cursor.Faces (body ++ rest)) (unmarked : Unmarked body)
    (bordered : Bordered rest) (enough : body.length < bound) :
    ∃ behind, skipUntil [.caret] bound cursor = (.found (), behind) ∧ behind.Faces rest := by
  induction body generalizing cursor bound with
  | nil =>
    obtain ⟨bound, rfl⟩ := Nat.exists_eq_add_one_of_ne_zero (Nat.ne_zero_of_lt enough)
    have stops : cursor.head.kind = .eof ∨ cursor.head.kind = .caret := by
      cases rest with
      | nil => exact .inl faces.finished
      | cons word rest => exact .inr (faces.kind.trans (bordered word rfl))
    exact ⟨cursor.fill 0, (skip_until_succ _).trans (if_pos (by simpa using stops)), faces.fill 0⟩
  | cons word body ih =>
    obtain ⟨bound, rfl⟩ := Nat.exists_eq_add_one_of_ne_zero (Nat.ne_zero_of_lt enough)
    obtain ⟨plain, later⟩ := forall_mem_cons.mp unmarked
    rw [skip_until_succ, if_neg (by simp [faces.unfinished, faces.kind ▸ plain])]
    exact @ih { cursor.fill 0 with stream := _ } _ faces.taken later (Nat.lt_of_succ_lt_succ enough)

/-- Where a declaration is rejected and no caret is next, the reader goes on behind the passage. -/
theorem recover_faces (faces : cursor.Faces (body ++ rest)) (unmarked : Unmarked body)
    (bordered : Bordered rest) (inside : body = [] → rest = []) (enough : body.length < bound) :
    ∃ behind, Constant.recover bound cursor = (.found (), behind) ∧ behind.Faces rest := by
  have plain : cursor.head.kind ≠ .caret := by
    refine faces.kind_ne (fun word next => ?_) nofun
    cases body with
    | nil => simp [inside rfl] at next
    | cons first body => exact unmarked word (by simp_all)
  rw [Constant.recover, accept_apply, if_neg plain]
  exact skip_until_faces (faces.fill 0) unmarked bordered enough

/-! ### One passage -/

/-- The value that a word denotes. -/
def ValueForm.ofWord : TokenKind × String → ValueForm
  | (.string, spelling) => .text spelling
  | (.integer, spelling) => (int32? spelling.toList).elim .error .int
  | (.long, spelling) => (int64? spelling.toList).elim .error .long
  | (.bool, spelling) => .bool (spelling = "yes" || spelling = "true")
  | (.type, spelling) => (Prim.ofSource? spelling).elim .error .type
  | (.coordgrid, spelling) => (Coordinate.ofLiteral spelling).toOption.elim .error .coordgrid
  | (.identifier, spelling) => .reference ⟨spelling, Span.empty⟩
  | _ => .error

def Constant.unplaced (constant : Constant) : Constant :=
  ⟨constant.name.unplaced, constant.value.unplaced, Span.empty⟩

/-- What is declared by the words of a passage behind its caret. -/
def Constant.ofWords : List (TokenKind × String) → List Constant
  | name :: equals :: rest =>
    if Config.isNameToken name.1 && equals.1 = .equals then
      [⟨⟨name.2, Span.empty⟩, ⟨rest.head?.elim .error ValueForm.ofWord, Span.empty⟩, Span.empty⟩]
    else []
  | _ => []

/-- At most the next token was taken. -/
def Cursor.Steps (cursor behind : Cursor) : Prop :=
  behind.stream.active.sight = cursor.stream.active.sight ∨ cursor.head.kind ≠ .eof ∧
    behind.stream.active.sight = fun index => cursor.stream.active.sight (index + 1)

namespace ConfigValue

theorem parse_missing_at (cursor : Cursor) :
    ∃ behind, parseMissing cursor = (.found .error, behind) ∧ cursor.Steps behind := by
  have start : parseMissing cursor = _ := kind_ahead_bind 0 _
  rw [start, ← Cursor.head]
  cases kind : cursor.head.kind with
  | leftBracket | eof => exact ⟨_, rfl, .inl (by simp [Cursor.fill])⟩
  | _ =>
    have unfinished : cursor.head.kind ≠ .eof := by simp [kind]
    exact ⟨_, rfl, .inr ⟨unfinished, sight_taken unfinished 0⟩⟩

theorem take_or_report {α : Type} {value : Token → Except GrammarFault α} {build : α → ValueForm}
    (unfinished : cursor.head.kind ≠ .eof) (plain : ∀ value, (build value).unplaced = build value) :
    ∃ form behind,
      (Parse.take >>= fun token => orReport (value token) build .error token.span) (cursor.fill 0) =
        (.found form, behind) ∧
      form.unplaced = (value cursor.head).toOption.elim .error build ∧ cursor.Steps behind := by
  have steps := sight_taken unfinished 0
  rw [bind_apply, take_apply, head_fill]
  simp only [orReport]
  cases value cursor.head with
  | ok found => exact ⟨_, _, rfl, plain found, .inr ⟨unfinished, steps⟩⟩
  | error fault => exact ⟨.error, _, rfl, rfl, .inr ⟨unfinished, steps⟩⟩

theorem to_option_or_out_of_range {α : Type} (token : Token) (sort : LiteralType)
    (value : Option α) : (token.orOutOfRange sort value).toOption = value := by
  cases value <;> rfl

theorem parse_form_at (plain : cursor.head.kind ≠ .caret) :
    ∃ form behind, parseForm cursor = (.found form, behind) ∧
      form.unplaced = .ofWord cursor.head.word ∧ cursor.Steps behind := by
  have start : parseForm cursor = _ := kind_ahead_bind 0 _
  rw [start, ← Cursor.head, Token.word]
  cases kind : cursor.head.kind with
  | caret => exact absurd kind plain
  | string | bool | identifier | error =>
    have unfinished : cursor.head.kind ≠ .eof := by simp [kind]
    simp only [bind_apply, take_apply, head_fill]
    exact ⟨_, _, rfl, rfl, .inr ⟨unfinished, sight_taken unfinished 0⟩⟩
  | integer =>
    simpa only [ValueForm.ofWord, Token.int32, to_option_or_out_of_range] using
      @take_or_report cursor _ Token.int32 .int (by simp [kind]) fun _ => rfl
  | long =>
    simpa only [ValueForm.ofWord, Token.int64, to_option_or_out_of_range] using
      @take_or_report cursor _ Token.int64 .long (by simp [kind]) fun _ => rfl
  | type =>
    simpa only [ValueForm.ofWord, Token.prim, to_option_or_out_of_range] using
      @take_or_report cursor _ Token.prim .type (by simp [kind]) fun _ => rfl
  | coordgrid =>
    exact @take_or_report cursor _ Token.coordinate .coordgrid (by simp [kind]) fun _ => rfl
  | _ =>
    obtain ⟨behind, missing, steps⟩ := parse_missing_at (cursor.fill 0)
    refine ⟨_, behind, missing, rfl, ?_⟩
    simpa [Cursor.Steps, Cursor.head, Cursor.fill] using steps

/-- A value is read whatever is ahead, unless it is a caret. -/
theorem parse_faces (faces : cursor.Faces words) (plain : ∀ word ∈ words.head?, word.1 ≠ .caret) :
    ∃ value behind, parse cursor = (.found value, behind) ∧
      value.unplaced = ⟨words.head?.elim .error .ofWord, Span.empty⟩ ∧
      (behind.Faces words ∨ behind.Faces words.tail) := by
  obtain ⟨form, behind, read, same, steps⟩ :=
    @parse_form_at cursor.fresh (faces.kind_ne plain nofun)
  refine ⟨⟨form, behind.range⟩, { behind with range := cursor.range.merge behind.range },
    ?_, ?_, ?_⟩
  · have ran : parseForm { cursor with range := Span.empty } = _ := read
    rw [parse, bind_apply, ranged, ran]
    rfl
  · rw [ConfigValue.unplaced, same]
    cases words with
    | nil =>
      have finished : cursor.head.kind = .eof := faces.finished
      simp [Token.word, finished, ValueForm.ofWord]
    | cons word rest =>
      rw [head?_cons, Option.elim_some, ← faces.cons.1]
      rfl
  · obtain ⟨ahead, sees, rfl⟩ := faces
    rcases steps with here | ⟨unfinished, moved⟩
    · exact .inl ⟨ahead, (congrArg (InSight · ahead) here).mpr sees, rfl⟩
    · obtain ⟨rest, rfl⟩ := sees.cons_of_head unfinished
      exact .inr ⟨rest, (congrArg (InSight · rest) moved).mpr (InSight.cons sees).2, rfl⟩

end ConfigValue

theorem parse_name_bind {α : Type} (next : Ident → Parse α) :
    (Config.parseName >>= next) cursor =
      if Config.isNameToken cursor.head.kind then
        next (Ident.ofToken cursor.head) (cursor.fill 0).taken
      else (.rejected ⟨.grammar (.expectedIdentifier cursor.head.kind), cursor.head.span⟩,
        (cursor.fill 0).fill 0) := by
  have start : Config.parseName cursor = _ := kind_ahead_bind 0 _
  rw [bind_apply, start]
  by_cases named : Config.isNameToken cursor.head.kind = true
  · rw [if_pos named, if_pos (by exact named), bind_apply, take_apply, head_fill]
    rfl
  · rw [if_neg named, if_neg (by exact named), reject_next_apply, head_fill]
    rfl

namespace Constant

/-- The words behind the caret break off before the value. -/
def Cut : List (TokenKind × String) → Prop
  | [] => True
  | [name] => Config.isNameToken name.1
  | [name, equals] => Config.isNameToken name.1 ∧ equals.1 = .equals
  | _ => False

theorem parse_apply (cursor : Cursor) :
    parse cursor = match (expect .caret >>= fun _ => Config.parseName >>= fun name =>
      expect .equals >>= fun _ => ConfigValue.parse >>= fun value =>
        pure (name, value)) cursor.fresh with
    | (.found (name, value), behind) =>
      (.found ⟨name, value, behind.range⟩, { behind with range := cursor.range.merge behind.range })
    | (.rejected fault, behind) => (.rejected fault, behind)
    | (.exhausted, behind) => (.exhausted, behind) := by
  unfold parse
  rw [bind_apply, ranged]
  simp only [Cursor.fresh]
  rcases (expect .caret >>= _ : Parse (Ident × ConfigValue)) _ with ⟨_ | _ | _, behind⟩ <;> rfl

/-- A constant is found, or it is rejected where no caret is next. -/
theorem parse_faces {caret : TokenKind × String} (faces : cursor.Faces (caret :: (body ++ rest)))
    (marked : caret.1 = .caret) (unmarked : Unmarked body) (whole : Cut body → rest = []) :
    ∃ left, left <:+ body ∧ ((∃ constant behind, parse cursor = (.found constant, behind) ∧
        ofWords body = [constant.unplaced] ∧ behind.Faces (left ++ rest)) ∨
      ∃ fault behind, parse cursor = (.rejected fault, behind) ∧ ofWords body = [] ∧
        behind.Faces (left ++ rest) ∧ (left = [] → rest = [])) := by
  have started : cursor.fresh.Faces (caret :: (body ++ rest)) := faces
  rw [parse_apply, expect_apply, if_pos (started.kind.trans marked), parse_name_bind]
  have named := started.taken
  cases body with
  | nil =>
    obtain rfl := whole trivial
    have finished : (cursor.fresh.fill 0).taken.head.kind = .eof := named.finished
    rw [if_neg (by simp [finished, Config.isNameToken])]
    exact ⟨[], suffix_rfl, .inr ⟨_, _, rfl, rfl, (named.fill 0).fill 0, id⟩⟩
  | cons name body =>
    by_cases is_name : Config.isNameToken name.1 = true
    · rw [if_pos (by rw [named.kind]; exact is_name), expect_apply]
      have divided := named.taken
      cases body with
      | nil =>
        obtain rfl := whole is_name
        have finished : ((cursor.fresh.fill 0).taken.fill 0).taken.head.kind = .eof :=
          divided.finished
        rw [if_neg (by simp [finished])]
        exact ⟨[], nil_suffix, .inr ⟨_, _, rfl, rfl, (divided.fill 0).fill 0, id⟩⟩
      | cons equals body =>
        by_cases is_equals : equals.1 = .equals
        · have plain : ∀ word ∈ (body ++ rest).head?, word.1 ≠ .caret := by
            cases body with
            | nil => simp [whole ⟨is_name, is_equals⟩]
            | cons value body => exact fun word next => unmarked word (by simp_all)
          obtain ⟨value, behind, read, same, there⟩ := ConfigValue.parse_faces divided.taken plain
          have single : ofWords (name :: equals :: body) =
              [⟨⟨name.2, Span.empty⟩, value.unplaced, Span.empty⟩] := by
            simp only [ofWords, is_name, is_equals, decide_true, Bool.and_self, if_true, same]
            cases body with
            | nil => rw [whole ⟨is_name, is_equals⟩]; rfl
            | cons value body => rfl
          have spelled : (Ident.ofToken (cursor.fresh.fill 0).taken.head).unplaced =
              ⟨name.2, Span.empty⟩ :=
            congrArg (fun text => (⟨text, Span.empty⟩ : Ident)) (congrArg Prod.snd named.cons.1)
          rw [if_pos (divided.kind.trans is_equals), bind_apply, read, single, ← spelled]
          rcases there with same | later
          · exact ⟨body, (suffix_cons _ _).trans (suffix_cons _ _), .inl ⟨_, _, rfl, rfl, same⟩⟩
          · refine ⟨body.tail, ((tail_suffix _).trans (suffix_cons _ _)).trans (suffix_cons _ _),
              .inl ⟨_, _, rfl, rfl, ?_⟩⟩
            cases body with
            | nil => rwa [whole ⟨is_name, is_equals⟩] at later ⊢
            | cons value body => exact later
        · rw [if_neg (by rw [divided.kind]; exact is_equals)]
          refine ⟨equals :: body, suffix_cons _ _,
            .inr ⟨_, _, rfl, ?_, (divided.fill 0).fill 0, nofun⟩⟩
          simp [ofWords, is_equals]
    · rw [if_neg (by rw [named.kind]; exact is_name)]
      refine ⟨name :: body, suffix_rfl, .inr ⟨_, _, rfl, ?_, (named.fill 0).fill 0, nofun⟩⟩
      cases body <;> simp [ofWords, is_name]

/-- A round in which a declaration is rejected ends behind the passage. -/
theorem declarations_rejected (unfinished : cursor.head.kind ≠ .eof) {fault : Diagnostic}
    {behind : Cursor} {rounds : Nat} (rejects : parse (cursor.fill 0) = (.rejected fault, behind))
    (faces : behind.Faces (body ++ rest)) (unmarked : Unmarked body) (bordered : Bordered rest)
    (inside : body = [] → rest = []) (fits : body.length < bound) :
    ∃ last, declarations parse (recover bound) (rounds + 1) cursor =
      declarations parse (recover bound) rounds last ∧ last.Faces rest := by
  obtain ⟨last, recovers, there⟩ :=
    @recover_faces { behind with faults := behind.faults ++ [fault] } _ _ _ faces unmarked bordered
      inside fits
  refine ⟨last, ?_, there⟩
  rw [declarations_succ, if_neg unfinished, rejects]
  simp only [bind_apply, recovers]

/-- What is left of a passage takes no more than a round. -/
theorem declarations_left (faces : cursor.Faces (body ++ rest)) (unmarked : Unmarked body)
    (bordered : Bordered rest) (fits : body.length < bound) {rounds : Nat}
    (enough : (body ++ rest).length < rounds) :
    ∃ behind left, declarations parse (recover bound) rounds cursor =
      declarations parse (recover bound) left behind ∧ behind.Faces rest ∧ rest.length < left := by
  cases body with
  | nil => exact ⟨cursor, rounds, rfl, faces, enough⟩
  | cons word body =>
    obtain ⟨rounds, rfl⟩ := Nat.exists_eq_add_one_of_ne_zero (Nat.ne_zero_of_lt enough)
    have there : cursor.Faces (word :: (body ++ rest)) := faces
    have unfinished : cursor.head.kind ≠ .eof := there.unfinished
    have other : (cursor.fill 0).fresh.head.kind ≠ .caret := by
      rw [head_fresh, head_fill, there.kind]
      exact unmarked word mem_cons_self
    have rejects := parse_apply (cursor.fill 0)
    rw [expect_apply, if_neg other] at rejects
    obtain ⟨last, read, ahead⟩ :=
      declarations_rejected unfinished rejects (((faces.fill 0).fill 0).fill 0) unmarked bordered
        nofun fits
    simp only [cons_append, length_cons, length_append] at enough
    exact ⟨last, rounds, read, ahead, by omega⟩

theorem declarations_passage {caret : TokenKind × String}
    (faces : cursor.Faces (caret :: (body ++ rest))) (marked : caret.1 = .caret)
    (unmarked : Unmarked body) (whole : Cut body → rest = []) (bordered : Bordered rest)
    (fits : body.length < bound) {rounds : Nat} (enough : (body ++ rest).length + 1 < rounds) :
    ∃ values behind left, declarations parse (recover bound) rounds cursor =
        Link.prepend values (declarations parse (recover bound) left behind) ∧
      values.map unplaced = ofWords body ∧ behind.Faces rest ∧ rest.length < left := by
  obtain ⟨rounds, rfl⟩ := Nat.exists_eq_add_one_of_ne_zero (Nat.ne_zero_of_lt enough)
  have unfinished : cursor.head.kind ≠ .eof := faces.unfinished
  obtain ⟨left, suffix, outcome⟩ := parse_faces (faces.fill 0) marked unmarked whole
  have shorter := suffix.length_le
  rw [length_append] at enough
  rcases outcome with ⟨constant, behind, read, declared, ahead⟩ |
    ⟨fault, behind, rejects, nothing, ahead, inside⟩
  · obtain ⟨last, more, skips, there, fewer⟩ :=
      @declarations_left _ _ _ _ ahead (unmarked.of_suffix suffix) bordered
        (Nat.lt_of_le_of_lt shorter fits) rounds (by rw [length_append]; omega)
    refine ⟨[constant], last, more, ?_, declared.symm, there, fewer⟩
    rw [declarations_succ, if_neg unfinished, read, ← skips]
  · obtain ⟨last, skips, there⟩ :=
      declarations_rejected unfinished rejects ahead (unmarked.of_suffix suffix) bordered inside
        (Nat.lt_of_le_of_lt shorter fits)
    exact ⟨[], last, rounds, by rw [skips, Link.prepend_nil], nothing.symm, there, by omega⟩

/-- The words of a passage: a caret, and no other one. -/
def Marked (words : List (TokenKind × String)) : Prop :=
  words.head?.map Prod.fst = some .caret ∧ Unmarked words.tail

theorem bordered_flatten {passages : List (List (TokenKind × String))}
    (all : ∀ words ∈ passages, Marked words) : Bordered passages.flatten := by
  cases passages with
  | nil => exact nofun
  | cons words rest =>
    obtain ⟨first, -⟩ := all words mem_cons_self
    cases words with
    | nil => cases first
    | cons caret body =>
      rintro word ⟨⟩
      exact Option.some.inj first

theorem declarations_passages {passages : List (List (TokenKind × String))}
    (all : ∀ words ∈ passages, Marked words)
    (whole : ∀ words ∈ passages.dropLast, ¬Cut words.tail)
    (faces : cursor.Faces passages.flatten) (fits : passages.flatten.length < bound) {rounds : Nat}
    (enough : passages.flatten.length < rounds) :
    ∃ values behind, declarations parse (recover bound) rounds cursor = (.found values, behind) ∧
      values.map unplaced = passages.flatMap fun words => ofWords words.tail := by
  induction passages generalizing cursor rounds with
  | nil =>
    obtain ⟨rounds, rfl⟩ := Nat.exists_eq_add_one_of_ne_zero (Nat.ne_zero_of_lt enough)
    exact ⟨[], _, declarations_finished faces.finished, rfl⟩
  | cons words rest ih =>
    obtain ⟨here, later⟩ := forall_mem_cons.mp all
    obtain ⟨caret, body, rfl⟩ : ∃ caret body, words = caret :: body := by
      cases words with
      | nil => cases here.1
      | cons caret body => exact ⟨caret, body, rfl⟩
    have last : Cut body → rest.flatten = [] := by
      intro broken
      cases rest with
      | nil => rfl
      | cons next rest => exact absurd broken (whole (caret :: body) mem_cons_self)
    simp only [flatten_cons, cons_append, length_cons, length_append] at fits enough
    obtain ⟨values, behind, left, read, declared, ahead, some_left⟩ :=
      @declarations_passage _ _ _ bound _ faces (Option.some.inj here.1) here.2 last
        (bordered_flatten later) (by omega) rounds (by rw [length_append]; omega)
    obtain ⟨values', last, read', declared'⟩ := ih later
      (fun words member => whole words (by cases rest <;> simp_all)) ahead (by omega) some_left
    refine ⟨values ++ values', last, ?_, ?_⟩
    · rw [read, read', Link.prepend]
    · rw [map_append, declared, declared', flatMap_cons, tail_cons]

end Constant

/-! ### Texts -/

/-- The words of a text up to its end. -/
def wordsOf (source : String) : List (TokenKind × String) :=
  ((Scanner.ofText .configs source 0).tokens.1.filter fun token =>
    token.kind ≠ .comment).dropLast.map Token.word

/-- Whole lines that begin with a caret and hold no other one, without lexical faults. -/
structure ConstantPassage (source : String) : Prop where
  lined : source.toList.getLast? = some '\n'
  clean : (Scanner.ofText .configs source 0).tokens.2.faults = []
  begins : (Vocabulary.configs.kinds source).head? = some .caret
  single : TokenKind.caret ∉ (Vocabulary.configs.kinds source).tail

/-- The text is the beginning of a declaration, without its value. -/
def Constant.BreaksOff (source : String) : Prop :=
  Vocabulary.configs.kinds source ∈ [[.caret, .eof], [.caret, .identifier, .eof],
    [.caret, .type, .eof], [.caret, .identifier, .equals, .eof], [.caret, .type, .equals, .eof]]

instance (source : String) : Decidable (ConstantPassage source) :=
  decidable_of_iff (source.toList.getLast? = some '\n' ∧
    (ofText .configs source 0).tokens.2.faults = [] ∧
      (Vocabulary.configs.kinds source).head? = some .caret ∧
      TokenKind.caret ∉ (Vocabulary.configs.kinds source).tail)
    ⟨fun ⟨lined, clean, begins, single⟩ => ⟨lined, clean, begins, single⟩,
      fun passage => ⟨passage.lined, passage.clean, passage.begins, passage.single⟩⟩

instance (source : String) : Decidable (Constant.BreaksOff source) :=
  inferInstanceAs (Decidable (_ ∈ _))

namespace ConstantPassage

variable {source : String} {passages : List String}

theorem holds (passage : ConstantPassage source) :
    ∃ count, (ofText .configs source 0).Holds count ∧
      ((List.range count).map (ofText .configs source 0).token).map Token.word =
        wordsOf source := by
  obtain ⟨count, holds, kept⟩ := holds_of_tokens passage.clean
  refine ⟨count, holds, ?_⟩
  rw [wordsOf, kept, range_succ, map_append, map_singleton, dropLast_concat]

theorem kinds_eq (passage : ConstantPassage source) :
    Vocabulary.configs.kinds source = (wordsOf source).map Prod.fst ++ [.eof] := by
  obtain ⟨count, holds, kept⟩ := holds_of_tokens passage.clean
  rw [Vocabulary.kinds, wordsOf, kept, range_succ, map_append, map_singleton, dropLast_concat]
  simp [holds.finished, Token.word, Function.comp_def]

theorem marked (passage : ConstantPassage source) : Constant.Marked (wordsOf source) := by
  have begins := passage.begins
  have single := passage.single
  rw [passage.kinds_eq] at begins single
  cases spelled : wordsOf source with
  | nil => simp [spelled] at begins
  | cons caret body =>
    rw [spelled] at begins single
    refine ⟨by simpa using begins, fun word member same => single ?_⟩
    simp only [map_cons, cons_append, tail_cons, mem_append, mem_map]
    exact .inl ⟨word, member, same⟩

theorem breaks_off (passage : ConstantPassage source)
    (broken : Constant.Cut (wordsOf source).tail) : Constant.BreaksOff source := by
  have names : ∀ kind, Config.isNameToken kind = true → kind = .identifier ∨ kind = .type := by
    intro kind named
    cases kind <;> simp [Config.isNameToken] at named ⊢
  rw [Constant.BreaksOff, passage.kinds_eq]
  obtain ⟨first, -⟩ := passage.marked
  match spelled : wordsOf source with
  | [] => simp [spelled] at first
  | [caret] => simp_all
  | [caret, name] =>
    rw [spelled] at first broken
    rcases names name.1 broken with same | same <;> simp_all
  | [caret, name, equals] =>
    rw [spelled] at first broken
    rcases names name.1 broken.1 with same | same <;> simp_all [broken.2]
  | _ :: _ :: _ :: _ :: _ => simp [spelled, Constant.Cut] at broken

/-- The words of joined passages are those of each passage, one behind the other. -/
theorem join (all : ∀ passage ∈ passages, ConstantPassage passage) :
    ¬IsNumber ((ofText .configs (String.join passages) 0).token 0).kind ∧
      ∃ ahead, InSight (ofText .configs (String.join passages) 0).token ahead ∧
        ahead.map Token.word = passages.flatMap wordsOf := by
  induction passages with
  | nil =>
    rw [String.join_nil, token_empty]
    exact ⟨by simp [IsNumber], [], ⟨rfl, nofun, congrArg Token.kind (token_empty _ 0)⟩, rfl⟩
  | cons first rest ih =>
    obtain ⟨here, later⟩ := forall_mem_cons.mp all
    obtain ⟨unnumbered, ahead, seen, words⟩ := ih later
    obtain ⟨count, holds, spelled⟩ := here.holds
    obtain ⟨inside, behind, -⟩ :=
      token_append Vocabulary.configs_endless (getLast?_eq_some_iff.mp here.lined) holds unnumbered
    rw [String.join_cons, flatMap_cons]
    refine ⟨?_, _, @InSight.of_range _ (count + ahead.length) (fun index before => ?_) ?_, ?_⟩
    · obtain ⟨marked, -⟩ := here.marked
      cases count with
      | zero => simp [← spelled] at marked
      | succ count =>
        rw [← spelled, range_succ_eq_map, map_cons, map_cons, head?_cons] at marked
        rw [inside 0 (Nat.succ_pos _), show (token _ 0).kind = .caret from Option.some.inj marked]
        simp [IsNumber]
    · by_cases own : index < count
      · exact inside index own ▸ holds.unfinished index own
      · obtain ⟨index, rfl⟩ := Nat.exists_eq_add_of_le (Nat.le_of_not_lt own)
        exact behind index ▸ seen.before (by omega)
    · exact behind ahead.length ▸ seen.finished
    · have rest_words := congrArg (map Token.word) seen.tokens
      rw [range_add, map_append, map_append, ← spelled, ← words, ← rest_words]
      simp only [map_map]
      congr 1
      · exact map_congr_left fun index member =>
          congrArg Token.word (inside index (mem_range.mp member))
      · exact map_congr_left fun index _ => (congrArg Token.word (behind index) :)

end ConstantPassage

namespace Constant

theorem read_words {source : String} {ahead : List Token}
    {passages : List (List (TokenKind × String))}
    (all : ∀ words ∈ passages, Marked words)
    (whole : ∀ words ∈ passages.dropLast, ¬Cut words.tail)
    (seen : InSight (ofText .configs source 0).token ahead)
    (spelled : ahead.map Token.word = passages.flatten) :
    (readDeclarations source parseFile).1.map unplaced =
      passages.flatMap fun words => ofWords words.tail := by
  obtain ⟨sees, few⟩ := start_sees seen
  have faces : (start (TokenStream.ofText .configs source)).Faces passages.flatten :=
    ⟨ahead, sees, spelled⟩
  have short : passages.flatten.length < enoughRounds source := by rwa [← spelled, length_map]
  obtain ⟨values, behind, read, declared⟩ := declarations_passages all whole faces short short
  rw [readDeclarations, parseFile, read]
  exact declared

/-- Recovery is local: joined passages give the constants of each passage alone, up to their places,
if no passage but the last breaks off before its value. -/
theorem read_joined (passages : List String) (all : ∀ passage ∈ passages, ConstantPassage passage)
    (whole : ∀ passage ∈ passages.dropLast, ¬BreaksOff passage) :
    (readDeclarations (String.join passages) parseFile).1.map unplaced =
      passages.flatMap fun passage => (readDeclarations passage parseFile).1.map unplaced := by
  have alone : ∀ passage ∈ passages, (readDeclarations passage parseFile).1.map unplaced =
      ofWords (wordsOf passage).tail := by
    intro passage member
    obtain ⟨count, holds, spelled⟩ := (all passage member).holds
    have read := read_words (forall_mem_singleton.mpr (all passage member).marked)
      (forall_mem_nil _) (.of_range holds.unfinished holds.finished)
      (spelled.trans (append_nil _).symm)
    simpa using read
  obtain ⟨-, ahead, seen, spelled⟩ := ConstantPassage.join all
  rw [flatMap_congr alone, @read_words _ _ (passages.map wordsOf) ?_ ?_ seen spelled, flatMap_map]
  · exact forall_mem_map.mpr fun passage member => (all passage member).marked
  · rw [← map_dropLast]
    refine forall_mem_map.mpr fun passage inside broken => whole passage inside ?_
    exact (all passage (mem_of_mem_dropLast inside)).breaks_off broken

/-- What is at fault inside a passage, and a last one that breaks off. -/
theorem read_joined_faulty :
    (readDeclarations (String.join ["^a 1\n", "^b=,2\n", "^c=0x10\n", "^d=\n"])
        parseFile).1.map unplaced =
      ["^a 1\n", "^b=,2\n", "^c=0x10\n", "^d=\n"].flatMap fun passage =>
        (readDeclarations passage parseFile).1.map unplaced :=
  read_joined _ (by decide +kernel) (by decide +kernel)

/-- Behind a passage that breaks off, the next constant is lost or taken for the value. -/
theorem constant_lost_behind_caret :
    ConstantPassage "^a\n" ∧ ConstantPassage "^b=2\n" ∧
      (readDeclarations "^a\n" parseFile).1.length = 0 ∧
      (readDeclarations "^b=2\n" parseFile).1.length = 1 ∧
      (readDeclarations "^a\n^b=2\n" parseFile).1.length = 0 := by
  decide +kernel

end Constant

end TriggerScript
