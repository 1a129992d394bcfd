import TriggerScript.Proofs.Parsing.Declarations
import TriggerScript.Proofs.Parsing.Nesting
import TriggerScript.Proofs.Token.Succession

/-!
Nothing is left out in silence.

Where no fault is found, nothing in a tree stands for what could not be read. In configurations and
constants every token then belongs to a declaration: a declaration takes up the tokens that its
range is made of, and what is rejected is noted.
-/

namespace TriggerScript

open List Parse

/-- The range of tokens. -/
def Span.ofTokens (tokens : List Token) : Span :=
  tokens.foldl (fun range token => range.merge token.span) .empty

namespace Span

theorem merge_empty (range : Span) : range.merge .empty = range := by simp [merge, isEmpty, empty]

theorem merge_assoc (left middle right : Span) :
    (left.merge middle).merge right = left.merge (middle.merge right) := by
  simp only [merge, isEmpty]
  grind

theorem fold_merge (range : Span) (tokens : List Token) :
    tokens.foldl (fun range token => range.merge token.span) range =
      range.merge (ofTokens tokens) := by
  induction tokens using List.reverseRecOn with
  | nil => rfl
  | append_singleton tokens last ih =>
    simp only [ofTokens, foldl_append, foldl_cons, foldl_nil, ih, merge_assoc]

/-- Counting tokens from an empty range changes nothing. -/
theorem merge_of_tokens (range : Span) (tokens : List Token) :
    range.merge (empty.merge (ofTokens tokens)) = range.merge (ofTokens tokens) := by
  rw [← merge_assoc, merge_empty]

theorem of_tokens_append (first second : List Token) :
    ofTokens (first ++ second) = (ofTokens first).merge (ofTokens second) := by
  rw [ofTokens, foldl_append, fold_merge]
  rfl

end Span

/-- The tokens in sight up to the end of the text. -/
structure InSight (sight : Nat → Token) (ahead : List Token) : Prop where
  tokens : (List.range ahead.length).map sight = ahead
  unfinished : ∀ token ∈ ahead, token.kind ≠ .eof
  finished : (sight ahead.length).kind = .eof

variable {first : Token} {ahead : List Token}

theorem InSight.cons {sight : Nat → Token} (seen : InSight sight (first :: ahead)) :
    sight 0 = first ∧ InSight (fun index => sight (index + 1)) ahead := by
  have tokens := seen.tokens
  rw [length_cons, range_succ_eq_map] at tokens
  obtain ⟨here, later⟩ := List.cons.inj tokens
  refine ⟨here, ?_, fun token member => seen.unfinished token (mem_cons_of_mem _ member),
    seen.finished⟩
  simpa [Function.comp_def] using later

theorem InSight.of_range {sight : Nat → Token} {count : Nat}
    (unfinished : ∀ index < count, (sight index).kind ≠ .eof)
    (finished : (sight count).kind = .eof) : InSight sight ((List.range count).map sight) := by
  refine ⟨by rw [length_map, length_range], ?_, by rwa [length_map, length_range]⟩
  exact forall_mem_map.mpr fun index inside => unfinished index (mem_range.mp inside)

theorem InSight.before {sight : Nat → Token} (seen : InSight sight ahead) {index : Nat}
    (inside : index < ahead.length) : (sight index).kind ≠ .eof :=
  seen.unfinished _ (seen.tokens ▸ mem_map_of_mem (mem_range.mpr inside))

namespace Cursor

variable {cursor : Cursor}

abbrev Sees (cursor : Cursor) (ahead : List Token) : Prop :=
  InSight cursor.stream.active.sight ahead

theorem Sees.fill (sees : cursor.Sees ahead) (count : Nat) : (cursor.fill count).Sees ahead := by
  rwa [Sees, Cursor.fill, TokenStream.active_fill, Lane.sight_fill]

theorem Sees.head (sees : cursor.Sees (first :: ahead)) : cursor.head = first := sees.cons.1

theorem Sees.taken (sees : cursor.Sees (first :: ahead)) : cursor.taken.Sees ahead := by
  have unfinished : cursor.head.kind ≠ .eof := sees.head ▸ sees.unfinished _ (mem_cons_self ..)
  rw [Sees, Cursor.taken, cursor.stream.take_eq.2.1, Lane.sight_take unfinished]
  exact sees.cons.2

theorem range_taken : cursor.taken.range = cursor.range.merge cursor.head.span := rfl

theorem Sees.cons_of_head (sees : cursor.Sees ahead) (unfinished : cursor.head.kind ≠ .eof) :
    ∃ rest, ahead = cursor.head :: rest := by
  cases ahead with
  | nil => exact absurd sees.finished unfinished
  | cons first rest => exact ⟨rest, by rw [sees.head]⟩

/-- Some tokens were taken, and became part of the range. -/
structure Spent (range : Span) (ahead : List Token) (least : Nat) (behind : Cursor)
    (part : List Token) : Prop where
  rest : ∃ rest, ahead = part ++ rest ∧ behind.Sees rest
  least : least ≤ part.length
  range : behind.range = range.merge (.ofTokens part)

end Cursor

namespace Parse

variable {α β : Type} {heads : TokenKind → Prop} {room least more bound : Nat} {phrase : Parse α}

/-- Before the end of the text the phrase comes to an end, and takes up some of the tokens if it is
found. -/
def Spends (heads : TokenKind → Prop) (room least : Nat) (phrase : Parse α) : Prop :=
  ∀ cursor ahead, cursor.Sees ahead → heads cursor.head.kind → ahead.length < room →
    match phrase cursor with
    | (.found _, behind) => ∃ part, Cursor.Spent cursor.range ahead least behind part
    | (.rejected _, _) => True
    | (.exhausted, _) => False

/-- Any token may be ahead. -/
abbrev Anything (_ : TokenKind) : Prop := True

theorem spends_pure (value : α) : (pure value : Parse α).Spends heads room 0 :=
  fun _ ahead sees _ _ => ⟨[], ⟨ahead, rfl, sees⟩, Nat.le_refl 0, rfl⟩

theorem spends_reject_next {fault : GrammarFault} :
    (rejectNext fault : Parse α).Spends heads room least := by
  intro cursor ahead _ _ _
  rw [reject_next_apply]
  trivial

theorem spends_or_report {value : Except GrammarFault α} {build : α → β} {standIn : β}
    {span : Span} :
    (orReport value build standIn span).Spends heads room 0 := by
  intro cursor ahead sees _ _
  cases value <;> exact ⟨[], ⟨ahead, rfl, sees⟩, Nat.le_refl 0, rfl⟩

theorem spends_report {fault : GrammarFault} {span : Span} :
    (report fault span).Spends heads room 0 :=
  fun _ ahead sees _ _ => ⟨[], ⟨ahead, rfl, sees⟩, Nat.le_refl 0, rfl⟩

theorem spends_peek : peek.Spends heads room 0 := by
  intro cursor ahead sees _ _
  rw [peek, lookahead_apply]
  exact ⟨[], ⟨ahead, rfl, sees.fill 0⟩, Nat.le_refl 0, rfl⟩

theorem spends_take {kind : TokenKind} (unfinished : kind ≠ .eof) :
    take.Spends (· = kind) room 1 := by
  intro cursor ahead sees known _
  obtain ⟨rest, rfl⟩ := sees.cons_of_head (known ▸ unfinished)
  rw [take_apply]
  refine ⟨[cursor.head], ⟨rest, rfl, sees.taken⟩, Nat.le_refl 1, ?_⟩
  exact Span.fold_merge cursor.range [cursor.head]

theorem Spends.weaken {others : TokenKind → Prop} {less fewer : Nat}
    (spends : phrase.Spends heads room least) (known : ∀ kind, others kind → heads kind)
    (smaller : less ≤ room) (le : fewer ≤ least) : phrase.Spends others less fewer := by
  intro cursor ahead sees here fits
  have here := spends cursor ahead sees (known _ here) (Nat.lt_of_lt_of_le fits smaller)
  rcases ran : phrase cursor with ⟨value | _ | _, behind⟩ <;> rw [ran] at here
  · obtain ⟨part, rest, enough, range⟩ := here
    exact ⟨part, rest, Nat.le_trans le enough, range⟩
  · trivial
  · exact here

theorem Spends.anywhere {less fewer : Nat} (spends : phrase.Spends Anything room least)
    (smaller : less ≤ room) (le : fewer ≤ least) : phrase.Spends heads less fewer :=
  spends.weaken (fun _ _ => trivial) smaller le

theorem Spends.loose (spends : phrase.Spends heads room least) : phrase.Spends heads room 0 :=
  spends.weaken (fun _ => id) (Nat.le_refl _) (Nat.zero_le _)

theorem Spends.bind {next : α → Parse β} (first : phrase.Spends heads room least)
    (later : ∀ value, (next value).Spends Anything (room - least) 0) :
    (phrase >>= next).Spends heads room least := by
  intro cursor ahead sees known fits
  have here := first cursor ahead sees known fits
  rw [bind_apply]
  rcases ran : phrase cursor with ⟨value | _ | _, behind⟩ <;> rw [ran] at here
  · obtain ⟨part, ⟨rest, rfl, left⟩, enough, range⟩ := here
    rw [length_append] at fits
    have there := later value behind rest left trivial (by omega)
    dsimp only at there ⊢
    rcases ended : next value behind with ⟨_ | _ | _, after⟩ <;> rw [ended] at there
    · obtain ⟨part', ⟨rest', rfl, left'⟩, -, range'⟩ := there
      refine ⟨part ++ part', ⟨rest', (append_assoc ..).symm, left'⟩, ?_, ?_⟩
      · rw [length_append]
        omega
      · rw [range', range, Span.merge_assoc, Span.of_tokens_append]
    · trivial
    · exact there
  · trivial
  · exact here

theorem spends_kind {next : TokenKind → Parse α}
    (later : ∀ kind, heads kind → (next kind).Spends (· = kind) room least) :
    (kind >>= next).Spends heads room least := by
  intro cursor ahead sees known fits
  have ran : (kind >>= next) cursor = next cursor.head.kind (cursor.fill 0) :=
    kind_ahead_bind 0 next
  rw [ran]
  exact later _ known (cursor.fill 0) ahead (sees.fill 0) (by rw [Cursor.head_fill]) fits

theorem spends_ite {condition : Prop} [Decidable condition] {first second : Parse α}
    (yes : condition → first.Spends heads room least)
    (no : ¬condition → second.Spends heads room least) :
    (if condition then first else second).Spends heads room least := by
  split
  · exact yes ‹_›
  · exact no ‹_›

theorem spends_expect {expected : TokenKind} (unfinished : expected ≠ .eof) :
    (expect expected).Spends heads room 1 := by
  exact spends_kind fun kind _ => spends_ite (fun same => spends_take (same ▸ unfinished)) fun _ =>
    spends_reject_next

theorem spends_accept {expected : TokenKind} {next : Bool → Parse α} (unfinished : expected ≠ .eof)
    (yes : (next true).Spends Anything (room - 1) 0) (no : (next false).Spends Anything room 0) :
    (accept expected >>= next).Spends heads room 0 := by
  rw [accept_bind]
  refine spends_kind fun kind _ => spends_ite (fun same => ?_) fun _ =>
    no.anywhere (Nat.le_refl _) (Nat.le_refl _)
  exact ((spends_take (same ▸ unfinished)).bind fun _ => yes).loose

theorem Spends.ranged (spends : phrase.Spends heads room least) :
    phrase.ranged.Spends heads room least := by
  intro cursor ahead sees known fits
  have here := spends { cursor with range := .empty } ahead sees known fits
  unfold Parse.ranged
  rcases ran : phrase { cursor with range := .empty } with ⟨value | _ | _, behind⟩ <;>
    rw [ran] at here
  · obtain ⟨part, ⟨rest, split, left⟩, enough, range⟩ := here
    refine ⟨part, ⟨rest, split, left⟩, enough, ?_⟩
    rw [range, Span.merge_of_tokens]
  · trivial
  · exact here

theorem Spends.many {condition : Parse Bool} (asks : condition.Spends Anything room 0)
    (spends : phrase.Spends Anything room 1) (fits : room ≤ bound) :
    (many condition phrase bound).Spends Anything room 0 := by
  induction bound generalizing room with
  | zero => exact fun _ _ _ _ short => absurd short (by omega)
  | succ bound ih =>
    have later := ih (asks.anywhere (Nat.sub_le room 1) (Nat.le_refl _))
      (spends.anywhere (Nat.sub_le room 1) (Nat.le_refl _)) (by omega)
    refine asks.bind fun goes_on => spends_ite (fun _ => ?_) fun _ => spends_pure _
    exact (spends.bind fun first => later.bind fun rest => spends_pure _).loose

theorem spends_separated {phrase : Nat → Parse α}
    (spends : ∀ index, (phrase index).Spends Anything room 0) (fits : room ≤ bound) (index : Nat) :
    (separated phrase index bound).Spends Anything room 0 := by
  induction bound generalizing room index with
  | zero => exact fun _ _ _ _ short => absurd short (by omega)
  | succ bound ih =>
    have later := ih (fun index => (spends index).anywhere (Nat.sub_le room 1) (Nat.le_refl _))
      (by omega) (index + 1)
    refine (spends index).bind fun first => spends_accept (by decide) ?_ (spends_pure _)
    exact later.bind fun rest => spends_pure _

end Parse

/-! ### Configurations and constants -/

variable {heads : TokenKind → Prop} {room bound : Nat}

namespace ConfigValue

theorem spends_parse_missing : parseMissing.Spends heads room 0 := by
  have reported {room : Nat} (token : Token) :
    (report .expectingPropertyValue token.span >>= fun _ =>
      pure ValueForm.error : Parse ValueForm).Spends Anything room 0 :=
        spends_report.bind fun _ => spends_pure _
  refine spends_kind fun kind _ => ?_
  split
  · exact spends_peek.bind reported
  · exact spends_peek.bind reported
  · rename_i unfinished
    exact ((spends_take unfinished).bind reported).loose

/-- A constant is a caret and a name, both of which are seen before they are taken. -/
theorem spends_constant :
    (kindAhead 1 >>= fun behind =>
      if behind = .identifier then
        Parse.take >>= fun _ => Parse.take >>= fun token => pure (.constant (Ident.ofToken token))
      else parseMissing).Spends (· = .caret) room 0 := by
  intro cursor ahead sees known fits
  rw [kind_ahead_bind]
  by_cases named : (cursor.stream.active.sight 1).kind = .identifier
  · obtain ⟨first, rfl⟩ := sees.cons_of_head (by rw [known]; decide)
    cases first with
    | nil => cases named.symm.trans sees.finished
    | cons second rest =>
      have behind := (sees.fill 1).taken
      rw [if_pos named, bind_apply, take_apply]
      dsimp only
      rw [bind_apply, take_apply]
      have spent : Cursor.Spent cursor.range (cursor.head :: second :: rest) 0
          (cursor.fill 1).taken.taken [cursor.head, second] := by
        refine ⟨⟨rest, rfl, behind.taken⟩, Nat.zero_le _, ?_⟩
        rw [Cursor.range_taken, behind.head, Cursor.range_taken, Cursor.head_fill,
          ← Span.fold_merge]
        rfl
      exact ⟨_, spent⟩
  · rw [if_neg named]
    exact @spends_parse_missing Anything room (cursor.fill 1) ahead (sees.fill 1) trivial fits

theorem spends_parse : ConfigValue.parse.Spends Anything room 0 := by
  refine (Spends.ranged (spends_kind fun kind _ => ?_)).bind fun _ => spends_pure _
  have taken {build : Token → Parse ValueForm} (unfinished : kind ≠ .eof)
      (later : ∀ token, (build token).Spends Anything (room - 1) 0) :
      (Parse.take >>= build).Spends (· = kind) room 0 :=
    ((spends_take unfinished).bind later).loose
  split
  case h_1 | h_4 | h_8 | h_9 => exact taken (by decide) fun _ => spends_pure _
  case h_2 | h_3 | h_5 | h_6 => exact taken (by decide) fun _ => spends_or_report
  case h_7 => exact spends_constant
  case h_10 => exact spends_parse_missing

end ConfigValue

namespace Config

theorem spends_parse_name : parseName.Spends heads room 1 := by
  refine spends_kind fun kind _ => spends_ite (fun spelled => ?_) fun _ => spends_reject_next
  refine (spends_take fun finished => ?_).bind fun _ => spends_pure _
  rw [finished] at spelled
  cases spelled

theorem spends_parse_property (fits : room ≤ bound) :
    (parseProperty bound).Spends Anything room 1 := by
  refine (Spends.ranged (spends_parse_name.bind fun key => ?_)).bind fun _ => spends_pure _
  refine ((spends_expect (by decide)).bind fun _ => ?_).loose
  exact (spends_separated (fun _ => ConfigValue.spends_parse) (by omega) 0).bind fun _ =>
    spends_pure _

theorem spends_parse (fits : room ≤ bound) :
    (Parse.expect .leftBracket >>= fun _ => parseName >>= fun name =>
      Parse.expect .rightBracket >>= fun _ =>
      Parse.many nameAhead (parseProperty bound) bound >>= fun properties =>
      pure (name, properties)).Spends Anything room 1 := by
  refine (spends_expect (by decide)).bind fun _ => (spends_parse_name.bind fun name => ?_).loose
  refine ((spends_expect (by decide)).bind fun _ => ?_).loose
  refine (Spends.many (spends_kind fun _ _ => spends_pure _) ?_ (by omega)).bind fun _ =>
    spends_pure _
  exact spends_parse_property (by omega)

end Config

theorem Constant.spends_parse :
    (Parse.expect .caret >>= fun _ => Config.parseName >>= fun name =>
      Parse.expect .equals >>= fun _ => ConfigValue.parse >>= fun value =>
      pure (name, value)).Spends Anything room 1 := by
  refine (spends_expect (by decide)).bind fun _ =>
    (Config.spends_parse_name.bind fun name => ?_).loose
  refine ((spends_expect (by decide)).bind fun _ => ?_).loose
  exact ConfigValue.spends_parse.bind fun _ => spends_pure _

/-! ### Declarations -/

/-- The declaration is made of tokens: its range is theirs. -/
def MadeOf {α : Type} (span : α → Span) (value : α) (part : List Token) : Prop :=
  part ≠ [] ∧ span value = .ofTokens part

namespace Parse

variable {α β : Type} {phrase : Parse α} {span : α → Span}

/-- Before the end of the text the declaration comes to an end, and is made of tokens if it is
found. -/
def Declares (room : Nat) (phrase : Parse α) (span : α → Span) : Prop :=
  ∀ cursor ahead, cursor.Sees ahead → ahead.length < room →
    match phrase cursor with
    | (.found value, behind) =>
      ∃ part rest, ahead = part ++ rest ∧ behind.Sees rest ∧ MadeOf span value part
    | (.rejected _, _) => True
    | (.exhausted, _) => False

theorem Spends.declares {build : α × Span → β} {span : β → Span}
    (spends : phrase.Spends Anything room 1) (placed : ∀ result, span (build result) = result.2) :
    (phrase.ranged >>= fun result => pure (build result)).Declares room span := by
  intro cursor ahead sees fits
  have here := spends { cursor with range := .empty } ahead sees trivial fits
  rw [bind_apply, Parse.ranged]
  rcases ran : phrase { cursor with range := .empty } with ⟨value | _ | _, behind⟩ <;>
    rw [ran] at here
  · obtain ⟨part, ⟨rest, split, left⟩, enough, range⟩ := here
    refine ⟨part, rest, split, left, length_pos_iff.mp enough, ?_⟩
    exact (placed _).trans (range.trans (Span.fold_merge .empty part).symm)
  · trivial
  · exact here

/-- Where nothing is rejected, declarations take up all tokens. -/
theorem Declares.declarations {terms : Terms} [Tree α] [finds : ∀ site, phrase.Finds terms site]
    (recover : Parse Unit) [recovers : ∀ site, recover.Finds terms site] (strict : ¬terms.lenient)
    (declares : phrase.Declares room span) (bound : Nat) {cursor : Cursor} {ahead : List Token}
    (sees : cursor.Sees ahead) (fits : ahead.length < room) (rounds : ahead.length < bound)
    (honest : cursor.Honest) (clean : ¬(declarations phrase recover bound cursor).2.Faulty) :
    ∃ values parts, (declarations phrase recover bound cursor).1 = .found values ∧
      ahead = parts.flatten ∧ Forall₂ (MadeOf span) values parts := by
  induction bound generalizing cursor ahead with
  | zero => omega
  | succ bound ih =>
    rw [declarations_succ] at clean ⊢
    by_cases finished : cursor.head.kind = .eof
    · cases ahead with
      | nil => exact ⟨[], [], by rw [if_pos finished], rfl, .nil⟩
      | cons first rest =>
        exact absurd (sees.head ▸ finished) (sees.unfinished _ (mem_cons_self ..))
    · rw [if_neg finished] at clean ⊢
      have here := declares (cursor.fill 0) ahead (sees.fill 0) fits
      have filled : (cursor.fill 0).Honest := (cursor.stream.leads_fill 0 honest).1
      have moved := ((finds ⟨True, .empty⟩).leads strict (cursor.fill 0) filled).1
      rcases ran : phrase (cursor.fill 0) with ⟨value | fault | _, behind⟩ <;>
        rw [ran] at here clean moved
      · obtain ⟨part, rest, rfl, left, made⟩ := here
        have taken := length_pos_iff.mpr made.1
        rw [length_append] at fits rounds
        have later := ih left (by omega) (by omega) moved
        dsimp only at clean ⊢
        rcases ended : Parse.declarations phrase recover bound behind
          with ⟨values | _ | _, after⟩ <;>
          rw [ended] at later clean <;>
          obtain ⟨values, parts, found, rfl, each⟩ := later clean <;> cases found
        exact ⟨_, part :: parts, rfl, rfl, .cons made each⟩
      · -- What is rejected is noted, and stays noted.
        have leads : Cursor.Leads _ ((recover >>= fun _ => Parse.declarations phrase recover bound)
            { behind with faults := behind.faults ++ [fault] }).2 :=
          leads_bind ((recovers ⟨True, .empty⟩).leads strict _) fun _ _ => leads_declarations strict
        exact absurd ((leads moved).2 (.inl (by simp))) clean
      · exact here.elim

end Parse

theorem Scanner.count_le_weight {scanner : Scanner} {count : Nat} (ordered : scanner.Ordered)
    (unfinished : ∀ index < count, (scanner.token index).kind ≠ .eof) : count ≤ scanner.weight := by
  induction count generalizing scanner with
  | zero => exact Nat.zero_le _
  | succ count ih =>
    obtain ⟨behind, lighter⟩ := weight_advance ordered
    have later := ih behind fun index inside =>
      token_succ scanner index ▸ unfinished (index + 1) (by omega)
    have taken := Token.weight_pos (unfinished 0 (Nat.succ_pos _))
    change 0 < scanner.advance.2.1.weight at taken
    omega

/-- A text is seen from its start, and does not take too many rounds. -/
theorem Cursor.start_sees {source : String} {ahead : List Token}
    (seen : InSight (Scanner.ofText .configs source 0).token ahead) :
    (start (TokenStream.ofText .configs source)).Sees ahead ∧
      ahead.length < enoughRounds source := by
  have sight : (start (TokenStream.ofText .configs source)).stream.active.sight =
      (Scanner.ofText .configs source 0).token := Scanner.sight_start _
  refine ⟨by rwa [Sees, sight], ?_⟩
  have ordered := (Scanner.within_of_text .configs source).ordered
  have light := Scanner.count_le_weight ordered fun _ inside => seen.before inside
  have enough := weight_lt_rounds .configs source
  have same : (start (TokenStream.ofText .configs source)).weight =
    (Scanner.ofText .configs source 0).weight := Nat.zero_add _
  omega

/-- The tokens of a text but comments are those of the declarations, one behind the other, and the
end. -/
def Consumed {α : Type} (source : String) (span : α → Span) (values : List α) : Prop :=
  ∃ parts last,
    ((Scanner.ofText .configs source 0).tokens.1.filter fun token => token.kind ≠ .comment) =
      parts.flatten ++ [last] ∧ last.kind = .eof ∧ Forall₂ (MadeOf span) values parts

theorem consumed_of_clean {α : Type} {span : α → Span} {phrase : Nat → Parse α}
    {recover : Nat → Parse Unit} {terms : Terms} [Tree α]
    [∀ bound site, (phrase bound).Finds terms site] [∀ bound site, (recover bound).Finds terms site]
    (strict : ¬terms.lenient) (source : String)
    (declares : ∀ bound, (phrase bound).Declares bound span)
    (clean : (readDeclarations source fun bound =>
      declarations (phrase bound) (recover bound) bound).2 = []) :
    Consumed source span (readDeclarations source fun bound =>
      declarations (phrase bound) (recover bound) bound).1 := by
  obtain ⟨count, unfinished, finished, -, tokens⟩ := Scanner.tokens_eq (.ofText .configs source 0)
  obtain ⟨sees, few⟩ := Cursor.start_sees (.of_range unfinished finished)
  have honest : (Cursor.start (TokenStream.ofText .configs source)).Honest :=
    forall_mem_singleton.mpr ⟨Vocabulary.configs_plain, fun _ held => nomatch held⟩
  have read := (declares (enoughRounds source)).declarations (recover (enoughRounds source)) strict
    (enoughRounds source) sees few few honest
  simp only [readDeclarations] at clean ⊢
  rcases ran : declarations (phrase (enoughRounds source)) (recover (enoughRounds source))
    (enoughRounds source) (Cursor.start (TokenStream.ofText .configs source))
    with ⟨values | _ | _, behind⟩ <;>
    rw [ran] at read clean <;>
    obtain ⟨values, parts, found, all, each⟩ :=
      read (Cursor.not_faulty_of_finish clean) <;> cases found
  refine ⟨parts, (Scanner.ofText .configs source 0).token count, ?_, finished, each⟩
  rw [tokens, range_succ, map_append, all]
  rfl

/-! ### All trees -/

/-- **Nothing is silent**: where no fault is found, no part of a script, a configuration or a
constant stands for what could not be read, and all tokens of configurations and constants are taken
up by what is declared. -/
theorem nothing_silent (grammar : Grammar) (source : String) :
    (grammar.vocabulary = .scripts → grammar.scripts.2 = [] →
      ∀ script ∈ grammar.scripts.1, ∀ node, (Node.script script).Below node → ¬node.IsError) ∧
    ((readDeclarations source Config.parseFile).2 = [] →
      (∀ config ∈ (readDeclarations source Config.parseFile).1, ∀ node,
        (Node.config config).Below node → ¬node.IsError) ∧
      Consumed source Config.span (readDeclarations source Config.parseFile).1) ∧
    ((readDeclarations source Constant.parseFile).2 = [] →
      (∀ constant ∈ (readDeclarations source Constant.parseFile).1, ∀ node,
        (Node.constant constant).Below node → ¬node.IsError) ∧
      Consumed source Constant.span (readDeclarations source Constant.parseFile).1) := by
  have told {root node : Node} (sound : root.Sound ⟨fun _ => True, True, False⟩)
      (below : root.Below node) : ¬node.IsError := by
    have here := (Node.below_of_throughout sound below).1
    intro error
    cases node with
    | expr inner =>
      cases inner with
      | error => exact here
      | _ => exact error
    | value inner => exact here error
    | _ => exact error
  have strict : ¬(⟨fun _ => True, True, False⟩ : Terms).lenient := id
  refine ⟨fun words clean script member node below => ?_,
    fun clean => ⟨fun config member node below => ?_, ?_⟩,
    fun clean => ⟨fun constant member node below => ?_, ?_⟩⟩
  · have admits : grammar.Admits ⟨fun _ => True, True, False⟩ :=
      ⟨fun _ => words ▸ Vocabulary.scripts_plain, fun _ _ _ => trivial, fun _ _ _ => trivial⟩
    exact told (Grammar.scripts_sound member (.inr clean)) below
  · exact told (declarations_sound source (.inr clean) config member) below
  · exact consumed_of_clean strict source
      (fun bound => (Config.spends_parse (Nat.le_refl bound)).declares fun _ => rfl) clean
  · exact told (declarations_sound source (.inr clean) constant member) below
  · exact consumed_of_clean strict source
      (fun _ => Constant.spends_parse.declares fun _ => rfl) clean

theorem nothing_silent_at_constant :
    (readDeclarations "^a=1" Constant.parseFile).1.length = 1 ∧
      Consumed "^a=1" Constant.span (readDeclarations "^a=1" Constant.parseFile).1 := by
  have clean : (readDeclarations "^a=1" Constant.parseFile).2 = [] := by decide +kernel
  have silent := nothing_silent ⟨"", .scripts, fun _ => none, fun _ _ => false⟩ "^a=1"
  exact ⟨by decide +kernel, (silent.2.2 clean).2⟩

end TriggerScript
