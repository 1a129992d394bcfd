import TriggerScript.Compiler.Basic
import TriggerScript.Proofs.Parsing.Declarations
import TriggerScript.Proofs.Token.Succession

/-!
Declarations written one behind the other.

A passage is a text of whole lines that begins with a bracket. A reader of several passages reads
each of them like a reader of that passage alone (`junction` links the two) and goes on with the
next, whatever was at fault. The exception is a comma at the end of a passage of scripts: where
variables are listed, the reader takes whatever stands behind the comma, and that is the bracket of
the next passage.
-/

namespace TriggerScript

open List Cursor TriggerScript.Expr Grammar Lane Scanner TokenStream

/-! ### Passages -/

/-- The kinds of the tokens of a text up to its end, comments apart. -/
def Vocabulary.kinds (vocabulary : Vocabulary) (source : String) : List TokenKind :=
  ((Scanner.ofText vocabulary source 0).tokens.1.filter fun token => token.kind ≠ .comment).map
    Token.kind

/-- Whole lines that begin with a bracket, without lexical faults and annotations. -/
structure Passage (vocabulary : Vocabulary) (source : String) : Prop where
  lined : source.toList.getLast? = some '\n'
  clean : (Scanner.ofText vocabulary source 0).tokens.2.faults = []
  begins : (vocabulary.kinds source).head? = some .leftBracket
  unannotated : TokenKind.hash ∉ vocabulary.kinds source

/-- The last token of a passage is not of a certain kind. -/
def Vocabulary.EndsApart (vocabulary : Vocabulary) (kind : TokenKind) (source : String) : Prop :=
  ¬ [kind, .eof] <:+ vocabulary.kinds source

instance (vocabulary : Vocabulary) (source : String) : Decidable (Passage vocabulary source) :=
  decidable_of_iff (source.toList.getLast? = some '\n' ∧
      (ofText vocabulary source 0).tokens.2.faults = [] ∧
      (vocabulary.kinds source).head? = some .leftBracket ∧
      TokenKind.hash ∉ vocabulary.kinds source)
    ⟨fun ⟨lined, clean, begins, unannotated⟩ => ⟨lined, clean, begins, unannotated⟩,
      fun passage => ⟨passage.lined, passage.clean, passage.begins, passage.unannotated⟩⟩

instance (vocabulary : Vocabulary) (kind : TokenKind) (source : String) :
    Decidable (vocabulary.EndsApart kind source) :=
  inferInstanceAs (Decidable (¬ [kind, .eof] <:+ vocabulary.kinds source))

variable {vocabulary : Vocabulary} {source : String}

theorem Passage.tokens (passage : Passage vocabulary source) :
    ∃ count, (ofText vocabulary source 0).Holds count ∧
      vocabulary.kinds source =
        (List.range (count + 1)).map (fun index =>
          ((ofText vocabulary source 0).token index).kind) ∧
      ((ofText vocabulary source 0).token 0).kind = .leftBracket ∧
      ∀ index ≤ count, ((ofText vocabulary source 0).token index).kind ≠ .hash := by
  obtain ⟨count, holds, kept⟩ := holds_of_tokens passage.clean
  have kinds : vocabulary.kinds source =
      (List.range (count + 1)).map (fun index =>
        ((ofText vocabulary source 0).token index).kind) := by
    rw [Vocabulary.kinds, kept, map_map]
    rfl
  refine ⟨count, holds, kinds, ?_, fun index inside same => ?_⟩
  · have begins := passage.begins
    rw [kinds, range_succ_eq_map] at begins
    exact Option.some.inj begins
  · have unannotated := passage.unannotated
    rw [kinds] at unannotated
    exact unannotated (mem_map.mpr ⟨index, mem_range.mpr (Nat.lt_succ_of_le inside), same⟩)

theorem Vocabulary.EndsApart.last (apart : vocabulary.EndsApart kind source) {count : Nat}
    (finished : ((ofText vocabulary source 0).token (count + 1)).kind = .eof)
    (kinds : vocabulary.kinds source = (List.range (count + 1 + 1)).map
      (fun index => ((ofText vocabulary source 0).token index).kind)) :
    ((ofText vocabulary source 0).token count).kind ≠ kind := by
  intro same
  refine apart ?_
  rw [kinds, range_succ, range_succ, append_assoc, map_append]
  refine ⟨_, congrArg _ ?_⟩
  simp [same, finished]

/-! ### Junctions -/

/-- One reader stands in a passage, the other in a longer text that goes on behind it. -/
structure Junction (size distance : Nat) (following : Nat → Token) (last : TokenKind → Prop)
    (lane other : Lane) : Prop where
  within : lane.Within (fun _ => True) (· ≤ size)
  ordered : other.Ordered
  clean : lane.scanner.Clean
  clean' : other.scanner.Clean
  tokens : ∃ count,
    (∀ index < count, (lane.sight index).kind ≠ .eof ∧ (lane.sight index).kind ≠ .hash ∧
      other.sight index = (lane.sight index).move (distance + ·)) ∧
    (∀ index, index + 1 = count → last (lane.sight index).kind) ∧
    (lane.sight count).kind = .eof ∧ (∀ index, other.sight (count + index) = following index) ∧
    ((following 0).kind = .leftBracket ∨ following 0 = (lane.sight count).move (distance + ·))

namespace Junction

variable {size distance : Nat} {following : Nat → Token} {last : TokenKind → Prop}
  {lane other : Lane}

variable (junction : Junction size distance following last lane other)

include junction

theorem fill (count : Nat) :
    Junction size distance following last (lane.fill count) (other.fill count) where
  within := junction.within.fill count
  ordered := (weight_fill junction.ordered count).1
  clean := clean_fill junction.clean count
  clean' := clean_fill junction.clean' count
  tokens := by simpa only [sight_fill] using junction.tokens

theorem heads :
    (lane.sight 0).Within (fun _ => True)
    (· ≤ size) ∧ other.sight 0 = (lane.sight 0).move (distance + ·) ∨
      (lane.sight 0).kind = .eof ∧ (other.sight 0).kind = .leftBracket := by
  obtain ⟨count, same, -, finished, behind, going⟩ := junction.tokens
  cases count with
  | zero =>
    have here := behind 0
    rcases going with bracket | ended
    · exact .inr ⟨finished, here ▸ bracket⟩
    · exact .inl ⟨junction.within.sight, here.trans ended⟩
  | succ count => exact .inl ⟨junction.within.sight, (same 0 (Nat.succ_pos _)).2.2⟩

theorem take (unfinished : (lane.sight 0).kind ≠ .eof) :
    Junction size distance following last lane.take other.take := by
  have unfinished' : (other.sight 0).kind ≠ .eof := by
    rcases junction.heads with ⟨-, moved⟩ | ⟨finished, -⟩
    · rw [moved]
      exact unfinished
    · exact absurd finished unfinished
  refine ⟨junction.within.take, (weight_take junction.ordered unfinished').1,
    clean_take junction.clean, clean_take junction.clean', ?_⟩
  rw [sight_take unfinished, sight_take unfinished']
  obtain ⟨count, same, ending, finished, behind, going⟩ := junction.tokens
  cases count with
  | zero => exact absurd finished unfinished
  | succ count =>
    refine ⟨count, fun index inside => same (index + 1) (Nat.succ_lt_succ inside),
      fun index before => ending (index + 1) (congrArg Nat.succ before), finished, fun index =>
        ?_, going⟩
    rw [← behind index]
    exact congrArg other.sight (by omega)

theorem sight_of_end (finished : (lane.sight 0).kind = .eof) : other.sight = following := by
  obtain ⟨count, same, -, -, behind, -⟩ := junction.tokens
  cases count with
  | zero =>
    funext index
    rw [← behind index, Nat.zero_add]
  | succ count => exact absurd finished (same 0 (Nat.succ_pos _)).1

end Junction

/-- A passage, and a longer text in which it stands. -/
def junction (size distance : Nat) (following : Nat → Token) (last : TokenKind → Prop) : Link where
  move := (distance + ·)
  keeps _ := True
  ends := (· ≤ size)
  strict _ before := Nat.add_lt_add_left before distance
  border := Junction size distance following last
  fill_border count border := border.fill count
  take_border border unfinished := border.take unfinished
  head_border border := border.heads
  sound_border border :=
  ⟨⟨border.within.scanner.ordered, border.ordered⟩, border.clean 0, border.clean' 0⟩

section

variable {size distance : Nat} {following : Nat → Token} {last : TokenKind → Prop}

theorem unannotated_junction : (junction size distance following last).Unannotated := by
  intro lane other border
  obtain ⟨count, same, -, finished, -⟩ := Junction.tokens border
  cases count with
  | zero => exact finished ▸ by decide
  | succ count => exact (same 0 (Nat.succ_pos _)).2.1

/-- If a passage does not end with a comma, no reader steps over its end behind one. -/
theorem unbroken_junction : (junction size distance following (· ≠ .comma)).Unbroken := by
  intro lane other linked comma _
  rcases (linked.take (comma ▸ nofun)).heads with tokens | ⟨is_open, finished, -⟩
  · exact tokens.kind.symm
  · have border : Junction size distance following (· ≠ .comma) lane other :=
      linked.resolve_left fun apart => apart.1 is_open
    rw [sight_take (comma ▸ nofun)] at finished
    obtain ⟨count, same, ending, ended, -⟩ := border.tokens
    match count with
    | 0 => cases comma.symm.trans ended
    | 1 => exact absurd comma (ending 0 rfl)
    | count + 2 => exact absurd finished (same 1 (by omega)).1

end

/-! ### Joined passages -/

theorem Token.move_move (token : Token) (first second : Nat) :
    (token.move (first + ·)).move (second + ·) = token.move (second + first + ·) := by
  simp [Token.move, Span.move, Nat.add_assoc]

theorem Passage.lines (passage : Passage vocabulary source) :
    ∃ body, source.toList = body ++ ['\n'] :=
  getLast?_eq_some_iff.mp passage.lined

/-- A text that may stand behind a passage. -/
def Follows (vocabulary : Vocabulary) (source : String) : Prop :=
  source = "" ∨ ((Scanner.ofText vocabulary source 0).token 0).kind = .leftBracket

theorem Follows.unnumbered (follows : Follows vocabulary source) :
    ¬IsNumber ((ofText vocabulary source 0).token 0).kind := by
  rcases follows with rfl | bracket
  · rw [token_empty]
    simp [IsNumber]
  · simp [bracket, IsNumber]

/-- Joined passages have no lexical fault, and they may stand behind a passage. -/
theorem join_passages (endless : vocabulary.Endless)
    (all : ∀ passage ∈ passages, Passage vocabulary passage) :
    (ofText vocabulary (String.join passages) 0).Clean ∧
      Follows vocabulary (String.join passages) := by
  induction passages with
  | nil =>
    refine ⟨fun count => ?_, .inl rfl⟩
    rw [String.join_nil, after_empty]
    rfl
  | cons first rest ih =>
    obtain ⟨here, later⟩ := forall_mem_cons.mp all
    obtain ⟨clean, follows⟩ := ih later
    obtain ⟨count, holds, -, bracket, -⟩ := here.tokens
    obtain ⟨inside, -, joined⟩ := token_append endless here.lines holds follows.unnumbered
    rw [String.join_cons]
    refine ⟨joined clean, .inr ?_⟩
    cases count with
    | zero => cases bracket.symm.trans holds.finished
    | succ count => rw [inside 0 (Nat.succ_pos _), bracket]

/-- A reader that stands at the beginning of a passage in a longer text, and a reader of the passage
alone. -/
theorem Passage.junction (passage : Passage vocabulary source) (endless : vocabulary.Endless)
    {after : String} (follows : Follows vocabulary after) {last : TokenKind → Prop}
    (ending : ∀ kind, ¬last kind → vocabulary.EndsApart kind source) {other : Lane}
    (ordered : other.Ordered) (clean : other.scanner.Clean)
    (ahead : other.sight = fun index => ((ofText vocabulary (source ++ after) 0).token index).move
      (distance + ·)) :
    Junction source.utf8ByteSize distance
      (fun index => ((ofText vocabulary after 0).token index).move
        (distance + source.utf8ByteSize + ·)) last
      (Lane.start (ofText vocabulary source 0)) other := by
  obtain ⟨count, holds, kinds, -, unannotated⟩ := passage.tokens
  obtain ⟨inside, behind, -⟩ := token_append endless passage.lines holds follows.unnumbered
  have empty : Follows vocabulary "" := .inl rfl
  refine ⟨⟨within_of_text vocabulary source, forall_mem_nil _⟩, ordered, ?_, clean, count, ?_, ?_,
    ?_, ?_, ?_⟩
  · have alone := (token_append endless passage.lines holds empty.unnumbered).2.2
    rw [String.append_empty] at alone
    exact alone fun index => by rw [after_empty]; rfl
  · intro index before
    rw [sight_start, ahead]
    exact ⟨holds.unfinished index before, unannotated index (Nat.le_of_lt before),
      congrArg _ (inside index before)⟩
  · rintro index rfl
    rw [sight_start]
    by_contra apart
    exact (ending _ apart).last holds.finished kinds rfl
  · rw [sight_start]
    exact holds.finished
  · intro index
    rw [ahead]
    exact (congrArg _ (behind index)).trans (Token.move_move ..)
  · rcases follows with rfl | bracket
    · rw [sight_start, token_of_end endless passage.lines holds, Token.move_move]
      exact .inr rfl
    · exact .inl bracket

/-! ### Reading on -/

namespace Parse

variable {α β : Type}

/-- The range around a phrase does not change what is read. -/
def Blind (phrase : Parse α) : Prop := ∀ (cursor : Cursor) (range : Span), ∃ around,
  phrase { cursor with range } = ((phrase cursor).1, { (phrase cursor).2 with range := around })

theorem blind_ranged (phrase : Parse α) (build : α × Span → β) :
    Blind (phrase.ranged >>= fun value => pure (build value)) := by
  intro cursor range
  simp only [bind_apply, ranged]
  rcases phrase { cursor with range := Span.empty } with ⟨_ | _ | _, behind⟩
  · exact ⟨_, rfl⟩
  · exact ⟨_, rfl⟩
  · exact ⟨_, rfl⟩

theorem Blind.bind {next : α → Parse β} (blind : Blind phrase)
    (later : ∀ value, Blind (next value)) :
    Blind (phrase >>= next) := by
  intro cursor range
  obtain ⟨around, same⟩ := blind cursor range
  rw [bind_apply, bind_apply, same]
  rcases phrase cursor with ⟨value | _ | _, behind⟩
  · exact later value behind around
  · exact ⟨around, rfl⟩
  · exact ⟨around, rfl⟩

theorem blind_skip_until (kinds : List TokenKind) (bound : Nat) :
    Blind (skipUntil kinds bound) := by
  induction bound with
  | zero => exact fun cursor range => ⟨range, rfl⟩
  | succ bound ih =>
    intro cursor range
    rw [skip_until_succ, skip_until_succ]
    have head : Cursor.head { cursor with range } = cursor.head := rfl
    rw [head]
    split
    · exact ⟨range, rfl⟩
    · exact ih { cursor.fill 0 with stream := (cursor.fill 0).stream.take.2 } range

theorem Blind.declarations (blind : Blind phrase) (kinds : List TokenKind) (bound rounds : Nat) :
    Blind (Parse.declarations phrase (skipUntil kinds bound) rounds) := by
  induction rounds with
  | zero => exact fun cursor range => ⟨range, rfl⟩
  | succ rounds ih =>
    intro cursor range
    have head : Cursor.head { cursor with range } = cursor.head := rfl
    have filled : Cursor.fill { cursor with range } 0 = { cursor.fill 0 with range } := rfl
    rw [declarations_succ, declarations_succ, head, filled]
    split
    · exact ⟨range, rfl⟩
    · obtain ⟨around, same⟩ := blind (cursor.fill 0) range
      rw [same]
      rcases phrase (cursor.fill 0) with ⟨value | fault | _, behind⟩
      · obtain ⟨around, later⟩ := ih behind around
        refine ⟨around, ?_⟩
        simp only
        rw [later]
        rcases Parse.declarations phrase (skipUntil kinds bound) rounds behind with ⟨_ | _ | _,
          _⟩ <;> rfl
      · have recovers := (blind_skip_until kinds bound).bind fun _ => ih
        exact recovers { behind with faults := behind.faults ++ [fault] } around
      · exact ⟨around, rfl⟩

end Parse

section

variable {α : Type} (vocabulary : Vocabulary) (kinds : List TokenKind) (last : TokenKind → Prop)
  (image : α → α)
  (phrase : String → Nat → Parse α)

/-- A passage is read alike on its own and in a longer text. -/
def ReadsAlike (heads : TokenKind → TokenKind → Prop) (pace : Link.Pace) : Prop :=
  ∀ (before source after : String) following (bound : Nat × Nat),
    (junction source.utf8ByteSize before.utf8ByteSize following last).Lockstep heads pace
      (bound + 1)
      (fun value value' => image value = image value') (phrase source (bound.1 + 1))
      (phrase (before ++ (source ++ after)) (bound.2 + 1))

/-- A kind of declarations that are read passage by passage. -/
structure Regular : Prop where
  endless : vocabulary.Endless
  bracket : TokenKind.leftBracket ∈ kinds
  blind : ∀ source bound, (phrase source bound).Blind
  refuses : ∀ source bound, Link.Refuses kinds (phrase source (bound + 1))
  alike : ReadsAlike last image phrase Link.Together .found
  sure : ∀ kind ∈ kinds, ReadsAlike last image phrase (Link.At kind) .always

/-- The declarations of a text and the faults found in it. -/
def readAll (source : String) : List α × List Diagnostic :=
  match Parse.declarations (phrase source (enoughRounds source))
    (Parse.skipUntil kinds (enoughRounds source))
      (enoughRounds source) (Cursor.start (TokenStream.ofText vocabulary source)) with
  | (.found declared, behind) => (declared, behind.finish)
  | (_, behind) => ([], behind.finish)

end

/-- The tokens of a text are ahead of the reader, and nothing is around it or at fault in it. -/
structure Cursor.Awaits (vocabulary : Vocabulary) (source : String) (distance : Nat)
    (cursor : Cursor) : Prop where
  ordered : cursor.stream.active.Ordered
  clean : cursor.stream.active.scanner.Clean
  ahead : cursor.stream.active.sight = fun index =>
    ((ofText vocabulary source 0).token index).move (distance + ·)
  alone : cursor.stream.suspended = []

/-- The number of faults noted so far, those of the active text apart. -/
def Cursor.noted (cursor : Cursor) : Nat := cursor.stream.faults.length + cursor.faults.length

theorem Diagnostic.length_sorted (faults : List Diagnostic) :
    (sorted faults).length = faults.length :=
  length_mergeSort _

theorem Cursor.length_finish {cursor : Cursor} (alone : cursor.stream.suspended = [])
    (clean : cursor.stream.active.scanner.faults = []) : cursor.finish.length = cursor.noted := by
  rw [finish_eq alone, clean, append_nil, Diagnostic.length_sorted, List.length_append,
    Diagnostic.length_sorted]
  rfl

theorem Link.Advance.noted {link : Link} {after : Cursor}
    (advance : link.Advance cost before before' after after') :
    after'.noted + before.noted = before'.noted + after.noted := by
  obtain ⟨new, new', added, added', same⟩ := advance.closed
  obtain ⟨more, more', reported, reported', same'⟩ := advance.reported
  simp only [Cursor.noted, added, added', reported, reported', List.length_append, same.length_eq,
    same'.length_eq]
  omega

namespace Regular

variable {α : Type} {kinds : List TokenKind} {last : TokenKind → Prop} {image : α → α}
  {phrase : String → Nat → Parse α}

variable (regular : Regular vocabulary kinds last image phrase)

include regular

theorem passage {before after : String} (passage : Passage vocabulary source)
    (ending : ∀ kind, ¬last kind → vocabulary.EndsApart kind source)
    (follows : Follows vocabulary after) {cursor : Cursor}
    (awaits : cursor.Awaits vocabulary (source ++ after) before.utf8ByteSize)
    (fits : cursor.weight < bound + 1) (enough : cursor.weight < rounds) :
    ∃ values behind left,
      Parse.declarations (phrase (before ++ (source ++ after)) (bound + 1))
        (Parse.skipUntil kinds (bound + 1)) rounds
          cursor.fresh = Link.prepend values
        (Parse.declarations (phrase (before ++ (source ++ after)) (bound + 1))
          (Parse.skipUntil kinds (bound + 1)) left
          behind) ∧ values.map image = (readAll vocabulary kinds phrase source).1.map image ∧
      behind.noted = cursor.noted + (readAll vocabulary kinds phrase source).2.length ∧
      behind.Awaits vocabulary after (before.utf8ByteSize + source.utf8ByteSize) ∧
      behind.weight ≤ cursor.weight ∧
      behind.weight < left := by
  have border :=
    passage.junction regular.endless follows ending awaits.ordered awaits.clean awaits.ahead
  generalize going : (fun index => ((ofText vocabulary after 0).token index).move
    (before.utf8ByteSize + source.utf8ByteSize + ·)) = following at border
  have linked : (junction source.utf8ByteSize before.utf8ByteSize following last).Cursors
      (junction source.utf8ByteSize before.utf8ByteSize following last).Ranges
      (start (ofText vocabulary source)) cursor.fresh := ⟨.inr border, Link.ranges_empty⟩
  have short := weight_lt_rounds vocabulary source
  obtain ⟨room, some_rounds⟩ := Nat.exists_eq_add_one_of_ne_zero (Nat.ne_zero_of_lt short)
  have own : (start (ofText vocabulary source)).weight < room + 1 :=
    some_rounds ▸ Nat.lt_of_succ_lt short
  have light : Link.Light (room + 1, bound + 1) (start (ofText vocabulary source)) cursor.fresh :=
    ⟨own, fits⟩
  have enough : Link.Light (room + 1, rounds) (start (ofText vocabulary source)) cursor.fresh :=
    ⟨own, enough⟩
  obtain ⟨values, behind, values', behind', left, read, read', same, ends, advance, finished, -,
    some_left⟩ :=
    Link.declarations_alike (fun kind begins =>
      regular.sure kind begins before source after following (room, bound))
      (regular.refuses source room) (regular.refuses _ bound) (fun _ => regular.bracket) linked
      light light
      (regular.alike before source after following (room, bound)) enough
  dsimp only at read read'
  have met : Junction source.utf8ByteSize before.utf8ByteSize following last behind.stream.active
      behind'.stream.active :=
    ends.active.resolve_left fun apart => apart.1 ⟨_, _, border⟩
  have found : readAll vocabulary kinds phrase source = (values, behind.finish) := by
    rw [readAll, some_rounds, read]
  have counted := advance.noted
  rw [found, length_finish advance.left.suspended (met.clean 0)]
  refine ⟨values', behind', left, read', (map_eq_of_forall₂ same).symm, ?_,
    ⟨met.ordered, met.clean', (met.sight_of_end finished).trans going.symm,
      advance.right.suspended.trans awaits.alone⟩, advance.right.lighter, some_left⟩
  have started : (start (ofText vocabulary source)).noted = 0 := rfl
  have fresh : cursor.fresh.noted = cursor.noted := rfl
  omega

theorem joined {passages : List String}
    (all : ∀ passage ∈ passages, Passage vocabulary passage ∧ ∀ kind, ¬last kind →
      vocabulary.EndsApart kind passage)
    {before : String} {cursor : Cursor}
    (awaits : cursor.Awaits vocabulary (String.join passages) before.utf8ByteSize)
    {bound rounds : Nat} (fits : cursor.weight < bound + 1) (enough : cursor.weight < rounds) :
    ∃ values behind,
      Parse.declarations (phrase (before ++ String.join passages) (bound + 1))
        (Parse.skipUntil kinds (bound + 1))
        rounds cursor = (.found values, behind) ∧
      values.map image = passages.flatMap
        (fun passage => (readAll vocabulary kinds phrase passage).1.map image) ∧
      behind.noted = cursor.noted +
        (passages.map fun passage => (readAll vocabulary kinds phrase passage).2.length).sum ∧
      behind.stream.suspended = [] ∧ behind.stream.active.scanner.faults = [] := by
  induction passages generalizing before cursor rounds with
  | nil =>
    obtain ⟨rounds, rfl⟩ := Nat.exists_eq_add_one_of_ne_zero (Nat.ne_zero_of_lt enough)
    have finished : cursor.head.kind = .eof := by
      rw [Cursor.head, awaits.ahead]
      exact congrArg Token.kind (token_empty vocabulary 0)
    refine ⟨[], cursor.fill 0, Parse.declarations_finished finished, rfl, ?_, ?_, ?_⟩
    · simp [Cursor.noted, Cursor.fill]
    · simpa [Cursor.fill] using awaits.alone
    · have silent : (cursor.stream.active.fill 0).scanner.faults = [] := clean_fill awaits.clean 0 0
      simpa [Cursor.fill] using silent
  | cons first rest ih =>
    obtain ⟨here, later⟩ := forall_mem_cons.mp all
    have follows := (join_passages regular.endless fun passage member => (later passage member).1).2
    rw [String.join_cons] at awaits ⊢
    obtain ⟨values, behind, left, read, found, counted, awaits, lighter, enough⟩ :=
      regular.passage here.1 here.2 follows awaits fits enough
    rw [← String.utf8ByteSize_append] at awaits
    obtain ⟨values', last, read', found', counted', alone, clean⟩ :=
      ih later awaits (Nat.lt_of_le_of_lt lighter fits) enough
    -- Where the range of the declarations before ends makes no difference.
    obtain ⟨around, same⟩ :=
      ((regular.blind (before ++ (first ++ String.join rest)) (bound + 1)).declarations kinds
      (bound + 1) rounds) cursor.fresh cursor.range
    rw [String.append_assoc] at read'
    rw [read, read', Link.prepend] at same
    refine ⟨values ++ values', { last with range := around }, same, ?_, ?_, alone, clean⟩
    · rw [map_append, found, found', flatMap_cons]
    · have same : Cursor.noted { last with range := around } = last.noted := rfl
      rw [same, counted', counted, map_cons, sum_cons, Nat.add_assoc]

/-- The declarations of joined passages are those of the passages, and so are the faults,
counted. -/
theorem read_join
    (all : ∀ passage ∈ passages, Passage vocabulary passage ∧ ∀ kind, ¬last kind →
      vocabulary.EndsApart kind passage) :
    (readAll vocabulary kinds phrase (String.join passages)).1.map image =
        passages.flatMap (fun passage => (readAll vocabulary kinds phrase passage).1.map image) ∧
      (readAll vocabulary kinds phrase (String.join passages)).2.length =
        (passages.map fun passage => (readAll vocabulary kinds phrase passage).2.length).sum := by
  have short := weight_lt_rounds vocabulary (String.join passages)
  obtain ⟨room, some_rounds⟩ := Nat.exists_eq_add_one_of_ne_zero (Nat.ne_zero_of_lt short)
  have own : (start (ofText vocabulary (String.join passages))).weight < room + 1 :=
    some_rounds ▸ Nat.lt_of_succ_lt short
  have awaits : (start (ofText vocabulary (String.join passages))).Awaits vocabulary
    (String.join passages)
      ("" : String).utf8ByteSize := by
    refine ⟨(within_of_text vocabulary _).ordered,
      (join_passages regular.endless fun passage member => (all passage member).1).1, ?_, rfl⟩
    funext index
    exact (congrFun (sight_start _) index).trans (by simp [Token.move, Span.move])
  obtain ⟨values, behind, read, found, counted, alone, silent⟩ := regular.joined all awaits own own
  rw [String.empty_append] at read
  rw [readAll, some_rounds, read]
  exact ⟨found, by rw [length_finish alone silent, counted]; exact Nat.zero_add _⟩

end Regular

/-! ### Hooks in passages -/

section

variable {before after : String}

theorem cut_append (inside : offset ≤ source.utf8ByteSize) :
    Cut (before ++ (source ++ after)).toList (before.utf8ByteSize + offset) ↔
      Cut source.toList offset := by
  simp only [String.toList_append, utf8_size_eq] at inside ⊢
  constructor
  · rintro ⟨first, rest, split, place⟩
    obtain ⟨content, rfl, left⟩ := append_of_total_le split (by omega)
    rw [total_append, Nat.add_left_cancel_iff] at place
    obtain ⟨more, kept, -⟩ := append_of_total_le left.symm (by omega)
    exact ⟨content, more, kept, place⟩
  · rintro ⟨first, rest, split, place⟩
    exact ⟨before.toList ++ first, rest ++ after.toList,
      by simp [split], by rw [total_append, place]⟩

theorem slice_append {start stop : Nat} (inside : stop ≤ source.utf8ByteSize) :
    slice (before ++ (source ++ after)) ⟨before.utf8ByteSize + start, before.utf8ByteSize + stop⟩ =
      (slice source ⟨start, stop⟩).map (List.map (Placed.move (before.utf8ByteSize + ·))) := by
  cases cut : slice source ⟨start, stop⟩ with
  | some raw =>
    obtain ⟨first, content, rest, split, starts, stops, rfl⟩ := slice_eq_some cut
    dsimp only at starts stops
    have whole : (before ++ (source ++ after)).toList =
        (before.toList ++ first) ++ (content ++ (rest ++ after.toList)) := by simp [split]
    have known := slice_of_append whole
    rw [total_append, ← utf8_size_eq, ← starts, Nat.add_assoc, ← stops] at known
    rw [known, Placed.of_list_move, Option.map_some]
  | none =>
    rw [Option.map_none]
    by_cases le : start ≤ stop
    · by_contra some_cut
      have cuts := (slice_ne_none (Nat.add_le_add_left le _)).mp some_cut
      rw [cut_append (Nat.le_trans le inside), cut_append inside] at cuts
      exact (slice_ne_none le).mpr cuts cut
    · unfold slice
      rw [if_neg]
      simp [le]

variable {grammar grammar' : Grammar} {token : Token}

theorem hook_text_append (whole : grammar'.source = before ++ (grammar.source ++ after))
    (spelled : grammar'.vocabulary = grammar.vocabulary)
    (inside : token.span.stop ≤ grammar.source.utf8ByteSize) :
    hookText grammar' (token.move (before.utf8ByteSize + ·)) =
      (hookText grammar token).move (before.utf8ByteSize + ·) := by
  have raw : hookRaw grammar' (token.move (before.utf8ByteSize + ·)) =
      (hookRaw grammar token).map (Placed.move (before.utf8ByteSize + ·)) := by
    have cut : (slice grammar'.source ⟨before.utf8ByteSize + token.span.start + 1,
          before.utf8ByteSize + token.span.stop⟩).getD [] =
        ((slice grammar.source ⟨token.span.start + 1, token.span.stop⟩).getD []).map
          (Placed.move (before.utf8ByteSize + ·)) := by
      rw [whole, Nat.add_assoc, slice_append inside]
      cases slice grammar.source ⟨token.span.start + 1, token.span.stop⟩ <;> rfl
    simp only [hookRaw, Token.move, Span.move, cut, getLast?_map, Option.map_map, ← map_dropLast]
    exact ite_eq_map Iff.rfl _ (fun _ => rfl) fun _ => rfl
  have size : ∀ content : List Placed,
      total (fun placed => placed.char.utf8Size)
        (content.map (Placed.move (before.utf8ByteSize + ·))) =
        total (fun placed => placed.char.utf8Size) content := fun content => by
    induction content with
    | nil => rfl
    | cons first rest ih => rw [map_cons, total_cons, total_cons, ih]; rfl
  rw [hook_text_eq, hook_text_eq, raw, decode_body_move, size, spelled]
  simp only [Scanner.ofPlaced, Scanner.move, Token.move, Span.move, Nat.add_assoc]
  rfl

variable (grammar) in
theorem within_hook_text (is_string : token.kind = .string)
    (inside : token.span.stop ≤ grammar.source.utf8ByteSize) :
    (hookText grammar token).Within (fun _ => True) (· ≤ grammar.source.utf8ByteSize) := by
  have ordered := (weight_hook_text grammar token is_string).1
  obtain ⟨chars, raw, short⟩ := hook_raw_eq grammar token
  have stops : (hookText grammar token).rest ≠ [] →
    (hookText grammar token).stop ≤ grammar.source.utf8ByteSize := by
    intro filled
    have some_chars : chars ≠ [] := by
      rintro rfl
      rw [hook_text_eq, raw] at filled
      exact filled rfl
    have wide := total_pos some_chars
    rw [hook_text_eq, raw, Placed.size_of_list]
    rw [Span.length] at short
    simp only [Scanner.ofPlaced]
    omega
  refine ⟨rfl, ordered, fun placed member => ⟨trivial, ?_⟩, trivial, stops, ?_, forall_mem_nil _⟩
  · exact Nat.le_trans (Nat.le_of_lt (ordered.bounded placed member)) (stops (ne_nil_of_mem member))
  · intro pending aside
    cases aside

theorem shares_junction (symbols : SymbolTable) (following : Nat → Token)
    (last : TokenKind → Prop) :
    (junction source.utf8ByteSize before.utf8ByteSize following last).Shares
      (ofTables source .builtin symbols)
      (ofTables (before ++ (source ++ after)) .builtin symbols) where
  calls := rfl
  hooks := rfl
  texts name index hooked token token' tokens is_string text := by
    have inside : token.span.stop ≤ source.utf8ByteSize := tokens.1.whole text
    refine .inl ⟨Link.not_open_inside,
      ⟨within_hook_text (.ofTables source .builtin symbols) is_string inside, forall_mem_nil _⟩, ?_⟩
    rw [tokens.2]
    exact congrArg Lane.start (hook_text_append rfl rfl inside)
  border _ := ⟨rfl, rfl⟩

end

/-! ### Recovery -/

theorem regular_scripts (symbols : SymbolTable) :
    Regular .scripts [.leftBracket, .hash] (· ≠ .comma) Script.unplaced
      fun source => Script.parse (ofTables source .builtin symbols) where
  endless := Vocabulary.scripts_endless
  bracket := by decide
  blind _ _ := Parse.blind_ranged _ _
  refuses source := Script.parse_refuses (ofTables source .builtin symbols)
  alike _ _ _ following _ :=
    Script.parse_alike (shares_junction symbols following _) unbroken_junction unannotated_junction
  sure _ begins _ _ _ following _ :=
    Script.parse_sure (shares_junction symbols following _) unbroken_junction unannotated_junction
      begins

theorem regular_configs :
    Regular .configs [.leftBracket] (fun _ => True) Config.unplaced fun _ => Config.parse where
  endless := Vocabulary.configs_endless
  bracket := by decide
  blind _ _ := Parse.blind_ranged _ _
  refuses _ bound := Config.parse_refuses (bound + 1)
  alike _ _ _ _ _ := Config.parse_alike
  sure kind begins _ _ _ _ _ := by
    obtain rfl := mem_singleton.mp begins
    exact Config.parse_sure

theorem scripts_eq_read_all (source : String) (symbols : SymbolTable) :
    (ofTables source .builtin symbols).scripts = readAll .scripts [.leftBracket, .hash]
      (fun source => Script.parse (ofTables source .builtin symbols)) source := by
  have same : (ofTables source .builtin symbols).source = source ∧
      (ofTables source .builtin symbols).start = start (ofText .scripts source) := ⟨rfl, rfl⟩
  rw [scripts, Script.parseFile, readAll, same.1, same.2]
  rcases Parse.declarations _ _ _ (start (ofText .scripts source)) with ⟨_ | _ | _, _⟩ <;> rfl

/-- Recovery is local: joined passages give the declarations of each passage alone, up to their
places, and as many faults as all the passages. A passage of scripts must not end with a comma. -/
theorem read_passages (symbols : SymbolTable) (passages : List String) :
    ((∀ passage ∈ passages, Passage .scripts passage ∧
      Vocabulary.scripts.EndsApart .comma passage) →
      (Grammar.ofTables (String.join passages) .builtin symbols).scripts.1.map Script.unplaced =
          passages.flatMap (fun passage => (Grammar.ofTables passage .builtin symbols).scripts.1.map
            Script.unplaced) ∧
        (Grammar.ofTables (String.join passages) .builtin symbols).scripts.2.length =
          (passages.map fun passage =>
            (Grammar.ofTables passage .builtin symbols).scripts.2.length).sum) ∧
    ((∀ passage ∈ passages, Passage .configs passage) →
      (readDeclarations (String.join passages) Config.parseFile).1.map Config.unplaced =
          passages.flatMap (fun passage => (readDeclarations passage Config.parseFile).1.map
            Config.unplaced) ∧
        (readDeclarations (String.join passages) Config.parseFile).2.length =
          (passages.map fun passage =>
            (readDeclarations passage Config.parseFile).2.length).sum) := by
  constructor
  · intro all
    simp only [scripts_eq_read_all]
    refine (regular_scripts symbols).read_join fun passage member =>
      ⟨(all passage member).1, fun kind comma => ?_⟩
    rw [not_not.mp comma]
    exact (all passage member).2
  · intro all
    exact regular_configs.read_join fun passage member =>
      ⟨all passage member, fun _ never => absurd trivial never⟩

/-- A script and a configuration that break off, and what follows them. -/
theorem read_behind_broken :
    (Grammar.ofTables (String.join ["[proc,f]() if (\n", "[proc,g]() $a, $b = 1, 2; // done\n"])
      .builtin
        .empty).scripts.1.map Script.unplaced =
      ["[proc,f]() if (\n", "[proc,g]() $a, $b = 1, 2; // done\n"].flatMap (fun passage =>
        (Grammar.ofTables passage .builtin .empty).scripts.1.map Script.unplaced) ∧
    (readDeclarations (String.join ["[a]\nb=\n", "[c]\nd=1\n"]) Config.parseFile).2.length =
      (["[a]\nb=\n", "[c]\nd=1\n"].map fun passage =>
        (readDeclarations passage Config.parseFile).2.length).sum :=
  ⟨((read_passages .empty _).1 (by decide +kernel)).1,
    ((read_passages .empty _).2 (by decide +kernel)).2⟩

/-- Behind a comma in a list of variables whatever follows is taken, and so the script in the next
passage is lost. -/
theorem script_lost_behind_comma :
    Passage .scripts "[proc,f]() $a,\n" ∧ Passage .scripts "[proc,g]()\n" ∧
      (Grammar.ofTables "[proc,f]() $a,\n" .builtin .empty).scripts.1.length = 0 ∧
      (Grammar.ofTables "[proc,g]()\n" .builtin .empty).scripts.1.length = 1 ∧
      (Grammar.ofTables "[proc,f]() $a,\n[proc,g]()\n" .builtin .empty).scripts.1.length = 0 := by
  decide +kernel

end TriggerScript
