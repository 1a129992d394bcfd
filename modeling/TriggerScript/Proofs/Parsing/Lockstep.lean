import TriggerScript.Proofs.Parsing.Hooks

/-!
Two texts read side by side.

A `Link` says how the tokens of two texts correspond. The first text may end where the second goes
on with another declaration, at the border. `Lockstep` says that two phrases, started at
corresponding places, find what is related or are both rejected, and that neither runs out of
rounds: a phrase has `room` for as much as it may read. One rule for each way to put phrases
together derives this for a phrase from its parts.
-/

namespace TriggerScript

open Cursor Parse TokenStream

/-! ### Links -/

/-- How two texts correspond. -/
structure Link extends Relocation where
  /-- The texts are read alike up to the end of the first, where the second goes on with a
  bracket. -/
  border : Lane → Lane → Prop
  fill_border : ∀ {lane other : Lane} (count : Nat), border lane other →
    border (lane.fill count) (other.fill count)
  take_border : ∀ {lane other : Lane}, border lane other → (lane.sight 0).kind ≠ .eof →
    border lane.take other.take
  head_border : ∀ {lane other : Lane}, border lane other →
    (lane.sight 0).Within keeps ends ∧ other.sight 0 = (lane.sight 0).move move ∨
      (lane.sight 0).kind = .eof ∧ (other.sight 0).kind = .leftBracket
  sound_border : ∀ {lane other : Lane}, border lane other →
    (lane.Ordered ∧ other.Ordered) ∧ lane.scanner.faults = [] ∧ other.scanner.faults = []

namespace Link

variable {link : Link} {lane other : Lane} {token token' : Token} {span span' : Span}

def Tokens (link : Link) (token token' : Token) : Prop :=
  token.Within link.keeps link.ends ∧ token' = token.move link.move

def Places (link : Link) (span span' : Span) : Prop :=
  span.Within link.keeps ∧ span' = span.move link.move

/-- Ranges of phrases. One that no token has widened stands at no place. -/
def Ranges (link : Link) (span span' : Span) : Prop :=
  span.isEmpty ∧ span'.isEmpty ∨ link.Places span span'

/-- The first text ends before the second. -/
def IsOpen (link : Link) : Prop := ∃ lane other, link.border lane other

/-- Texts at corresponding places. If the first ends before the second, the border says how they
correspond. -/
def Lanes (link : Link) (lane other : Lane) : Prop :=
  (¬ link.IsOpen ∧ lane.Within link.keeps link.ends ∧ other = lane.move link.move) ∨
    link.border lane other

/-- Faults with one cause at corresponding places. At a border there is one fault for each other. -/
def Faults (link : Link) (fault fault' : Diagnostic) : Prop :=
  link.Places fault.span fault'.span ∧ fault'.fault = fault.fault ∨ link.IsOpen

/-- Tokens that correspond, or what the texts go on with at a border. -/
def Meets (link : Link) (token token' : Token) : Prop :=
  link.Tokens token token' ∨ link.IsOpen ∧ token.kind = .eof ∧ token'.kind = .leftBracket

theorem Tokens.kind (same : link.Tokens token token') : token'.kind = token.kind := by
  rw [same.2]; rfl

theorem Tokens.text (same : link.Tokens token token') : token'.text = token.text := by
  rw [same.2]; rfl

theorem Tokens.places (same : link.Tokens token token') : link.Places token.span token'.span :=
  ⟨same.1.span, by rw [same.2]; rfl⟩

theorem Places.fault (same : link.Places span span') (cause : Fault) :
    link.Faults ⟨cause, span⟩ ⟨cause, span'⟩ :=
  .inl ⟨same, rfl⟩

section

variable (linked : link.Lanes lane other)

include linked

theorem Lanes.ordered : lane.Ordered ∧ other.Ordered := by
  rcases linked with ⟨closed, within, rfl⟩ | border
  · exact ⟨within.scanner.ordered, within.scanner.ordered_move link.toRelocation⟩
  · exact (link.sound_border border).1

theorem Lanes.fill (count : Nat) : link.Lanes (lane.fill count) (other.fill count) := by
  rcases linked with ⟨closed, within, rfl⟩ | border
  · exact .inl ⟨closed, within.fill count, Lane.fill_move link.move within count⟩
  · exact .inr (link.fill_border count border)

theorem Lanes.heads : link.Meets (lane.sight 0) (other.sight 0) := by
  rcases linked with ⟨closed, within, rfl⟩ | border
  · exact .inl ⟨within.sight, Lane.sight_move link.move within 0⟩
  · exact (link.head_border border).imp id fun apart => ⟨⟨lane, other, border⟩, apart⟩

theorem Lanes.take (unfinished : (lane.sight 0).kind ≠ .eof) : link.Lanes lane.take other.take := by
  rcases linked with ⟨closed, within, rfl⟩ | border
  · exact .inl ⟨closed, within.take, Lane.take_move link.move within⟩
  · exact .inr (link.take_border border unfinished)

theorem Lanes.heads_at (unfinished : ∀ before < count, (lane.sight before).kind ≠ .eof) :
    link.Meets (lane.sight count) (other.sight count) := by
  induction count generalizing lane other with
  | zero => exact linked.heads
  | succ count ih =>
    have first : (lane.sight 0).kind ≠ .eof := unfinished 0 (Nat.succ_pos _)
    have first' : (other.sight 0).kind ≠ .eof := by
      rcases linked.heads with tokens | ⟨-, finished, -⟩
      · rwa [tokens.kind]
      · exact absurd finished first
    have later := ih (linked.take first)
    rw [Lane.sight_take first, Lane.sight_take first'] at later
    exact later fun before less => unfinished (before + 1) (Nat.succ_lt_succ less)

theorem Lanes.faults : List.Forall₂ link.Faults lane.scanner.faults other.scanner.faults := by
  rcases linked with ⟨closed, within, rfl⟩ | border
  · exact List.forall₂_map_right_iff.mpr (List.forall₂_same.mpr fun fault member =>
      .inl ⟨⟨within.scanner.faults fault member, rfl⟩, rfl⟩)
  · rw [(link.sound_border border).2.1, (link.sound_border border).2.2]
    exact .nil

end

/-! ### Ranges of phrases -/

theorem ranges_empty : link.Ranges Span.empty Span.empty := .inl ⟨rfl, rfl⟩

theorem Places.is_empty (same : link.Places span span') : span'.isEmpty = span.isEmpty := by
  rw [same.2]
  exact Relocation.is_empty_move same.1

theorem Places.merge (same : link.Places span span') (later : link.Places more more') :
    link.Places (span.merge more) (span'.merge more') := by
  rw [same.2, later.2]
  obtain ⟨within, moved⟩ := Relocation.merge_move same.1 later.1
  exact ⟨within, moved⟩

theorem Ranges.merge (same : link.Ranges span span') (later : link.Ranges more more') :
    link.Ranges (span.merge more) (span'.merge more') := by
  rcases later with ⟨empty, empty'⟩ | later
  · rwa [Span.merge, if_pos empty, Span.merge, if_pos empty']
  · rcases same with ⟨empty, empty'⟩ | same
    · rw [Span.merge, Span.merge, later.is_empty, if_pos empty, if_pos empty']
      split
      · exact .inl ⟨empty, empty'⟩
      · exact .inr later
    · exact .inr (same.merge later)

/-- A range that a token has widened. -/
def Widened (link : Link) (span span' : Span) : Prop :=
  span.isEmpty = false ∧ link.Places span span'

/-- A relation of ranges that is kept while the phrase goes on. -/
structure Steady (link : Link) (range : Span → Span → Prop) : Prop where
  ranges : ∀ {span span' : Span}, range span span' → link.Ranges span span'
  merge : ∀ {span span' more more' : Span}, range span span' → link.Ranges more more' →
    range (span.merge more) (span'.merge more')

theorem steady_ranges : link.Steady link.Ranges := ⟨id, Ranges.merge⟩

theorem steady_widened : link.Steady link.Widened := by
  refine ⟨fun widened => .inr widened.2, fun {span span' more more'} widened later => ?_⟩
  obtain ⟨wide, same⟩ := widened
  have wide' : span'.isEmpty = false := same.is_empty.trans wide
  rcases later with ⟨empty, empty'⟩ | later
  · rw [Span.merge, if_pos empty, Span.merge, if_pos empty']
    exact ⟨wide, same⟩
  · refine ⟨?_, same.merge later⟩
    rw [Span.merge, wide]
    split
    · exact wide
    · rename_i filled
      simp only [Span.isEmpty, decide_eq_true_eq, decide_eq_false_iff_not] at wide filled ⊢
      simp only [Bool.false_eq_true, if_false]
      omega

end Link

/-! ### Cursors -/

namespace Cursor

variable (cursor : Cursor)

def head : Token := cursor.stream.active.sight 0

def fill (count : Nat) : Cursor := { cursor with stream := cursor.stream.fill count }

def taken : Cursor :=
  { cursor with stream := cursor.stream.take.2, range := cursor.range.merge cursor.head.span }

def fresh : Cursor := { cursor with range := Span.empty }

def weight : Nat := cursor.stream.active.weight

@[simp] theorem head_fill (count : Nat) : (cursor.fill count).head = cursor.head := by
  simp [head, fill]

theorem sight_taken {cursor : Cursor} (unfinished : cursor.head.kind ≠ .eof) (count : Nat) :
    ((cursor.fill count).taken.stream.active.sight) = fun count =>
      cursor.stream.active.sight (count + 1) := by
  have ahead : ((cursor.fill count).stream.active.sight 0).kind ≠ .eof := by
    rwa [fill, active_fill, Lane.sight_fill]
  rw [taken, (cursor.fill count).stream.take_eq.2.1, Lane.sight_take ahead, fill, active_fill,
    Lane.sight_fill]

/-- The end of a text is never used up. -/
theorem taken_of_finished {cursor : Cursor} (finished : cursor.head.kind = .eof) :
    cursor.taken = { cursor.fill 0 with range := cursor.range.merge cursor.head.span } := by
  obtain ⟨ahead, split⟩ := cursor.stream.active.head_fill
  have stays : cursor.stream.take.2 = cursor.stream.fill 0 := by
    unfold TokenStream.take
    simp only [active_fill, split]
    exact congrArg Prod.snd (if_pos finished)
  rw [taken, stays]
  rfl

@[simp] theorem head_fresh : cursor.fresh.head = cursor.head := rfl

/-- The reader goes on: at least as much was taken, and the texts around are as they were. -/
structure Advances (cost : Nat) (before after : Cursor) : Prop where
  lighter : after.weight + cost ≤ before.weight
  suspended : after.stream.suspended = before.stream.suspended

theorem Advances.refl : cursor.Advances 0 cursor := ⟨le_rfl, rfl⟩

theorem Advances.trans {before : Cursor} {total : Nat} (first : before.Advances cost middle)
    (second : middle.Advances more after) (together : total ≤ cost + more) :
    before.Advances total after := by
  have lighter := first.lighter
  have later := second.lighter
  exact ⟨by omega, second.suspended.trans first.suspended⟩

variable {cursor} (ordered : cursor.stream.active.Ordered)

include ordered

theorem advances_fill (count : Nat) : cursor.Advances 0 (cursor.fill count) := by
  constructor
  · simpa [fill, weight] using (Lane.weight_fill ordered count).2
  · simp [fill]

theorem advances_taken (unfinished : cursor.head.kind ≠ .eof) :
    cursor.Advances 1 cursor.taken ∧ cursor.taken.weight + cursor.head.weight ≤ cursor.weight := by
  obtain ⟨-, active, suspended, -⟩ := cursor.stream.take_eq
  have lighter : cursor.taken.weight + cursor.head.weight ≤ cursor.weight := by
    rw [weight, taken, active]
    exact (Lane.weight_take ordered unfinished).2
  have heavy := Token.weight_pos unfinished
  exact ⟨⟨by omega, suspended⟩, lighter⟩

end Cursor

namespace Parse

variable {α β : Type} {cursor : Cursor}

theorem lookahead_apply (count : Nat) :
    lookahead count cursor = (.found (cursor.stream.active.sight count), cursor.fill count) := by
  rw [← token_lookahead]
  rfl

theorem kind_ahead_bind (count : Nat) (next : TokenKind → Parse α) :
    (kindAhead count >>= next) cursor = next (cursor.stream.active.sight count).kind
      (cursor.fill count) := by
  have ahead : kindAhead count cursor =
    (.found (cursor.stream.active.sight count).kind, cursor.fill count) := by
    rw [← token_lookahead]
    rfl
  change andThen (kindAhead count) next cursor = _
  rw [andThen, ahead]

theorem take_apply : take cursor = (.found cursor.head, cursor.taken) := by
  have taken := cursor.stream.take_eq
  rw [Cursor.taken, Cursor.head, ← taken.1]
  rfl

theorem bind_apply (phrase : Parse α) (next : α → Parse β) :
    (phrase >>= next) cursor = match phrase cursor with
      | (.found value, behind) => next value behind
      | (.rejected diagnostic, behind) => (.rejected diagnostic, behind)
      | (.exhausted, behind) => (.exhausted, behind) := rfl

theorem reject_next_apply (fault : GrammarFault) :
    (rejectNext fault : Parse α) cursor =
      (.rejected ⟨.grammar fault, cursor.head.span⟩, cursor.fill 0) := by
  change andThen peek (fun token => reject fault token.span) cursor = _
  rw [andThen, peek, lookahead_apply]
  rfl

theorem bind_bind {γ : Type} (phrase : Parse α) (next : α → Parse β) (last : β → Parse γ) :
    phrase >>= next >>= last = phrase >>= fun value => next value >>= last := by
  funext cursor
  simp only [bind_apply]
  rcases phrase cursor with ⟨outcome, behind⟩
  cases outcome <;> rfl

theorem accept_bind (expected : TokenKind) (next : Bool → Parse α) : accept expected >>= next =
    kind >>= fun found => if found = expected then take >>= fun _ => next true else next false := by
  rw [accept, bind_bind]
  congr 1
  funext found
  split
  · rw [bind_bind]
    rfl
  · rfl

theorem accept_apply (expected : TokenKind) (next : Bool → Parse α) :
    (accept expected >>= next) cursor =
      if cursor.head.kind = expected then next true (cursor.fill 0).taken else next false
        (cursor.fill 0) := by
  rw [accept_bind]
  refine (kind_ahead_bind 0 _).trans ?_
  by_cases same : cursor.head.kind = expected
  · rw [if_pos same, if_pos (by exact same), bind_apply, take_apply]
  · rw [if_neg same, if_neg (by exact same)]

theorem expect_bind (expected : TokenKind) (next : Token → Parse α) :
    expect expected >>= next = kind >>= fun found =>
      if found = expected then take >>= next else rejectNext (.expectedToken expected found) >>=
      next := by
  rw [expect, bind_bind]
  congr 1
  funext found
  split <;> rfl

theorem expect_apply (expected : TokenKind) (next : Token → Parse α) :
    (expect expected >>= next) cursor =
      if cursor.head.kind = expected then next cursor.head (cursor.fill 0).taken
      else (.rejected ⟨.grammar (.expectedToken expected cursor.head.kind), cursor.head.span⟩,
        (cursor.fill 0).fill 0) := by
  rw [expect_bind]
  refine (kind_ahead_bind 0 _).trans ?_
  by_cases same : cursor.head.kind = expected
  · rw [if_pos same, if_pos (by exact same), bind_apply, take_apply, head_fill]
  · rw [if_neg same, if_neg (by exact same), bind_apply, reject_next_apply, head_fill]
    rfl

theorem found_of_bind {next : α → Parse β}
    (found : (phrase >>= next) cursor = (.found value, behind)) :
    ∃ first middle, phrase cursor = (.found first, middle) ∧
      next first middle = (.found value, behind) := by
  rw [bind_apply] at found
  rcases ran : phrase cursor with ⟨_ | _ | _, middle⟩ <;> rw [ran] at found
  · exact ⟨_, middle, rfl, found⟩
  · cases found
  · cases found

theorem found_of_expect (found : (expect expected >>= next) cursor = (.found value, behind)) :
    cursor.head.kind = expected ∧ next cursor.head (cursor.fill 0).taken =
      (.found value, behind) := by
  rw [expect_apply] at found
  split at found
  · rename_i same
    exact ⟨same, found⟩
  · cases found

end Parse

namespace Link

variable {link : Link} {range : Span → Span → Prop} {left right : Cursor}

/-- Cursors at corresponding places. -/
structure Cursors (link : Link) (range : Span → Span → Prop) (left right : Cursor) : Prop where
  active : link.Lanes left.stream.active right.stream.active
  range : range left.range right.range

/-- Corresponding faults were added. -/
def Added (link : Link) (before before' after after' : List Diagnostic) : Prop :=
  ∃ new new', after = before ++ new ∧ after' = before' ++ new' ∧ List.Forall₂ link.Faults new new'

/-- Both readers go on, and the faults that were added correspond. -/
structure Advance (link : Link) (cost : Nat) (before before' after after' : Cursor) : Prop where
  left : before.Advances cost after
  right : before'.Advances cost after'
  closed : link.Added before.stream.faults before'.stream.faults after.stream.faults
    after'.stream.faults
  reported : link.Added before.faults before'.faults after.faults after'.faults

/-- Both readers have less ahead than they have room for. -/
def Light (room : Nat × Nat) (left right : Cursor) : Prop :=
  left.weight < room.1 ∧ right.weight < room.2

theorem Light.mono (light : Light less left right) (fits : less ≤ room) : Light room left right :=
  ⟨Nat.lt_of_lt_of_le light.1 fits.1, Nat.lt_of_lt_of_le light.2 fits.2⟩

theorem Light.exists_eq_add (light : Light room left right) : ∃ less, room = less + 1 := by
  obtain ⟨less, first⟩ := Nat.exists_eq_add_one_of_ne_zero (Nat.ne_zero_of_lt light.1)
  obtain ⟨less', second⟩ := Nat.exists_eq_add_one_of_ne_zero (Nat.ne_zero_of_lt light.2)
  exact ⟨(less, less'), Prod.ext first second⟩

theorem Light.after {less : Nat × Nat} (light : Light room left right)
    (advance : link.Advance cost left right middle middle') (fits : room ≤ less + (cost, cost)) :
    Light less middle middle' := by
  obtain ⟨first, second⟩ := light.mono fits
  exact ⟨Nat.lt_of_add_lt_add_right (Nat.lt_of_le_of_lt advance.left.lighter first),
    Nat.lt_of_add_lt_add_right (Nat.lt_of_le_of_lt advance.right.lighter second)⟩

section

variable (linked : link.Cursors range left right)

include linked

theorem Cursors.heads : link.Meets left.head right.head := linked.active.heads

theorem Cursors.tokens (same : left.head.kind = right.head.kind) :
    link.Tokens left.head right.head := by
  refine linked.heads.resolve_right fun apart => ?_
  rw [apart.2.1, apart.2.2] at same
  cases same

theorem Cursors.fresh : link.Cursors link.Ranges left.fresh right.fresh :=
  ⟨linked.active, ranges_empty⟩

end

theorem none_added {left right : List Diagnostic} : link.Added left right left right :=
  ⟨[], [], (List.append_nil _).symm, (List.append_nil _).symm, .nil⟩

theorem Added.trans (sooner : link.Added first first' second second')
    (later : link.Added second second' third third') : link.Added first first' third third' := by
  obtain ⟨new, new', rfl, rfl, same⟩ := sooner
  obtain ⟨more, more', rfl, rfl, same'⟩ := later
  exact ⟨new ++ more, new' ++ more', List.append_assoc .., List.append_assoc ..,
    List.rel_append same same'⟩

theorem Advance.refl (left right : Cursor) : link.Advance 0 left right left right :=
  ⟨.refl left, .refl right, none_added, none_added⟩

theorem Advance.trans {total : Nat} (first : link.Advance cost left right middle middle')
    (second : link.Advance more middle middle' last last') (together : total ≤ cost + more) :
    link.Advance total left right last last' :=
  ⟨first.left.trans second.left together, first.right.trans second.right together,
    first.closed.trans second.closed, first.reported.trans second.reported⟩

theorem Advance.note (met : link.Faults fault fault') :
    link.Advance 0 left right
      { left with faults := left.faults ++ [fault] }
      { right with faults := right.faults ++ [fault'] } :=
  ⟨⟨le_rfl, rfl⟩, ⟨le_rfl, rfl⟩, none_added, _, _, rfl, rfl, .cons met .nil⟩

theorem Advance.at_ranges (advance : link.Advance cost left right middle middle')
    {start start' stop stop' : Span} :
    link.Advance cost { left with range := start } { right with range := start' }
      { middle with range := stop } { middle' with range := stop' } :=
  ⟨⟨advance.left.lighter, advance.left.suspended⟩, ⟨advance.right.lighter, advance.right.suspended⟩,
    advance.closed, advance.reported⟩

theorem Cursors.fill (linked : link.Cursors range left right) (count : Nat) :
    link.Cursors range (left.fill count) (right.fill count) ∧
      link.Advance 0 left right (left.fill count) (right.fill count) := by
  obtain ⟨first, second⟩ := linked.active.ordered
  refine ⟨⟨?_, linked.range⟩, advances_fill first count, advances_fill second count, ?_, none_added⟩
  · simpa [Cursor.fill] using linked.active.fill count
  · simp only [Cursor.fill, TokenStream.faults_fill]
    exact none_added

theorem Cursors.taken (linked : link.Cursors range left right) (steady : link.Steady range)
    (tokens : link.Tokens left.head right.head) (unfinished : left.head.kind ≠ .eof) :
    link.Cursors range left.taken right.taken ∧ link.Advance 1 left right left.taken right.taken ∧
      left.taken.weight + left.head.weight ≤ left.weight ∧
      right.taken.weight + right.head.weight ≤ right.weight := by
  obtain ⟨-, active, -, faults⟩ := left.stream.take_eq
  obtain ⟨-, active', -, faults'⟩ := right.stream.take_eq
  obtain ⟨advances, lighter⟩ := advances_taken linked.active.ordered.1 unfinished
  obtain ⟨advances', lighter'⟩ :=
    advances_taken linked.active.ordered.2 (tokens.kind.symm ▸ unfinished)
  refine ⟨⟨?_, steady.merge linked.range (.inr tokens.places)⟩,
    ⟨advances, advances', ?_, none_added⟩, lighter, lighter'⟩
  · simpa only [Cursor.taken, active, active'] using linked.active.take unfinished
  · simp only [Cursor.taken, faults, faults']
    exact none_added

/-! ### Lockstep -/

/-- Whether a phrase surely takes a token. -/
inductive Pace where
  /-- It may take none. -/
  | any
  | found
  /-- It takes one whether it is found or rejected. -/
  | always

def Pace.spent : Pace → Nat
  | any => 0
  | found => 1
  | always => 1

def Pace.lost : Pace → Nat
  | any => 0
  | found => 0
  | always => 1

variable {α β γ δ : Type}

/-- Both readers find something, or both reject the phrase. -/
inductive Ends (link : Link) (range : Span → Span → Prop) (pace : Pace) (related : α → β → Prop)
    (before before' : Cursor) : Outcome α × Cursor → Outcome β × Cursor → Prop
  | found (met : related value value') (linked : link.Cursors range behind behind')
      (advance : link.Advance pace.spent before before' behind behind') :
      Ends link range pace related before before' (.found value, behind) (.found value', behind')
  | rejected (met : link.Faults fault fault') (linked : link.Cursors link.Ranges behind behind')
      (advance : link.Advance pace.lost before before' behind behind') :
      Ends link range pace related before before' (.rejected fault, behind)
        (.rejected fault', behind')

/-- Started at corresponding places, where the next tokens are of certain kinds, both readers end
alike, given that less is ahead than they have room for. -/
def Lockstep (link : Link) (heads : TokenKind → TokenKind → Prop) (pace : Pace) (room : Nat × Nat)
    (related : α → β → Prop) (left : Parse α) (right : Parse β) : Prop :=
  ∀ ⦃range⦄, link.Steady range → ∀ ⦃cursor cursor'⦄, link.Cursors range cursor cursor' →
    heads cursor.head.kind cursor'.head.kind → Light room cursor cursor' →
    link.Ends range pace related cursor cursor' (left cursor) (right cursor')

/-- One phrase is read alike in both texts. -/
abbrev Repeats (link : Link) (heads : TokenKind → TokenKind → Prop) (pace : Pace) (room : Nat × Nat)
    (related : α → α → Prop) (phrase : Parse α) : Prop :=
  link.Lockstep heads pace room related phrase phrase

def Anywhere (_ _ : TokenKind) : Prop := True

def At (kind left right : TokenKind) : Prop := left = kind ∧ right = kind

def Together (left right : TokenKind) : Prop := left = right

/-- The first text ends at a border. -/
def Parted (left right : TokenKind) : Prop := left = .eof ∧ right = .leftBracket

variable {heads : TokenKind → TokenKind → Prop} {pace : Pace} {room : Nat × Nat}
  {related : α → β → Prop}
  {left : Parse α} {right : Parse β} {before before' : Cursor} {result : Outcome α × Cursor}
  {result' : Outcome β × Cursor}

theorem Ends.after {slower : Pace}
    (ends : link.Ends range pace related middle middle' result result')
    (advance : link.Advance cost before before' middle middle')
    (spent : slower.spent ≤ cost + pace.spent) (lost : slower.lost ≤ cost + pace.lost) :
    link.Ends range slower related before before' result result' := by
  cases ends with
  | found met linked later => exact .found met linked (advance.trans later spent)
  | rejected met linked later => exact .rejected met linked (advance.trans later lost)

theorem Ends.imp (ends : link.Ends range pace related before before' result result')
    (implied : ∀ value value', related value value' → weaker value value') :
    link.Ends range pace weaker before before' result result' := by
  cases ends with
  | found met linked advance => exact .found (implied _ _ met) linked advance
  | rejected met linked advance => exact .rejected met linked advance

namespace Lockstep

section

variable (steps : link.Lockstep heads pace room related left right)

include steps

theorem weaken (enough : ∀ kind kind', stronger kind kind' → heads kind kind')
    (implied : ∀ value value', related value value' → weaker value value') (fits : less ≤ room) :
    link.Lockstep stronger pace less weaker left right :=
  fun _ steady _ _ linked known light =>
    (steps steady linked (enough _ _ known) (light.mono fits)).imp implied

theorem at_pace {slower : Pace} (spent : slower.spent ≤ pace.spent)
    (lost : slower.lost ≤ pace.lost) :
    link.Lockstep heads slower room related left right :=
  fun _ steady cursor cursor' linked known light =>
    (steps steady linked known light).after (.refl cursor cursor') (by omega) (by omega)

theorem loose : link.Lockstep heads .any room related left right :=
  steps.at_pace (Nat.zero_le _) (Nat.zero_le _)

theorem within (fits : less ≤ room) : link.Lockstep heads pace less related left right :=
  steps.weaken (fun _ _ => id) (fun _ _ => id) fits

/-- What is read ahead does not change how the phrase ends. -/
theorem filled (steady : link.Steady range) (linked : link.Cursors range cursor cursor')
    (known : heads cursor.head.kind cursor'.head.kind) (light : Light room cursor cursor') :
    link.Ends range pace related cursor cursor' (left (cursor.fill count))
    (right (cursor'.fill count)) := by
  obtain ⟨filled, advance⟩ := linked.fill count
  have ends := steps steady filled (by simpa using known) (light.after advance le_rfl)
  exact ends.after advance (by omega) (by omega)

end

theorem anywhere (steps : link.Lockstep Anywhere pace room related left right) :
    link.Lockstep heads pace room related left right :=
  steps.weaken (fun _ _ _ => trivial) (fun _ _ => id) le_rfl

theorem of_none (none : room.1 = 0 ∨ room.2 = 0) :
    link.Lockstep heads pace room related left right := by
  rintro _ - _ _ - - ⟨first, second⟩
  omega

theorem of_light
    (steps : ∀ less, room = less + 1 → link.Lockstep heads pace room related left right) :
    link.Lockstep heads pace room related left right := by
  intro range steady cursor cursor' linked known light
  obtain ⟨less, some_room⟩ := light.exists_eq_add
  exact steps less some_room steady linked known light

theorem found (here : related value value') :
    link.Lockstep heads .any room related (pure value) (pure value') :=
  fun _ _ cursor cursor' linked _ _ => .found here linked (.refl cursor cursor')

theorem reject (places : link.Places span span') :
    link.Lockstep heads .found room related (reject cause span) (reject cause span') :=
  fun _ steady cursor cursor' linked _ _ =>
    .rejected (places.fault _) ⟨linked.active, steady.ranges linked.range⟩ (.refl cursor cursor')

/-- Both reject the phrase at the next token. The causes may differ at a border only. -/
theorem reject_next_of (same : ∀ kind, heads kind kind → cause = cause' ∨ link.IsOpen) :
    link.Lockstep heads .found room related (rejectNext cause) (rejectNext cause') := by
  intro range steady cursor cursor' linked known _
  obtain ⟨filled, advance⟩ := linked.fill 0
  rw [reject_next_apply, reject_next_apply]
  refine .rejected ?_ ⟨filled.active, steady.ranges filled.range⟩ advance
  rcases linked.heads with tokens | apart
  · rw [tokens.kind] at known
    rcases same _ known with rfl | is_open
    · exact tokens.places.fault _
    · exact .inr is_open
  · exact .inr apart.1

theorem reject_next :
    link.Lockstep heads .found room related (rejectNext cause) (rejectNext cause) :=
  reject_next_of fun _ _ => .inl rfl

theorem reject_parted :
    link.Lockstep Parted .found room related (rejectNext cause) (rejectNext cause') :=
  reject_next_of fun _ known => by cases known.1.symm.trans known.2

section

variable {first : Parse γ} {first' : Parse δ} {next : γ → Parse α} {next' : δ → Parse β}
  {middle : γ → δ → Prop}

theorem bind_of (here : link.Lockstep heads faster room middle first first')
    (there : ∀ value value', middle value value' →
      link.Lockstep Anywhere later less related (next value) (next' value'))
    (fits : room ≤ less + (faster.spent, faster.spent))
    (spent : pace.spent ≤ faster.spent + later.spent) (lost : pace.lost ≤ faster.lost)
    (lost' : pace.lost ≤ faster.spent + later.lost) :
    link.Lockstep heads pace room related (first >>= next) (first' >>= next') := by
  intro range steady cursor cursor' linked known light
  have ends := here steady linked known light
  rw [Parse.bind_apply, Parse.bind_apply]
  generalize first cursor = result, first' cursor' = result' at ends ⊢
  cases ends with
  | found met after advance =>
    exact (there _ _ met steady after trivial (light.after advance fits)).after advance spent lost'
  | rejected met after advance =>
    exact .rejected met after ((Advance.refl cursor cursor').trans advance (by omega))

theorem seq (calm : pace.lost = 0) (here : link.Lockstep heads .any room middle first first')
    (there : ∀ value value', middle value value' →
      link.Lockstep Anywhere pace room related (next value) (next' value')) :
    link.Lockstep heads pace room related (first >>= next) (first' >>= next') :=
  here.bind_of there le_rfl (Nat.le_add_left ..) (Nat.le_of_eq calm) (Nat.le_add_left ..)

variable (there : ∀ value value', middle value value' →
  link.Lockstep Anywhere .any room related (next value) (next' value'))

include there

theorem step (here : link.Lockstep heads .found (room + 1) middle first first') :
    link.Lockstep heads .found (room + 1) related (first >>= next) (first' >>= next') :=
  here.bind_of there le_rfl le_rfl le_rfl (Nat.zero_le _)

/-- A phrase that takes a token however it ends, and another behind it that needs less room. -/
theorem sure (here : link.Lockstep heads .always (room + 1) middle first first') :
    link.Lockstep heads .always (room + 1) related (first >>= next) (first' >>= next') :=
  here.bind_of there le_rfl le_rfl le_rfl le_rfl

omit there in
theorem follow (calm : pace.lost = 0) (here : link.Lockstep heads pace room middle first first')
    (there : ∀ value value', middle value value' →
      link.Lockstep Anywhere .any room related (next value) (next' value')) :
    link.Lockstep heads pace room related (first >>= next) (first' >>= next') :=
  here.bind_of there le_self_add (Nat.le_add_right ..) le_rfl (calm ▸ Nat.zero_le _)

end

theorem map {build : α → γ} {build' : β → δ} (calm : pace.lost = 0)
    (steps : link.Lockstep heads pace room related left right)
    (built : ∀ value value', related value value' → other (build value) (build' value')) :
    link.Lockstep heads pace room other (left >>= fun value => pure (build value))
      (right >>= fun value => pure (build' value)) :=
  steps.follow calm fun value value' here => found (built value value' here)

/-! ### Tokens -/

theorem kind
    (same : ∀ kind, heads kind kind → link.Lockstep (At kind) pace room related (next kind)
      (next' kind))
    (apart : link.IsOpen → heads .eof .leftBracket →
      link.Lockstep Parted pace room related (next .eof) (next' .leftBracket)) :
    link.Lockstep heads pace room related (Parse.kind >>= next) (Parse.kind >>= next') := by
  intro range steady cursor cursor' linked known light
  have here : (Parse.kind >>= next) cursor = next cursor.head.kind (cursor.fill 0) :=
    Parse.kind_ahead_bind 0 next
  have here' : (Parse.kind >>= next') cursor' = next' cursor'.head.kind (cursor'.fill 0) :=
    Parse.kind_ahead_bind 0 next'
  rw [here, here']
  rcases linked.heads with tokens | ⟨is_open, first, second⟩
  · rw [tokens.kind] at known ⊢
    exact (same _ known).filled steady linked ⟨rfl, tokens.kind⟩ light
  · rw [first, second] at known ⊢
    exact (apart is_open known).filled steady linked ⟨first, second⟩ light

theorem kind_at {kind : TokenKind} {next : TokenKind → Parse α} {next' : TokenKind → Parse β}
    (steps : link.Lockstep (At kind) pace room related (next kind) (next' kind)) :
    link.Lockstep (At kind) pace room related (Parse.kind >>= next) (Parse.kind >>= next') :=
  Lockstep.kind (fun _ known => known.1 ▸ steps) fun _ known => by cases known.1.trans known.2.symm

theorem asks {test test' : TokenKind → Bool} (same : ∀ kind, test' kind = test kind)
    (apart : link.IsOpen → test .eof = test .leftBracket) :
    link.Lockstep heads .any room Eq (Parse.kind >>= fun kind => pure (test kind))
      (Parse.kind >>= fun kind => pure (test' kind)) :=
  kind (fun kind _ => found (same kind).symm) fun is_open _ =>
    found ((apart is_open).trans (same _).symm)

/-- Behind a token of a kind that is taken, the next tokens are of certain kinds. -/
def Behind (link : Link) (kind : TokenKind) (heads : TokenKind → TokenKind → Prop) : Prop :=
  ∀ {lane other : Lane}, link.Lanes lane other → (lane.sight 0).kind = kind →
    (other.sight 0).kind = kind → heads (lane.take.sight 0).kind (other.take.sight 0).kind

variable {next : Token → Parse α} {next' : Token → Parse β} {expected kind : TokenKind}

theorem take_behind (behind : Behind link kind heads) (unfinished : kind ≠ .eof)
    (there : ∀ token token', link.Tokens token token' → token.kind = kind →
      link.Lockstep heads .any room related (next token) (next' token')) :
    link.Lockstep (At kind) pace (room + 1) related (Parse.take >>= next)
    (Parse.take >>= next') := by
  intro range steady cursor cursor' linked known light
  have tokens := linked.tokens (known.1.trans known.2.symm)
  have read : cursor.head.kind ≠ .eof := known.1 ▸ unfinished
  obtain ⟨after, advance, -⟩ := linked.taken steady tokens read
  have ahead := behind linked.active known.1 known.2
  rw [← cursor.stream.take_eq.2.1, ← cursor'.stream.take_eq.2.1] at ahead
  rw [Parse.bind_apply, Parse.bind_apply, take_apply, take_apply]
  have ends := there _ _ tokens known.1 steady after ahead (light.after advance le_rfl)
  exact ends.after advance (by cases pace <;> decide) (by cases pace <;> decide)

section

variable (unfinished : kind ≠ .eof)
  (there : ∀ token token', link.Tokens token token' → token.kind = kind →
  link.Lockstep Anywhere .any room related (next token) (next' token'))

include unfinished there

theorem take :
    link.Lockstep (At kind) pace (room + 1) related (Parse.take >>= next) (Parse.take >>= next') :=
  take_behind (fun _ _ _ => trivial) unfinished there

theorem take_within :
    link.Lockstep (At kind) pace room related (Parse.take >>= next) (Parse.take >>= next') :=
  (take unfinished there).within le_self_add

end

theorem take_finished (there : ∀ token token', link.Tokens token token' → token.kind = .eof →
      link.Lockstep (At .eof) pace room related (next token) (next' token')) :
    link.Lockstep (At .eof) pace room related (Parse.take >>= next) (Parse.take >>= next') := by
  intro range steady cursor cursor' linked known light
  have tokens := linked.tokens (known.1.trans known.2.symm)
  obtain ⟨filled, advance⟩ := linked.fill 0
  have after : link.Cursors range cursor.taken cursor'.taken := by
    rw [taken_of_finished known.1, taken_of_finished known.2]
    exact ⟨filled.active, steady.merge linked.range (.inr tokens.places)⟩
  have further : link.Advance 0 cursor cursor' cursor.taken cursor'.taken := by
    rw [taken_of_finished known.1, taken_of_finished known.2]
    exact advance.at_ranges
  have ahead (cursor : Cursor) (finished : cursor.head.kind = .eof) :
      cursor.taken.head.kind = .eof := by
    rw [taken_of_finished finished]
    exact (congrArg Token.kind (cursor.head_fill 0)).trans finished
  rw [Parse.bind_apply, Parse.bind_apply, take_apply, take_apply]
  have ends := there _ _ tokens known.1 steady after ⟨ahead _ known.1, ahead _ known.2⟩
    (light.after further le_rfl)
  exact ends.after further (by omega) (by omega)

theorem expect_of (expected : TokenKind) (unfinished : expected ≠ .eof)
    (inside : link.IsOpen → expected ≠ .leftBracket) :
    link.Lockstep heads .found room (fun token token' => link.Tokens token token' ∧
      token.kind = expected)
      (Parse.expect expected) (Parse.expect expected) := by
  refine kind (fun kind _ => ?_) fun is_open _ => ?_
  · by_cases same : kind = expected
    · subst same
      rw [if_pos rfl]
      have steps : link.Lockstep (At kind) .found room
          (fun token token' => link.Tokens token token' ∧ token.kind = kind) (Parse.take >>= pure)
          (Parse.take >>= pure) :=
        take_within unfinished fun token token' tokens is_kind => found ⟨tokens, is_kind⟩
      exact steps
    · rw [if_neg same]
      exact reject_next
  · rw [if_neg unfinished.symm, if_neg (inside is_open).symm]
    exact reject_parted

theorem expect (expected : TokenKind) (inside : expected ≠ .eof ∧ expected ≠ .leftBracket) :
    link.Lockstep heads .found room (fun token token' => link.Tokens token token' ∧
      token.kind = expected)
      (Parse.expect expected) (Parse.expect expected) :=
  expect_of expected inside.1 fun _ => inside.2

theorem past (inside : expected ≠ .eof ∧ expected ≠ .leftBracket)
    (steps : link.Lockstep Anywhere .any room related left right) :
    link.Lockstep heads .any room related (Parse.expect expected >>= fun _ => left)
      (Parse.expect expected >>= fun _ => right) :=
  (expect expected inside).loose.seq rfl fun _ _ _ => steps

theorem expect_ahead
    (steps : link.Lockstep (At expected) pace room related (Parse.take >>= next)
      (Parse.take >>= next')) :
    link.Lockstep (At expected) pace room related (Parse.expect expected >>= next)
      (Parse.expect expected >>= next') := by
  rw [expect_bind, expect_bind]
  refine kind_at ?_
  rw [if_pos rfl, if_pos rfl]
  exact steps

theorem expect_refused (differs : kind ≠ expected) :
    link.Lockstep (At kind) .found room related (Parse.expect expected >>= next)
      (Parse.expect expected >>= next') := by
  rw [expect_bind, expect_bind]
  refine kind_at ?_
  rw [if_neg differs, if_neg differs]
  have rejected : link.Repeats (At kind) .found room (fun _ _ : Token => False)
    (rejectNext (.expectedToken expected kind)) := reject_next
  exact rejected.follow rfl fun _ _ => False.elim

theorem accept (expected : TokenKind) (inside : expected ≠ .eof ∧ expected ≠ .leftBracket) :
    link.Lockstep heads .any room Eq (Parse.accept expected) (Parse.accept expected) := by
  refine kind (fun kind _ => ?_) fun _ _ => ?_
  · by_cases same : kind = expected
    · subst same
      rw [if_pos rfl]
      exact take_within inside.1 fun _ _ _ _ => found rfl
    · rw [if_neg same]
      exact found rfl
  · rw [if_neg inside.1.symm, if_neg inside.2.symm]
    exact found rfl

section

variable {next : Bool → Parse α} {next' : Bool → Parse β}

theorem accepts (inside : expected ≠ .eof ∧ expected ≠ .leftBracket)
    (taken : link.Lockstep Anywhere .any room related (next true) (next' true))
    (missing : link.Lockstep Anywhere .any room related (next false) (next' false)) :
    link.Lockstep heads .any room related (Parse.accept expected >>= next)
    (Parse.accept expected >>= next') := by
  refine (accept expected inside).seq rfl fun found _ same => ?_
  subst same
  cases found with
  | true => exact taken
  | false => exact missing

theorem accept_ahead
    (taken : kind = expected → link.Lockstep (At kind) pace room related
      (Parse.take >>= fun _ => next true) (Parse.take >>= fun _ => next' true))
    (left_alone : kind ≠ expected → link.Lockstep (At kind) pace room related (next false)
      (next' false)) :
    link.Lockstep (At kind) pace room related (Parse.accept expected >>= next)
      (Parse.accept expected >>= next') := by
  rw [accept_bind, accept_bind]
  refine kind_at ?_
  split
  · rename_i same
    exact taken same
  · rename_i differs
    exact left_alone differs

end

theorem kind_behind {next : TokenKind → Parse α} {next' : TokenKind → Parse β}
    (unfinished : ∀ kind kind', heads kind kind' → kind = kind' ∧ kind ≠ .eof)
    (same : ∀ kind, link.Lockstep heads pace room related (next kind) (next' kind))
    (apart : link.Lockstep heads pace room related (next .eof) (next' .leftBracket)) :
    link.Lockstep heads pace room related (kindAhead 1 >>= next) (kindAhead 1 >>= next') := by
  intro range steady cursor cursor' linked known light
  have goes_on : ∀ before < 1, (cursor.stream.active.sight before).kind ≠ .eof := by
    intro before first
    obtain rfl := Nat.lt_one_iff.mp first
    exact (unfinished _ _ known).2
  have behind := linked.active.heads_at goes_on
  rw [Parse.kind_ahead_bind, Parse.kind_ahead_bind]
  rcases behind with tokens | ⟨-, first, second⟩
  · rw [tokens.kind]
    exact (same _).filled steady linked known light
  · rw [first, second]
    exact apart.filled steady linked known light

theorem peek (there : ∀ token token', link.Tokens token token' ∨ link.IsOpen →
      link.Lockstep Anywhere pace room related (next token) (next' token')) :
    link.Lockstep heads pace room related (Parse.peek >>= next) (Parse.peek >>= next') := by
  intro range steady cursor cursor' linked _ light
  rw [Parse.bind_apply, Parse.bind_apply, Parse.peek, Parse.lookahead_apply, Parse.lookahead_apply]
  exact (there _ _ (linked.heads.imp id And.left)).filled steady linked trivial light

/-! ### Phrases -/

theorem report (met : link.Faults ⟨.grammar cause, span⟩ ⟨.grammar cause, span'⟩) :
    link.Lockstep heads .any room (fun _ _ => True) (Parse.report cause span)
    (Parse.report cause span') := by
  intro range steady cursor cursor' linked _ _
  exact .found trivial ⟨linked.active, linked.range⟩ (.note met)

theorem or_report (places : link.Places span span')
    (built : ∀ value, related (build value) (build' value)) (stands : related standIn standIn') :
    link.Lockstep heads .any room related (orReport value build standIn span)
      (orReport value build' standIn' span') := by
  intro range steady cursor cursor' linked known light
  cases value with
  | ok value => exact found (built value) steady linked known light
  | error cause =>
    have noted : link.Lockstep heads .any room (fun _ _ => True) (Parse.report cause span)
        (Parse.report cause span') := report (places.fault _)
    cases noted steady linked known light with
    | found _ after advance => exact .found stands after advance

end Lockstep

theorem Ends.ranged {inner : Span → Span → Prop} (steady : link.Steady range)
    (kept : link.Steady inner) (linked : link.Cursors range cursor cursor')
    (ends : link.Ends inner pace related cursor.fresh cursor'.fresh (left cursor.fresh)
      (right cursor'.fresh)) :
    link.Ends range pace (fun value value' => related value.1 value'.1 ∧ inner value.2 value'.2)
      cursor cursor'
      (left.ranged cursor) (right.ranged cursor') := by
  unfold Parse.ranged
  unfold fresh at ends
  generalize left _ = result, right _ = result' at ends ⊢
  cases ends with
  | found met after advance =>
    exact .found ⟨met, after.range⟩ ⟨after.active,
      steady.merge linked.range (kept.ranges after.range)⟩ advance.at_ranges
  | rejected met after advance => exact .rejected met after advance.at_ranges

theorem Cursors.widened (linked : link.Cursors range cursor cursor')
    (tokens : link.Tokens cursor.head cursor'.head) (unfinished : cursor.head.kind ≠ .eof)
    (wide : ¬ cursor.head.kind.IsPiece) :
    link.Cursors link.Widened (cursor.fresh.fill 0).taken (cursor'.fresh.fill 0).taken ∧
      link.Advance 1 cursor.fresh cursor'.fresh (cursor.fresh.fill 0).taken
        (cursor'.fresh.fill 0).taken := by
  obtain ⟨filled, advance⟩ := linked.fresh.fill 0
  obtain ⟨after, further, -⟩ :=
    filled.taken steady_ranges (by simpa using tokens) (by simpa using unfinished)
  have range : cursor.head.span.isEmpty = false := by
    refine Bool.eq_false_iff.mpr fun empty => ?_
    exact (tokens.1.wide empty).2.elim wide unfinished
  have range' := tokens.places.is_empty.trans range
  refine ⟨⟨after.active, ?_⟩, advance.trans further (by omega)⟩
  have first : ∀ cursor : Cursor, (cursor.fresh.fill 0).taken.range =
    Span.empty.merge cursor.head.span :=
    fun cursor => congrArg (fun token : Token => Span.empty.merge token.span)
      (cursor.fresh.head_fill 0)
  rw [first, first, Span.merge, Span.merge, range, range']
  exact ⟨range, tokens.places⟩

theorem Lockstep.ranged (steps : link.Lockstep heads pace room related left right) :
    link.Lockstep heads pace room (fun value value' => related value.1 value'.1 ∧
      link.Ranges value.2 value'.2)
      left.ranged right.ranged :=
  fun _ steady _ _ linked known light =>
    (steps steady_ranges linked.fresh known light).ranged steady steady_ranges linked

theorem Lockstep.ranged_expect (inside : expected ≠ .eof ∧ expected ≠ .leftBracket)
    (wide : ¬ expected.IsPiece)
    (there : ∀ token token', link.Tokens token token' →
      link.Lockstep Anywhere .any room related (next token) (next' token')) :
    link.Lockstep heads .found (room + 1)
      (fun value value' => related value.1 value'.1 ∧ link.Places value.2 value'.2)
      (Parse.expect expected >>= next).ranged (Parse.expect expected >>= next').ranged := by
  intro range steady cursor cursor' linked known light
  have ends : link.Ends link.Widened .found related cursor.fresh cursor'.fresh
      ((Parse.expect expected >>= next) cursor.fresh)
      ((Parse.expect expected >>= next') cursor'.fresh) := by
    by_cases same : cursor.head.kind = expected
    · have tokens : link.Tokens cursor.head cursor'.head :=
        linked.heads.resolve_right fun apart => inside.1 (same.symm.trans apart.2.1)
      obtain ⟨after, advance⟩ := linked.widened tokens (same ▸ inside.1) (same ▸ wide)
      rw [expect_apply, expect_apply, if_pos (by exact same),
        if_pos (by exact tokens.kind.trans same)]
      have light : Light _ cursor.fresh cursor'.fresh := light
      have ends := there _ _ tokens steady_widened after trivial (light.after advance le_rfl)
      exact ends.after advance le_rfl (Nat.zero_le _)
    · have steps : link.Lockstep heads .found (room + 1) related (Parse.expect expected >>= next)
          (Parse.expect expected >>= next') :=
        (expect expected inside).step fun token token' tokens => there token token' tokens.1
      have ends := steps steady_ranges linked.fresh known light
      rw [expect_apply, if_neg (by exact same)] at ends ⊢
      generalize (Parse.expect expected >>= next') cursor'.fresh = result at ends ⊢
      cases ends with
      | rejected met after advance => exact .rejected met after advance
  exact (ends.ranged steady steady_widened linked).imp fun _ _ here => ⟨here.1, here.2.2⟩

end Link

end TriggerScript
