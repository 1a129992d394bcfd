import TriggerScript.Proofs.Parsing.Lockstep

/-!
Loops and embedded texts read side by side.

A loop takes a token in every round, so that its rounds are enough if there are as many as what is
ahead weighs. The text of a hook is lighter than the string that it stands in. A sequence of
declarations is read alike up to the end of the first text.
-/

namespace TriggerScript

open Parse

namespace Link

variable {link : Link} {range : Span → Span → Prop} {α β : Type}
  {heads : TokenKind → TokenKind → Prop} {pace : Pace}
  {room bound : Nat × Nat} {related : α → β → Prop} {left : Parse α}

/-- Induction on the rounds of a loop that has as many as both readers have room for. -/
theorem rounds_induction {motive : ∀ room bound : Nat × Nat, room ≤ bound → Prop}
    (none : ∀ room bound fits, room.1 = 0 ∨ room.2 = 0 → motive room bound fits)
    (round : ∀ room bound fits, motive room bound fits →
      motive (room + 1) (bound + 1) (add_le_add_left fits 1)) :
    ∀ room bound fits, motive room bound fits := by
  rintro ⟨first, second⟩ ⟨bound, bound'⟩ fits
  induction first generalizing second bound bound' with
  | zero => exact none _ _ _ (.inl rfl)
  | succ first ih =>
    cases second with
    | zero => exact none _ _ _ (.inr rfl)
    | succ second =>
      obtain ⟨bound, rfl⟩ := Nat.exists_eq_add_of_lt fits.1
      obtain ⟨bound', rfl⟩ := Nat.exists_eq_add_of_lt fits.2
      exact round (first, second) _ ⟨Nat.le_add_right .., Nat.le_add_right ..⟩ (ih ..)

namespace Lockstep

theorem many (asks : link.Lockstep Anywhere .any room Eq condition condition')
    (steps : link.Lockstep Anywhere .found room related left right) (fits : room ≤ bound) :
    link.Lockstep heads .any room (List.Forall₂ related) (many condition left bound.1)
      (many condition' right bound.2) := by
  refine anywhere ?_
  induction room, bound, fits using rounds_induction with
  | none _ _ _ none => exact of_none none
  | round room bound fits ih =>
    refine asks.seq rfl fun go go' same => ?_
    subst same
    cases go with
    | false => exact found .nil
    | true =>
      have rounds := ih (asks.within le_self_add) (steps.within le_self_add)
      have round := steps.step fun value value' here => rounds.map rfl fun rest rest' later =>
        List.Forall₂.cons here later
      exact round.loose

theorem separated (calm : pace.lost = 0) (behind : Behind link .comma heads)
    (steps : ∀ index, link.Lockstep heads pace room related (phrase index) (phrase' index))
    (fits : room ≤ bound) (index : Nat) :
    link.Lockstep heads pace room (List.Forall₂ related) (separated phrase index bound.1)
      (separated phrase' index bound.2) := by
  induction room, bound, fits using rounds_induction generalizing index with
  | none _ _ _ none => exact of_none none
  | round room bound fits ih =>
    refine (steps index).follow calm fun value value' here => ?_
    have alone : link.Lockstep Anywhere .any (room + 1) (List.Forall₂ related) (pure [value])
      (pure [value']) := found (.cons here .nil)
    rw [accept_bind, accept_bind]
    refine kind (fun kind _ => ?_) fun _ _ => alone.anywhere
    by_cases comma : kind = .comma
    · subst comma
      have rounds := ih (fun index => (steps index).within le_self_add) (index + 1)
      refine take_behind behind nofun fun _ _ _ _ => ?_
      exact rounds.loose.map rfl fun rest rest' later =>
        List.Forall₂.cons here later
    · rw [if_neg comma, if_neg comma]
      exact alone.anywhere

theorem skip {kind : TokenKind} (unfinished : kind ≠ .eof)
    (there : link.Lockstep Anywhere .any room related next next') :
    link.Lockstep (At kind) pace (room + 1) related (skip >>= fun _ => next)
    (skip >>= fun _ => next') := by
  intro range steady cursor cursor' linked known light
  have tokens := linked.tokens (known.1.trans known.2.symm)
  have read : cursor.head.kind ≠ .eof := known.1 ▸ unfinished
  obtain ⟨after, advance, -⟩ := linked.taken steady tokens read
  have dropped : link.Advance 1 cursor cursor' { cursor with stream := cursor.stream.take.2 }
      { cursor' with stream := cursor'.stream.take.2 } := advance.at_ranges
  have skipped : link.Cursors range { cursor with stream := _ } { cursor' with stream := _ } :=
    ⟨after.active, linked.range⟩
  have ends := there steady skipped trivial (light.after dropped le_rfl)
  exact ends.after dropped (by cases pace <;> decide) (by cases pace <;> decide)

section

variable {kinds : List TokenKind} (bracket : link.IsOpen → TokenKind.leftBracket ∈ kinds)
  (fits : room ≤ bound)

include bracket fits

theorem skip_until :
    link.Lockstep heads .any room (fun _ _ => True) (skipUntil kinds bound.1)
    (skipUntil kinds bound.2) := by
  refine anywhere ?_
  induction room, bound, fits using rounds_induction with
  | none _ _ _ none => exact of_none none
  | round room bound fits ih =>
    refine kind (fun kind _ => ?_) fun is_open _ => ?_
    · split
      · exact found trivial
      · rename_i goes_on
        simp only [Bool.or_eq_true, decide_eq_true_eq, not_or] at goes_on
        exact skip goes_on.1 ih
    · rw [if_pos (by simp), if_pos (by simp [bracket is_open])]
      exact found trivial

/-- A token that does not stop the search is dropped. -/
theorem skip_until_behind {kind : TokenKind} (unfinished : kind ≠ .eof) (skipped : kind ∉ kinds) :
    link.Lockstep (At kind) .always (room + 1) (fun _ _ => True) (skipUntil kinds (bound + 1).1)
      (skipUntil kinds (bound + 1).2) := by
  refine kind_at ?_
  rw [if_neg (by simp [unfinished, skipped]), if_neg (by simp [unfinished, skipped])]
  exact skip unfinished (skip_until bracket fits)

end

end Lockstep

/-! ### Embedded texts -/

/-- Embedded texts end together. -/
def inside (link : Link) : Link where
  toRelocation := link.toRelocation
  border _ _ := False
  fill_border := nofun
  take_border := nofun
  head_border := nofun
  sound_border := nofun

theorem not_open_inside : ¬ link.inside.IsOpen := fun ⟨_, _, border⟩ => border

theorem Faults.outside (same : link.inside.Faults fault fault') : link.Faults fault fault' :=
  .inl (same.resolve_right not_open_inside)

theorem Steady.inside (steady : link.Steady range) : link.inside.Steady range :=
  ⟨steady.ranges, steady.merge⟩

theorem Advance.leave (ended : link.inside.Cursors range behind behind')
    (advance : link.inside.Advance cost { cursor with stream := cursor.stream.enter scanner }
      { cursor' with stream := cursor'.stream.enter scanner' } behind behind') :
    behind.stream.leave.2.active = cursor.stream.active ∧
      behind'.stream.leave.2.active = cursor'.stream.active ∧
      link.Advance 0 cursor cursor' { behind with stream := behind.stream.leave.2 }
        { behind' with stream := behind'.stream.leave.2 } := by
  obtain ⟨new, new', added, added', same⟩ := advance.closed
  obtain ⟨more, more', reported, reported', same'⟩ := advance.reported
  have leaves : ∀ {cursor behind : Cursor} {scanner : Scanner},
      behind.stream.suspended = (cursor.stream.enter scanner).suspended →
      behind.stream.leave.2 = { behind.stream with
        active := cursor.stream.active
        suspended := cursor.stream.suspended
        faults := behind.stream.faults ++ behind.stream.active.scanner.faults } := fun same => by
    rw [TokenStream.leave, same]
    rfl
  have left := leaves advance.left.suspended
  have left' := leaves advance.right.suspended
  refine ⟨by rw [left], by rw [left'], ?_⟩
  rw [left, left']
  refine ⟨⟨le_rfl, rfl⟩, ⟨le_rfl, rfl⟩, ?_, more, more', reported, reported', ?_⟩
  · refine ⟨new ++ behind.stream.active.scanner.faults,
      new' ++ behind'.stream.active.scanner.faults, ?_, ?_, ?_⟩
    · rw [← List.append_assoc]
      exact congrArg (· ++ _) added
    · rw [← List.append_assoc]
      exact congrArg (· ++ _) added'
    · exact (List.rel_append same ended.active.faults).imp fun _ _ => Faults.outside
  · exact same'.imp fun _ _ => Faults.outside

theorem Lockstep.embedded {scanner scanner' : Token → Scanner} {inner : Parse α}
    (lanes : ∀ token token', link.Tokens token token' → token.kind = .string → token.text ≠ "" →
      link.inside.Lanes (Lane.start (scanner token)) (Lane.start (scanner' token')))
    (lighter : ∀ token, token.kind = .string → (scanner token).weight < token.weight)
    (lighter' : ∀ token, token.kind = .string → (scanner' token).weight < token.weight)
    (nothing : related empty empty')
    (steps : link.inside.Lockstep Anywhere .any room related inner inner') :
    link.Lockstep (At .string) pace (room + 1) related (Parse.take >>= fun token =>
        if token.text.isEmpty then pure empty else inner.embedded (scanner token))
          (Parse.take >>= fun token =>
        if token.text.isEmpty then pure empty' else inner'.embedded (scanner' token)) := by
  intro range steady cursor cursor' linked known light
  have fewer : cursor.weight < room.1 + 1 ∧ cursor'.weight < room.2 + 1 := light
  have tokens := linked.tokens (known.1.trans known.2.symm)
  obtain ⟨after, advance, taken, taken'⟩ := linked.taken steady tokens (known.1 ▸ nofun)
  have light := lighter cursor.head known.1
  have light' := lighter' cursor'.head known.2
  rw [bind_apply, bind_apply, take_apply, take_apply]
  simp only [tokens.text]
  have spent : pace.spent ≤ 1 + 0 ∧ pace.lost ≤ 1 + 0 := by cases pace <;> decide
  split
  · exact .found nothing after (advance.trans (.refl _ _) spent.1)
  · rename_i filled
    have text : cursor.head.text ≠ "" := fun none => filled (none ▸ rfl)
    have entered : link.inside.Cursors range
        { cursor.taken with stream := cursor.taken.stream.enter (scanner cursor.head) }
        { cursor'.taken with stream := cursor'.taken.stream.enter (scanner' cursor'.head) } :=
      ⟨lanes _ _ tokens known.1 text, after.range⟩
    have weight : ∀ (cursor : Cursor) (scanner : Scanner),
        { cursor with stream := cursor.stream.enter scanner }.weight = scanner.weight :=
      fun cursor scanner => by simp [Cursor.weight, TokenStream.enter, Lane.weight, Lane.start]
    have ends := steps steady.inside entered trivial ⟨by rw [weight]; omega, by rw [weight]; omega⟩
    unfold Parse.embedded
    generalize inner _ = result, inner' _ = result' at ends ⊢
    cases ends with
    | found met later further =>
      obtain ⟨back, back', outside⟩ := Advance.leave later further
      exact .found met ⟨by simpa only [back, back'] using after.active, later.range⟩
        (advance.trans outside spent.1)
    | rejected met later further =>
      obtain ⟨back, back', outside⟩ := Advance.leave later further
      exact .rejected met.outside ⟨by simpa only [back, back'] using after.active, later.range⟩
        (advance.trans outside spent.2)

/-! ### Declarations -/

/-- Put what was found before in front of what is found. -/
def prepend (values : List α) : Outcome (List α) × Cursor → Outcome (List α) × Cursor
  | (.found later, behind) => (.found (values ++ later), behind)
  | (.rejected fault, behind) => (.rejected fault, behind)
  | (.exhausted, behind) => (.exhausted, behind)

theorem prepend_nil (result : Outcome (List α) × Cursor) : prepend [] result = result := by
  rcases result with ⟨_ | _ | _, _⟩ <;> rfl

theorem prepend_prepend (first second : List α) (result : Outcome (List α) × Cursor) :
    prepend first (prepend second result) = prepend (first ++ second) result := by
  rcases result with ⟨_ | _ | _, _⟩ <;> simp [prepend]

end Link

namespace Parse

variable {α : Type} {phrase : Parse α} {recover : Parse Unit} {bound : Nat} {cursor : Cursor}

theorem fill_fill (cursor : Cursor) : (cursor.fill 0).fill 0 = cursor.fill 0 := by
  have held : 0 < (cursor.stream.fill 0).active.ahead.length := by
    rw [TokenStream.active_fill, Lane.length_fill]
    omega
  have none : 0 + 1 - (cursor.stream.fill 0).active.ahead.length = 0 := by omega
  simp only [Cursor.fill]
  rw [TokenStream.fill, none]
  rfl

theorem declarations_succ :
    declarations phrase recover (bound + 1) cursor =
    if cursor.head.kind = .eof then (.found [], cursor.fill 0)
    else match phrase (cursor.fill 0) with
      | (.found value, behind) => Link.prepend [value] (declarations phrase recover bound behind)
      | (.rejected fault, behind) =>
        (recover >>= fun _ => declarations phrase recover bound)
          { behind with faults := behind.faults ++ [fault] }
      | (.exhausted, behind) => (.exhausted, behind) := by
  have finished : isFinished cursor = (.found (decide (cursor.head.kind = .eof)), cursor.fill 0) :=
    kind_ahead_bind 0 fun kind => pure (decide (kind = .eof))
  rw [declarations, bind_apply, finished]
  by_cases done : cursor.head.kind = .eof
  · simp only [done, decide_true, if_true]
    rfl
  · simp only [done, decide_false, if_false, Bool.false_eq_true]
    rw [bind_apply, attempt]
    rcases phrase (cursor.fill 0) with ⟨outcome, behind⟩
    cases outcome with
    | found value =>
      dsimp only
      rw [bind_apply]
      rcases declarations phrase recover bound behind with ⟨later, after⟩
      cases later <;> rfl
    | rejected fault => rfl
    | exhausted => rfl

theorem declarations_finished (finished : cursor.head.kind = .eof) :
    declarations phrase recover (bound + 1) cursor = (.found [], cursor.fill 0) := by
  rw [declarations_succ, if_pos finished]

theorem skip_until_succ (kinds : List TokenKind) (bound : Nat) (cursor : Cursor) :
    skipUntil kinds (bound + 1) cursor =
    (if cursor.head.kind = .eof || kinds.contains cursor.head.kind then pure ()
      else skip >>= fun _ => skipUntil kinds bound : Parse Unit) (cursor.fill 0) :=
  kind_ahead_bind 0 _

/-- Dropping tokens is never rejected. -/
theorem skip_until_ne_rejected (kinds : List TokenKind) (bound : Nat) (cursor behind : Cursor)
    (fault : Diagnostic) : skipUntil kinds bound cursor ≠ (.rejected fault, behind) := by
  induction bound generalizing cursor with
  | zero => exact nofun
  | succ bound ih =>
    rw [skip_until_succ]
    split
    · exact nofun
    · exact ih _

end Parse

namespace Link

variable {link : Link} {α β : Type} {related : α → β → Prop} {phrase : Parse α} {phrase' : Parse β}
  {room bound : Nat × Nat} {kinds : List TokenKind} {cursor cursor' : Cursor}

/-- A phrase is rejected at once where the next token does not begin it. -/
def Refuses (kinds : List TokenKind) (phrase : Parse α) : Prop :=
  ∀ cursor : Cursor, cursor.head.kind ∉ kinds → ∃ fault range, phrase cursor =
    (.rejected fault, { cursor.fill 0 with range })

/-- Where a declaration is rejected, both readers report it and find the place to go on. -/
theorem recover_alike
    (steps : link.Lockstep heads pace room (fun _ _ => True) (skipUntil kinds bound.1)
      (skipUntil kinds bound.2))
    (met : link.Faults fault fault') (linked : link.Cursors link.Ranges cursor cursor')
    (known : heads cursor.head.kind cursor'.head.kind) (light : Light room cursor cursor') :
    ∃ after after', skipUntil kinds bound.1 { cursor with faults := cursor.faults ++ [fault] } =
      (.found (), after) ∧
      skipUntil kinds bound.2 { cursor' with faults := cursor'.faults ++ [fault'] } =
      (.found (), after') ∧
      link.Cursors link.Ranges after after' ∧
      link.Advance pace.spent cursor cursor' after after' := by
  have noted : link.Cursors link.Ranges { cursor with faults := cursor.faults ++ [fault] }
      { cursor' with faults := cursor'.faults ++ [fault'] } := ⟨linked.active, linked.range⟩
  have ends := steps steady_ranges noted known light
  generalize ran : skipUntil kinds bound.1 _ = result, skipUntil kinds bound.2 _ = result' at ends ⊢
  cases ends with
  | found _ ends advance =>
    exact ⟨_, _, rfl, rfl, ends, (Advance.note met).trans advance (Nat.le_add_left ..)⟩
  | rejected => cases skip_until_ne_rejected _ _ _ _ _ ran

variable (sure : ∀ kind ∈ kinds, link.Lockstep (At kind) .always room related phrase phrase')
  (refuses : Refuses kinds phrase) (refuses' : Refuses kinds phrase')
  (bracket : link.IsOpen → TokenKind.leftBracket ∈ kinds)
  (linked : link.Cursors link.Ranges cursor cursor')
  (light : Light room cursor cursor') (recovers : Light bound cursor cursor')

include sure refuses refuses' bracket linked light recovers

theorem rejected_alike (tokens : link.Tokens cursor.head cursor'.head)
    (unfinished : cursor.head.kind ≠ .eof) (ran : phrase cursor = (.rejected fault, behind))
    (ran' : phrase' cursor' = (.rejected fault', behind')) (met : link.Faults fault fault')
    (after : link.Cursors link.Ranges behind behind')
    (advance : link.Advance 0 cursor cursor' behind behind') :
    ∃ later later', skipUntil kinds bound.1 { behind with faults := behind.faults ++ [fault] } =
      (.found (), later) ∧
      skipUntil kinds bound.2 { behind' with faults := behind'.faults ++ [fault'] } =
      (.found (), later') ∧
      link.Cursors link.Ranges later later' ∧ link.Advance 1 cursor cursor' later later' := by
  have recovers_behind := recovers.after advance le_rfl
  by_cases begins : cursor.head.kind ∈ kinds
  · -- The phrase begins here, so it has taken its first token.
    have ends := sure _ begins steady_ranges linked ⟨rfl, tokens.kind⟩ light
    rw [ran, ran'] at ends
    cases ends with
    | rejected _ _ lost =>
      have skips : link.Lockstep Anywhere .any bound (fun _ _ => True) _ _ :=
        Lockstep.skip_until bracket le_rfl
      obtain ⟨later, later', recovered, recovered', ends, further⟩ :=
        recover_alike skips met after trivial recovers_behind
      exact ⟨later, later', recovered, recovered', ends, lost.trans further le_rfl⟩
  · -- The phrase has taken nothing, and the token at which it was rejected is dropped.
    obtain ⟨_, _, stopped⟩ := refuses cursor begins
    obtain ⟨_, _, stopped'⟩ := refuses' cursor' (tokens.kind ▸ begins)
    cases ran.symm.trans stopped
    cases ran'.symm.trans stopped'
    obtain ⟨bound, rfl⟩ := recovers.exists_eq_add
    have skips : link.Lockstep (At cursor.head.kind) .always (bound + 1) (fun _ _ => True) _ _ :=
      Lockstep.skip_until_behind bracket le_rfl unfinished begins
    have known : At cursor.head.kind (cursor.fill 0).head.kind (cursor'.fill 0).head.kind :=
      ⟨by rw [Cursor.head_fill], by rw [Cursor.head_fill, tokens.kind]⟩
    obtain ⟨later, later', recovered, recovered', ends, further⟩ :=
      recover_alike skips met after known recovers_behind
    exact ⟨later, later', recovered, recovered', ends, advance.trans further le_rfl⟩

/-- Every declaration of the first text is read alike, and the second reader goes on where the first
ends. -/
theorem declarations_alike (steps : link.Lockstep Together .found room related phrase phrase')
    (enough : Light rounds cursor cursor') :
    ∃ values behind values' behind' left,
      declarations phrase (skipUntil kinds bound.1) rounds.1 cursor = (.found values, behind) ∧
      declarations phrase' (skipUntil kinds bound.2) rounds.2 cursor' = prepend values'
        (declarations phrase' (skipUntil kinds bound.2) left behind') ∧
      List.Forall₂ related values values' ∧ link.Cursors link.Ranges behind behind' ∧
      link.Advance 0 cursor cursor' behind behind' ∧ behind.head.kind = .eof ∧
      behind'.fill 0 = behind' ∧
      behind'.weight < left := by
  obtain ⟨rounds, rounds'⟩ := rounds
  induction rounds generalizing rounds' cursor cursor' with
  | zero => cases enough.1
  | succ rounds ih =>
    obtain ⟨rounds', rfl⟩ := Nat.exists_eq_add_one_of_ne_zero (Nat.ne_zero_of_lt enough.2)
    have enough : Light ((rounds, rounds') + 1) cursor cursor' := enough
    obtain ⟨filled, advance⟩ := linked.fill 0
    by_cases done : cursor.head.kind = .eof
    · refine ⟨[], cursor.fill 0, [], cursor'.fill 0, rounds' + 1, ?_, ?_, .nil, filled, advance, ?_,
        fill_fill cursor', Nat.lt_of_le_of_lt advance.right.lighter enough.2⟩
      · rw [declarations_finished done]
      · rw [prepend_nil, declarations_succ, declarations_succ, Cursor.head_fill, fill_fill]
      · rwa [Cursor.head_fill]
    · have tokens : link.Tokens cursor.head cursor'.head :=
        linked.heads.resolve_right fun apart => done apart.2.1
      have tokens_filled : link.Tokens (cursor.fill 0).head (cursor'.fill 0).head := by
        simpa using tokens
      have done' : cursor'.head.kind ≠ .eof := tokens.kind ▸ done
      rw [declarations_succ, if_neg done, declarations_succ, if_neg done']
      have ends := steps steady_ranges filled tokens_filled.kind.symm (light.after advance le_rfl)
      generalize ran : phrase _ = result, ran' : phrase' _ = result' at ends ⊢
      cases ends with
      | @found value value' behind behind' met after spent =>
        have further : link.Advance 1 cursor cursor' behind behind' := advance.trans spent le_rfl
        obtain ⟨values, last, values', last', left, found, found', all, ends, rest, finished, held,
          some_left⟩ :=
          ih after (light.after further le_self_add) (recovers.after further le_self_add) rounds'
            (enough.after further le_rfl)
        simp only
        rw [found, found']
        refine ⟨value :: values, last, value' :: values', last', left, rfl, ?_, .cons met all, ends,
          further.trans rest (Nat.zero_le _), finished, held, some_left⟩
        exact prepend_prepend [value'] values' _
      | rejected met after lost =>
        obtain ⟨later, later', recovered, recovered', ends, dropped⟩ :=
          rejected_alike sure refuses refuses' bracket filled (light.after advance le_rfl)
            (recovers.after advance le_rfl) tokens_filled (by simpa using done) ran ran' met
            after lost
        have further : link.Advance 1 cursor cursor' later later' := advance.trans dropped le_rfl
        obtain ⟨values, last, values', last', left, found, found', all, ends, rest, finished, held,
          some_left⟩ :=
          ih ends (light.after further le_self_add) (recovers.after further le_self_add) rounds'
            (enough.after further le_rfl)
        simp only
        rw [bind_apply, bind_apply, recovered, recovered']
        simp only
        exact ⟨values, last, values', last', left, found, found', all, ends,
          further.trans rest (Nat.zero_le _), finished, held, some_left⟩

end Link

end TriggerScript
