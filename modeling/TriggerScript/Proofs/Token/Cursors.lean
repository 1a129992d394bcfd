import TriggerScript.Proofs.Token.Succession

/-!
Streams as stacks of cursors.

A stream reads its texts on demand, sets comments aside and forgets the faults that it was asked
for. To its reader it is a stack of cursors: each stands somewhere in the list of all tokens of a
text, comments apart. Every answer of a stream is that of the cursors, and every fault that was
noted is told once or still kept.
-/

namespace TriggerScript

open List

namespace Scanner

variable {scanner : Scanner} (earlier : List Diagnostic)

/-! ### Faults that were noted before -/

/-- The scanner with further faults that were noted before its own. -/
def noting (scanner : Scanner) : Scanner := { scanner with faults := earlier ++ scanner.faults }

theorem scan_noting (scanner : Scanner) :
    (scanner.noting earlier).scan = scanner.scan.map id (noting earlier) := by
  rw [scanner.scan_eq_carry]
  exact (scan_carry (.inl rfl)).trans (by simp [carry, noting])

theorem next_noting (scanner : Scanner) :
    (scanner.noting earlier).next = scanner.next.map id (noting earlier) := by
  simp only [next, scan_noting, Prod.map, id]
  split <;> rfl

/-- Faults noted before do not change what is read, and are kept before those that are noted on the
way. -/
theorem advance_noting (scanner : Scanner) :
    (scanner.noting earlier).advance.2 = scanner.advance.2.map id (noting earlier) := by
  induction scanner using advance_induction with
  | reads scanner token => rw [advance_eq, next_noting, Prod.map, if_neg (by exact token)]
  | skips scanner comment ih =>
    rw [advance_eq, next_noting, Prod.map, if_pos (by exact comment)]
    exact ih

/-! ### All tokens of a text -/

/-- Nothing but blanks is ahead. -/
def atEnd (scanner : Scanner) : Bool :=
  scanner.pending.isNone && scanner.rest.all fun placed => isBlank placed.char

theorem not_at_end_iff {scanner : Scanner} (kept : scanner.pending = none) : scanner.atEnd = false ↔
      ∃ first rest, (scanner.rest.dropWhile fun placed => isBlank placed.char) = first :: rest := by
  rw [atEnd, kept, ← ne_nil_iff_exists_cons]
  simp [dropWhile_eq_nil_iff]

theorem remaining_next_lt {scanner : Scanner} (unfinished : scanner.atEnd = false) :
    scanner.next.2.remaining < scanner.remaining := by
  have scanned : scanner.scan.2.remaining < scanner.remaining := by
    unfold scan
    split
    case h_1 pending set_aside => simp [remaining, set_aside]
    case h_2 kept =>
      obtain ⟨first, rest, ahead⟩ := (not_at_end_iff kept).mp unfinished
      have shorter := length_dropWhile_le (fun placed => isBlank placed.char) scanner.rest
      have behind := length_rest_dispatch scanner first rest
      rw [ahead, length_cons] at shorter
      simp only [ahead, remaining, kept]
      split <;> omega
  simp only [next]
  split <;> exact scanned

/-- Every token up to the end of a text, comments included. -/
def allTokens (scanner : Scanner) : List Token :=
  if finished : scanner.atEnd = true then []
  else
    have := remaining_next_lt (Bool.not_eq_true _ ▸ finished)
    scanner.next.1 :: allTokens scanner.next.2
termination_by scanner.remaining

/-- The report of the end. -/
def ending (scanner : Scanner) : Token := ⟨.eof, scanner.spanTo scanner.stop [], some ""⟩

theorem ending_next (scanner : Scanner) : scanner.next.2.ending = scanner.ending := by
  have scanned : scanner.scan.2.stop = scanner.stop ∧ scanner.scan.2.base = scanner.base := by
    rw [scan_eq_carry]
    exact ⟨rfl, rfl⟩
  simp only [next]
  split <;> simp [ending, spanTo, scanned]

theorem scan_at_end (finished : scanner.atEnd = true) :
    scanner.pending = none ∧ scanner.scan = scanner.finish := by
  rw [atEnd, Bool.and_eq_true, Option.isNone_iff_eq_none] at finished
  have blank : (scanner.rest.dropWhile fun placed => isBlank placed.char) = [] := by
    simpa [dropWhile_eq_nil_iff] using finished.2
  exact ⟨finished.1, by simp only [scan, finished.1, blank]⟩

theorem next_at_end (finished : scanner.atEnd = true) :
    scanner.next.1 = scanner.ending ∧ scanner.next.2.atEnd = true := by
  obtain ⟨kept, read⟩ := scan_at_end finished
  have left : scanner.finish.2.pending = none ∧ scanner.finish.2.rest = [] := by
    simp only [finish]
    split <;> exact ⟨kept, rfl⟩
  simp only [next, read]
  refine ⟨rfl, ?_⟩
  rw [if_neg (by simp [finish])]
  simp [atEnd, left]

theorem token_at_end {scanner : Scanner} (finished : scanner.atEnd = true) (index : Nat) :
    scanner.token index = scanner.ending := by
  induction index generalizing scanner with
  | zero =>
    obtain ⟨read, _⟩ := next_at_end finished
    rw [token, after, Nat.repeat, advance_eq, read, if_neg (by simp [ending])]
    exact read
  | succ index ih =>
    obtain ⟨read, kept⟩ := next_at_end finished
    rw [token_succ, advance_eq, read, if_neg (by simp [ending]), ih kept, ending_next]

/-- The tokens of a text one after the other: those up to its end, comments apart, and then the
end. -/
theorem token_eq (scanner : Scanner) (index : Nat) : scanner.token index =
      (scanner.allTokens.filter fun token => token.kind ≠ .comment).getD index scanner.ending := by
  fun_induction allTokens scanner generalizing index with
  | case1 scanner finished => exact token_at_end finished index
  | case2 scanner unfinished _ ih =>
    rw [ending_next] at ih
    by_cases comment : scanner.next.1.kind = .comment
    · have same : scanner.advance.2 = scanner.next.2.advance.2 := by rw [advance_eq, if_pos comment]
      rw [filter_cons_of_neg (by simpa using comment), (after_of_advance same).1]
      exact ih index
    · have read : scanner.advance.2 = scanner.next := by rw [advance_eq, if_neg comment]
      rw [filter_cons_of_pos (by simpa using comment)]
      cases index with
      | zero => exact congrArg Prod.fst read
      | succ index =>
        rw [token_succ, read]
        exact ih index

end Scanner

/-! ### Cursors -/

/-- A place in the tokens of a text. -/
structure TokenCursor where
  /-- The text as it was opened. -/
  source : Scanner
  /-- The number of tokens that were taken. -/
  position : Nat
  /-- The number of tokens that were looked at. -/
  reached : Nat
  /-- The number of faults that were told. -/
  told : Nat

namespace TokenCursor

def start (scanner : Scanner) : TokenCursor := ⟨scanner, 0, 0, 0⟩

/-- The tokens of the text, comments apart. -/
def tokens (cursor : TokenCursor) : List Token :=
  cursor.source.allTokens.filter fun token => token.kind ≠ .comment

/-- The token `count` places ahead. Behind the last one is the end, for ever. -/
def token (cursor : TokenCursor) (count : Nat) : Token :=
  cursor.tokens.getD (cursor.position + count) cursor.source.ending

/-- Look `count` places ahead. -/
def reach (cursor : TokenCursor) (count : Nat) : TokenCursor :=
  { cursor with reached := max cursor.reached (cursor.position + count + 1) }

/-- Move on by one token, unless it is the end. -/
def take (cursor : TokenCursor) : TokenCursor :=
  if (cursor.token 0).kind = .eof then cursor.reach 0
  else { cursor.reach 0 with position := cursor.position + 1 }

/-- The token before the position. -/
def previous (cursor : TokenCursor) : Option Token :=
  if cursor.position = 0 then none else cursor.tokens[cursor.position - 1]?

/-- The faults noted up to the last token that was looked at. -/
def noted (cursor : TokenCursor) : List Diagnostic := (cursor.source.after cursor.reached).faults

def untold (cursor : TokenCursor) : List Diagnostic := cursor.noted.drop cursor.told

def tell (cursor : TokenCursor) : TokenCursor := { cursor with told := cursor.noted.length }

end TokenCursor

/-- Cursors in texts and the texts embedded in them. -/
structure CursorStack where
  active : TokenCursor
  /-- The cursors around the active one, the nearest first. -/
  suspended : List TokenCursor
  /-- The cursors of texts that were closed, in that order. -/
  closed : List TokenCursor

/-! ### Calls and answers -/

/-- What a reader asks of a stream. -/
inductive StreamCall where
  | peek
  | lookahead (count : Nat)
  | peekKind (count : Nat)
  | take
  | previous
  | isFinished
  | enter (scanner : Scanner)
  | leave
  | takeFaults

inductive StreamAnswer where
  | token (token : Token)
  | kind (kind : TokenKind)
  | previous (token : Option Token)
  | truth (truth : Bool)
  | faults (faults : List Diagnostic)
  | silence

/-- The faults that an answer tells. -/
def StreamAnswer.told : StreamAnswer → List Diagnostic
  | .faults list => list
  | _ => []

def TokenStream.respond (stream : TokenStream) : StreamCall → StreamAnswer × TokenStream
  | .peek => stream.peek.map .token id
  | .lookahead count => (stream.lookahead count).map .token id
  | .peekKind count => (stream.lookahead count).map (fun token => .kind token.kind) id
  | .take => stream.take.map .token id
  | .previous => (.previous stream.previous, stream)
  | .isFinished => stream.isFinished.map .truth id
  | .enter scanner => (.silence, stream.enter scanner)
  | .leave => stream.leave.map .truth id
  | .takeFaults => stream.takeFaults.map .faults id

namespace CursorStack

def ofScanner (scanner : Scanner) : CursorStack := ⟨TokenCursor.start scanner, [], []⟩

/-- Tell all faults of all texts. -/
def tell (stack : CursorStack) : CursorStack :=
  ⟨stack.active.tell, stack.suspended.map TokenCursor.tell, stack.closed.map TokenCursor.tell⟩

def respond (stack : CursorStack) : StreamCall → StreamAnswer × CursorStack
  | .peek => (.token (stack.active.token 0), { stack with active := stack.active.reach 0 })
  | .lookahead count =>
    (.token (stack.active.token count), { stack with active := stack.active.reach count })
  | .peekKind count =>
    (.kind (stack.active.token count).kind, { stack with active := stack.active.reach count })
  | .take => (.token (stack.active.token 0), { stack with active := stack.active.take })
  | .previous => (.previous stack.active.previous, stack)
  | .isFinished =>
    (.truth ((stack.active.token 0).kind = .eof), { stack with active := stack.active.reach 0 })
  | .enter scanner =>
    (.silence, { stack with
      active := TokenCursor.start scanner
      suspended := stack.active :: stack.suspended })
  | .leave =>
    match stack.suspended with
    | [] => (.truth false, stack)
    | active :: suspended => (.truth true, ⟨active, suspended, stack.closed ++ [stack.active]⟩)
  | .takeFaults =>
    (.faults (Diagnostic.sorted (stack.closed.flatMap TokenCursor.untold ++ stack.active.untold ++
        stack.suspended.reverse.flatMap TokenCursor.untold)), stack.tell)

end CursorStack

/-- The answers to calls that are made one after the other, and what is left behind. -/
def respondAll {State : Type} (respond : State → StreamCall → StreamAnswer × State)
    (state : State) :
    List StreamCall → List StreamAnswer × State
  | [] => ([], state)
  | call :: rest =>
    let later := respondAll respond (respond state call).2 rest
    ((respond state call).1 :: later.1, later.2)

/-! ### Lanes and cursors -/

/-- The lane of a stream stands where a cursor stands: it holds the tokens that were looked at and
not taken, and the faults that were noted and not told. -/
structure Lane.Shows (lane : Lane) (cursor : TokenCursor) : Prop where
  position : cursor.position ≤ cursor.reached
  told : cursor.told ≤ cursor.noted.length
  scanner : lane.scanner = { cursor.source.after cursor.reached with faults := cursor.untold }
  ahead : lane.ahead =
    (List.range' cursor.position (cursor.reached - cursor.position)).map cursor.source.token
  previous : lane.previous = cursor.previous

namespace Lane

variable {lane : Lane} {cursor : TokenCursor}

theorem shows_start (scanner : Scanner) :
    (Lane.start scanner).Shows (TokenCursor.start scanner) where
  position := le_rfl
  told := Nat.zero_le _
  scanner := rfl
  ahead := rfl
  previous := rfl

variable (showing : lane.Shows cursor)

include showing

theorem Shows.faults : lane.scanner.faults = cursor.untold := by rw [showing.scanner]

theorem Shows.tell : (TokenStream.forgetFaults lane).Shows cursor.tell where
  position := showing.position
  told := le_rfl
  scanner := by
    have nothing : cursor.tell.untold = [] := drop_length
    simp only [TokenStream.forgetFaults, showing.scanner, nothing]
    rfl
  ahead := showing.ahead
  previous := showing.previous

theorem Shows.read_ahead : lane.readAhead.Shows { cursor with reached := cursor.reached + 1 } := by
  -- The faults that were told, which the lane has forgotten.
  have known : (cursor.source.after cursor.reached) = lane.scanner.noting
    (cursor.noted.take cursor.told) := by
    rw [showing.scanner, Scanner.noting]
    simp only [TokenCursor.untold, take_append_drop]
    rfl
  have step : (cursor.source.after cursor.reached).advance.2 =
      lane.scanner.advance.2.map id (Scanner.noting (cursor.noted.take cursor.told)) := by
    rw [known, Scanner.advance_noting]
  have length : (cursor.noted.take cursor.told).length = cursor.told := by
    rw [length_take, min_eq_left showing.told]
  have noted : ({ cursor with reached := cursor.reached + 1 } : TokenCursor).noted =
      cursor.noted.take cursor.told ++ lane.scanner.advance.2.2.faults :=
    congrArg (fun result => result.2.faults) step
  refine ⟨Nat.le_succ_of_le showing.position, ?_, ?_, ?_, showing.previous⟩
  · rw [noted, length_append, length]
    exact Nat.le_add_right ..
  · have left : ({ cursor with reached := cursor.reached + 1 } : TokenCursor).untold =
        lane.scanner.advance.2.2.faults := by
      rw [TokenCursor.untold, noted, drop_left' length]
    have after : cursor.source.after (cursor.reached + 1) =
        lane.scanner.advance.2.2.noting (cursor.noted.take cursor.told) := congrArg Prod.snd step
    rw [left]
    simp only [after, readAhead, Scanner.noting]
  · have longer : cursor.reached + 1 - cursor.position = cursor.reached - cursor.position + 1 :=
      Nat.succ_sub showing.position
    have token : lane.scanner.advance.2.1 = cursor.source.token cursor.reached :=
      (congrArg Prod.fst step).symm
    simp only [readAhead, showing.ahead, token, longer, range'_concat, map_append, map_cons,
      map_nil, Nat.one_mul, Nat.add_sub_cancel' showing.position]

theorem Shows.fill (count : Nat) : (lane.fill count).Shows (cursor.reach count) := by
  have rounds : ∀ rounds, (Nat.repeat readAhead rounds lane).Shows
      { cursor with reached := cursor.reached + rounds } := by
    intro rounds
    induction rounds with
    | zero => exact showing
    | succ rounds ih => exact ih.read_ahead
  have length : lane.ahead.length = cursor.reached - cursor.position := by simp [showing.ahead]
  have reached : cursor.reached + (count + 1 - lane.ahead.length) =
      max cursor.reached (cursor.position + count + 1) := by
    have position := showing.position
    omega
  rw [Lane.fill, TokenCursor.reach, ← reached]
  exact rounds _

theorem Shows.sight (count : Nat) : lane.sight count = cursor.token count := by
  have ahead := (showing.fill count).ahead
  have inside : count < max cursor.reached (cursor.position + count + 1) - cursor.position := by
    omega
  rw [Lane.sight, ahead, TokenCursor.token, TokenCursor.tokens, ← Scanner.token_eq,
    getD_eq_getElem?_getD]
  simp only [TokenCursor.reach, getElem?_map, getElem?_range' inside, Nat.one_mul]
  rfl

theorem Shows.take : lane.take.Shows cursor.take := by
  have filled := showing.fill 0
  have same := showing.sight 0
  by_cases finished : (cursor.token 0).kind = .eof
  · rw [take_of_finished (same ▸ finished), TokenCursor.take, if_pos finished]
    exact filled
  · obtain ⟨ahead, split, taken⟩ := @take_of_unfinished lane (same ▸ finished)
    rw [taken, TokenCursor.take, if_neg finished]
    refine ⟨?_, filled.told, filled.scanner, ?_, ?_⟩
    · simp only [TokenCursor.reach]
      omega
    · -- The first of the tokens at hand is the one that is taken.
      have longer : max cursor.reached (cursor.position + 0 + 1) - cursor.position =
          max cursor.reached (cursor.position + 0 + 1) - (cursor.position + 1) + 1 := by omega
      have held := split.symm.trans filled.ahead
      simp only [TokenCursor.reach, longer, range'_succ, map_cons] at held
      exact (List.cons.inj held).2
    · have inside : cursor.position < cursor.tokens.length := by
        by_contra outside
        refine finished ?_
        rw [TokenCursor.token, Nat.add_zero, getD_eq_default _ _ (Nat.le_of_not_lt outside)]
        rfl
      rw [same, TokenCursor.token, Nat.add_zero, getD_eq_getElem _ _ inside, TokenCursor.previous,
        if_neg (Nat.succ_ne_zero _)]
      exact (getElem?_eq_getElem inside).symm

end Lane

/-! ### Streams and stacks -/

/-- A stream stands where a stack of cursors stands. -/
structure TokenStream.Shows (stream : TokenStream) (stack : CursorStack) : Prop where
  active : stream.active.Shows stack.active
  suspended : List.Forall₂ Lane.Shows stream.suspended stack.suspended
  faults : stream.faults = stack.closed.flatMap TokenCursor.untold

namespace TokenStream

variable {stream : TokenStream} {stack : CursorStack}

theorem shows_of_scanner (scanner : Scanner) :
    (ofScanner scanner).Shows (CursorStack.ofScanner scanner) where
  active := Lane.shows_start scanner
  suspended := .nil
  faults := rfl

theorem Shows.lookahead (showing : stream.Shows stack) (count : Nat) :
    (stream.lookahead count).1 = stack.active.token count ∧
      (stream.lookahead count).2.Shows { stack with active := stack.active.reach count } := by
  refine ⟨?_, ?_, ?_, ?_⟩
  · rw [token_lookahead, showing.active.sight]
  · rw [TokenStream.lookahead, active_fill]
    exact showing.active.fill count
  · rw [TokenStream.lookahead, suspended_fill]
    exact showing.suspended
  · rw [TokenStream.lookahead, faults_fill]
    exact showing.faults

theorem Shows.take (showing : stream.Shows stack) :
    stream.take.1 = stack.active.token 0 ∧
      stream.take.2.Shows { stack with active := stack.active.take } := by
  obtain ⟨token, active, suspended, faults⟩ := stream.take_eq
  refine ⟨?_, ?_, ?_, ?_⟩
  · rw [token, showing.active.sight]
  · rw [active]
    exact showing.active.take
  · rw [suspended]
    exact showing.suspended
  · rw [faults]
    exact showing.faults

theorem kept_faults {lanes : List Lane} {cursors : List TokenCursor}
    (showing : Forall₂ Lane.Shows lanes cursors) :
    lanes.flatMap (fun lane => lane.scanner.faults) = cursors.flatMap TokenCursor.untold := by
  induction showing with
  | nil => rfl
  | cons first _ ih => rw [flatMap_cons, flatMap_cons, ih, first.faults]

theorem untold_tell (cursors : List TokenCursor) :
    (cursors.map TokenCursor.tell).flatMap TokenCursor.untold = [] := by
  rw [flatMap_map, flatMap_eq_nil_iff]
  exact fun cursor _ => drop_length

theorem Shows.take_faults (showing : stream.Shows stack) :
    stream.takeFaults.1 = Diagnostic.sorted
      (stack.closed.flatMap TokenCursor.untold ++ stack.active.untold ++
        stack.suspended.reverse.flatMap TokenCursor.untold) ∧
        stream.takeFaults.2.Shows stack.tell := by
  refine ⟨?_, showing.active.tell, ?_, (untold_tell _).symm⟩
  · rw [takeFaults, showing.faults, showing.active.faults,
      kept_faults (rel_reverse showing.suspended)]
  · refine forall₂_map_left_iff.mpr (forall₂_map_right_iff.mpr ?_)
    exact showing.suspended.imp fun _ _ lane => lane.tell

theorem Shows.respond (showing : stream.Shows stack) (call : StreamCall) :
    (stream.respond call).1 = (stack.respond call).1 ∧
      (stream.respond call).2.Shows (stack.respond call).2 := by
  cases call with
  | peek =>
    obtain ⟨token, after⟩ := showing.lookahead 0
    exact ⟨congrArg StreamAnswer.token token, after⟩
  | lookahead count =>
    obtain ⟨token, after⟩ := showing.lookahead count
    exact ⟨congrArg StreamAnswer.token token, after⟩
  | peekKind count =>
    obtain ⟨token, after⟩ := showing.lookahead count
    exact ⟨congrArg (fun token : Token => StreamAnswer.kind token.kind) token, after⟩
  | take =>
    obtain ⟨token, after⟩ := showing.take
    exact ⟨congrArg StreamAnswer.token token, after⟩
  | previous => exact ⟨congrArg StreamAnswer.previous showing.active.previous, showing⟩
  | isFinished =>
    obtain ⟨token, after⟩ := showing.lookahead 0
    exact ⟨congrArg (fun token : Token => StreamAnswer.truth (token.kind = .eof)) token, after⟩
  | enter scanner =>
    exact ⟨rfl, Lane.shows_start scanner, .cons showing.active showing.suspended, showing.faults⟩
  | leave =>
    have around := showing.suspended
    cases lanes : stream.suspended with
    | nil =>
      rw [lanes] at around
      have none := forall₂_nil_left_iff.mp around
      simp only [TokenStream.respond, TokenStream.leave, CursorStack.respond, lanes, none]
      exact ⟨rfl, showing⟩
    | cons lane rest =>
      rw [lanes] at around
      obtain ⟨cursor, others, first, behind, cursors⟩ := forall₂_cons_left_iff.mp around
      simp only [TokenStream.respond, TokenStream.leave, CursorStack.respond, lanes, cursors]
      refine ⟨rfl, first, behind, ?_⟩
      simp [showing.faults, showing.active.faults]
  | takeFaults =>
    obtain ⟨faults, after⟩ := showing.take_faults
    exact ⟨congrArg StreamAnswer.faults faults, after⟩

theorem Shows.respond_all (showing : stream.Shows stack) (calls : List StreamCall) :
    (respondAll TokenStream.respond stream calls).1 =
      (respondAll CursorStack.respond stack calls).1 ∧
      (respondAll TokenStream.respond stream calls).2.Shows
        (respondAll CursorStack.respond stack calls).2 := by
  induction calls generalizing stream stack with
  | nil => exact ⟨rfl, showing⟩
  | cons call rest ih =>
    obtain ⟨answer, after⟩ := showing.respond call
    obtain ⟨answers, final⟩ := ih after
    exact ⟨congrArg₂ cons answer answers, final⟩

/-- The faults that were noted and are not told yet. -/
def heldFaults (stream : TokenStream) : List Diagnostic :=
  stream.faults ++ stream.active.scanner.faults ++ stream.suspended.flatMap fun lane =>
    lane.scanner.faults

end TokenStream

/-! ### Faults told once -/

namespace CursorStack

variable {stack : CursorStack}

/-- Every cursor that was ever opened. -/
def cursors (stack : CursorStack) : List TokenCursor :=
  stack.closed ++ stack.active :: stack.suspended

/-- The faults noted in all texts. -/
def noted (stack : CursorStack) : List Diagnostic := stack.cursors.flatMap TokenCursor.noted

def untold (stack : CursorStack) : List Diagnostic := stack.cursors.flatMap TokenCursor.untold

/-- The faults that were told. -/
def told (stack : CursorStack) : List Diagnostic :=
  stack.cursors.flatMap fun cursor => cursor.noted.take cursor.told

/-- No cursor has told more than was noted. -/
def Fair (stack : CursorStack) : Prop := ∀ cursor ∈ stack.cursors, cursor.told ≤ cursor.noted.length

theorem told_append_untold (stack : CursorStack) :
    (stack.told ++ stack.untold).Perm stack.noted := by
  refine (flatMap_append_perm ..).trans (.of_eq ?_)
  exact congrArg (stack.cursors.flatMap ·) (funext fun cursor => take_append_drop ..)

/-- Looking further ahead does not change what was told. -/
theorem told_of_reached {cursor : TokenCursor} {position reached : Nat}
    (fair : cursor.told ≤ cursor.noted.length) (later : cursor.reached ≤ reached) :
    (TokenCursor.mk cursor.source position reached cursor.told).noted.take cursor.told =
      cursor.noted.take cursor.told ∧
      cursor.told ≤ (TokenCursor.mk cursor.source position reached cursor.told).noted.length := by
  have grows : cursor.noted <+: (cursor.source.after reached).faults := by
    have after := Scanner.after_add cursor.source cursor.reached (reached - cursor.reached)
    rw [Nat.add_sub_cancel' later] at after
    rw [after]
    exact Scanner.faults_after ..
  obtain ⟨new, split⟩ := grows
  refine ⟨?_, ?_⟩
  · rw [TokenCursor.noted, ← split, take_append_of_le_length fair]
  · rw [TokenCursor.noted, ← split, length_append]
    exact Nat.le_add_right_of_le fair

theorem told_active {cursor : TokenCursor} (fair : stack.Fair)
    (source : cursor.source = stack.active.source) (later : stack.active.reached ≤ cursor.reached)
    (told : cursor.told = stack.active.told) :
    { stack with active := cursor }.Fair ∧ { stack with active := cursor }.told = stack.told := by
  have bound := fair stack.active (mem_append_right _ mem_cons_self)
  obtain ⟨_, position, reached, _⟩ := cursor
  dsimp only at source later told
  subst source told
  obtain ⟨kept, still⟩ := @told_of_reached stack.active position reached bound later
  constructor
  · obtain ⟨closed, opened⟩ := forall_mem_append.mp fair
    exact forall_mem_append.mpr ⟨closed, forall_mem_cons.mpr ⟨still, (forall_mem_cons.mp opened).2⟩⟩
  · simp only [CursorStack.told, cursors, flatMap_append, flatMap_cons, kept]

theorem told_tell (stack : CursorStack) : stack.tell.Fair ∧ stack.tell.told = stack.noted := by
  have opened : stack.tell.cursors = stack.cursors.map TokenCursor.tell := by simp [cursors, tell]
  constructor
  · rw [Fair, opened]
    exact forall_mem_map.mpr fun cursor _ => le_rfl
  · rw [told, opened, flatMap_map, noted]
    exact congrArg (stack.cursors.flatMap ·) (funext fun cursor => take_length)

theorem told_respond (fair : stack.Fair) (call : StreamCall) : (stack.respond call).2.Fair ∧
      (stack.told ++ (stack.respond call).1.told).Perm (stack.respond call).2.told := by
  have moved : ∀ {cursor : TokenCursor}, cursor.source = stack.active.source →
      stack.active.reached ≤ cursor.reached → cursor.told = stack.active.told →
        { stack with active := cursor }.Fair ∧
        (stack.told ++ []).Perm { stack with active := cursor }.told := by
    intro cursor source later told
    obtain ⟨still, same⟩ := told_active fair source later told
    rw [append_nil, same]
    exact ⟨still, .refl _⟩
  cases call with
  | peek | lookahead | peekKind | isFinished => exact moved rfl (Nat.le_max_left ..) rfl
  | take =>
    refine moved ?_ ?_ ?_
    all_goals unfold TokenCursor.take
    all_goals split
    all_goals first | rfl | exact Nat.le_max_left ..
  | previous => exact ⟨fair, .of_eq (append_nil _)⟩
  | enter scanner =>
    constructor
    · obtain ⟨closed, opened⟩ := forall_mem_append.mp fair
      exact forall_mem_append.mpr ⟨closed, forall_mem_cons.mpr ⟨Nat.zero_le _, opened⟩⟩
    · refine .of_eq ?_
      simp [respond, told, cursors, TokenCursor.start, StreamAnswer.told]
  | leave =>
    cases around : stack.suspended with
    | nil =>
      simp only [respond, around]
      exact ⟨fair, .of_eq (append_nil _)⟩
    | cons cursor rest =>
      simp only [respond, around]
      have opened : (CursorStack.mk cursor rest (stack.closed ++ [stack.active])).cursors =
        stack.cursors := by
        simp [cursors, around]
      rw [Fair, told, told, opened]
      exact ⟨fair, .of_eq (append_nil _)⟩
  | takeFaults =>
    obtain ⟨still, all⟩ := stack.told_tell
    refine ⟨still, ?_⟩
    have answered : (stack.respond .takeFaults).1.told.Perm stack.untold := by
      refine (mergeSort_perm ..).trans ?_
      rw [untold, cursors, flatMap_append, flatMap_cons, append_assoc]
      exact ((reverse_perm _).flatMap_right _).append_left _ |>.append_left _
    simp only [respond, all]
    exact (answered.append_left _).trans stack.told_append_untold

theorem told_respond_all (fair : stack.Fair) (calls : List StreamCall) :
    (stack.told ++ (respondAll respond stack calls).1.flatMap StreamAnswer.told).Perm
      (respondAll respond stack calls).2.told := by
  induction calls generalizing stack with
  | nil => exact .of_eq (append_nil _)
  | cons call rest ih =>
    obtain ⟨still, here⟩ := told_respond fair call
    simp only [respondAll, flatMap_cons, ← append_assoc]
    exact (here.append_right _).trans (ih still)

end CursorStack

/-- Every answer of a stream is that of the stack of cursors, and whatever faults were noted in the
texts of the stream were told once or are kept. -/
theorem TokenStream.responds_as_cursors (scanner : Scanner) (calls : List StreamCall) :
    (respondAll TokenStream.respond (.ofScanner scanner) calls).1 =
        (respondAll CursorStack.respond (.ofScanner scanner) calls).1 ∧
      ((respondAll TokenStream.respond (.ofScanner scanner) calls).1.flatMap StreamAnswer.told ++
          (respondAll TokenStream.respond (.ofScanner scanner) calls).2.heldFaults).Perm
        (respondAll CursorStack.respond (.ofScanner scanner) calls).2.noted := by
  obtain ⟨answers, final⟩ := (shows_of_scanner scanner).respond_all calls
  refine ⟨answers, ?_⟩
  have fair : (CursorStack.ofScanner scanner).Fair := List.forall_mem_singleton.mpr (Nat.zero_le _)
  have told := CursorStack.told_respond_all fair calls
  have nothing : (CursorStack.ofScanner scanner).told = [] := rfl
  have held : (respondAll TokenStream.respond (.ofScanner scanner) calls).2.heldFaults =
      (respondAll CursorStack.respond (.ofScanner scanner) calls).2.untold := by
    rw [heldFaults, final.faults, final.active.faults, kept_faults final.suspended,
      CursorStack.untold, CursorStack.cursors, List.flatMap_append, List.flatMap_cons,
      List.append_assoc]
  rw [nothing, List.nil_append] at told
  rw [answers, held]
  exact (told.append_right _).trans (CursorStack.told_append_untold _)

end TriggerScript
