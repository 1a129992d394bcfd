import TriggerScript.Proofs.Parsing.Expressions
import TriggerScript.Script.Statement

/-!
Statements read side by side.

Statements are read alike in texts that correspond, unless a border stands behind a comma: only the
targets of an assignment are read without asking for the kind of the next token.
-/

namespace TriggerScript

open Parse Stmt

variable {link : Link} {grammar grammar' : Grammar} {heads : TokenKind → TokenKind → Prop}
  {room bound : Nat × Nat} {expression expression' : Parse Expr} {statement statement' : Parse Stmt}

open Link

/-- No border stands behind a comma. -/
def Link.Unbroken (link : Link) : Prop := Lockstep.Behind link .comma Together

theorem Link.Lockstep.together {α β : Type} {pace : Pace} {related : α → β → Prop} {left : Parse α}
    {right : Parse β} (steps : ∀ kind, link.Lockstep (At kind) pace room related left right) :
    link.Lockstep Together pace room related left right :=
  fun _ steady _ _ linked known => steps _ steady linked ⟨rfl, known.symm⟩

theorem Prim.parse_marked_alike (kind : TokenKind) (mark : String)
    (inside : kind ≠ .eof ∧ kind ≠ .leftBracket) :
    link.Repeats heads .found room (fun value value' => value.1 = value'.1 ∧
      link.Places value.2 value'.2)
      (parseMarked kind mark) := by
  refine (Lockstep.expect kind inside).follow rfl fun token token' tokens => ?_
  have same : ofMarked? mark token' = ofMarked? mark token := by
    simp only [ofMarked?, tokens.1.text]
  rw [same, tokens.1.text]
  cases ofMarked? mark token with
  | some prim => exact .found ⟨rfl, tokens.1.places⟩
  | none => exact (Lockstep.reject tokens.1.places).loose

namespace Stmt

/-- The same statement wherever it stands. -/
def Built (build build' : Span → Stmt) : Prop := ∀ span span', (build span).Alike (build' span')

section Parts

variable (shared : link.Shares grammar grammar')
  (steps : link.Lockstep Anywhere .found room Expr.Alike expression expression')
  (inner : link.Lockstep Anywhere .found room Alike statement statement')
  (fits : room ≤ bound)

include shared in
theorem ahead_alike : link.Lockstep heads .any room Eq (ahead grammar) (ahead grammar') := by
  have same : ∀ kind, isStart grammar' kind = isStart grammar kind := fun kind => by
    cases kind <;> simp only [isStart, Expr.isStart, shared.calls]
  refine .asks same fun is_open => ?_
  obtain ⟨finish, bracket⟩ := shared.border is_open
  simp only [isStart, Expr.isStart, finish, bracket]

theorem parse_word_alike {kind : TokenKind} (unfinished : kind ≠ .eof) (built : Built build build) :
    link.Repeats (At kind) .found (room + 1) Built (parseWord build) := by
  refine .take unfinished fun _ _ _ _ => ?_
  exact .past (by decide) (.found built)

include shared steps fits in
theorem parse_return_alike :
    link.Lockstep (At .returnWord) .found (room + 1) Built (parseReturn grammar expression bound.1)
      (parseReturn grammar' expression' bound.2) := by
  refine .expect_ahead (.take nofun fun _ _ _ _ => ?_)
  refine (Expr.arguments_alike shared (fun _ => steps) fits).seq rfl fun values values' alike => ?_
  refine .past (by decide) (.found fun _ _ => ?_)
  simp only [Alike, unplaced, map_eq_of_forall₂ alike]

/-! ### Variables -/

/-- The type and the name that a declaration begins with. -/
def declared (cause : GrammarFault) : Parse (Prim × Ident) := do
  let (prim, _) ← Prim.parseMarked .define defineMark
  if !(← Parse.accept .dollar) then Parse.rejectNext cause
  else
    let name ← Ident.parse
    return (prim, name)

/-- The value and the end of a declared variable. -/
def initial (expression : Parse Expr) (named : Prim × Ident) : Parse (Span → Stmt) := do
  let init ←
    if ← .accept .equals then
      if ← .accept .nullWord then pure none else some <$> expression
    else pure none
  let _ ← Parse.expect .semicolon
  return fun span => .declare span named.1 named.2 init none

/-- The size and the end of a declared array. -/
def sized (expression : Parse Expr) (named : Prim × Ident) : Parse (Span → Stmt) := do
  let size ← Expr.parenthesized expression
  let _ ← Parse.expect .semicolon
  return fun span => .declareArray span named.1 named.2 size none

theorem declared_bind (cause : GrammarFault) (next : Prim × Ident → Parse (Span → Stmt)) :
    declared cause >>= next = Prim.parseMarked .define defineMark >>= fun marked =>
      accept .dollar >>= fun dollar =>
        if !dollar then rejectNext cause else Ident.parse >>= fun name =>
          next (marked.1, name) := by
  rw [declared, bind_bind]
  congr 1
  funext marked
  rw [bind_bind]
  congr 1
  funext dollar
  cases dollar with
  | false =>
    funext cursor
    simp only [Bool.not_false, if_true, bind_apply, reject_next_apply]
  | true => exact bind_bind ..

theorem parse_declare_eq (expression : Parse Expr) :
    parseDeclare expression = declared .expectingLocalName >>= initial expression := by
  rw [declared_bind]
  rfl

theorem parse_declare_array_eq (expression : Parse Expr) :
    parseDeclareArray expression = declared .expectingArrayName >>= sized expression := by
  rw [declared_bind]
  rfl

/-- At a border it does not matter what was expected. -/
theorem declared_alike (same : cause = cause' ∨ link.IsOpen) :
    link.Lockstep heads .found room (fun value value' => value.1 = value'.1 ∧
      value.2.Alike value'.2)
      (declared cause) (declared cause') := by
  refine (Prim.parse_marked_alike .define defineMark (by decide)).follow rfl
    fun marked marked' alike => ?_
  refine .accepts (by decide) ?_ (Lockstep.reject_next_of fun _ _ => same).loose
  exact Ident.parse_alike.loose.map rfl fun name name' named => ⟨alike.1, named⟩

include steps in
theorem initial_alike {named named' : Prim × Ident}
    (alike : named.1 = named'.1 ∧ named.2.Alike named'.2) :
    link.Lockstep Anywhere .any room Built (initial expression named)
    (initial expression' named') := by
  have closes : ∀ init init' : Option Expr, init.map Expr.unplaced = init'.map Expr.unplaced →
      link.Lockstep Anywhere .any room Built
        (Parse.expect .semicolon >>= fun _ => pure fun span =>
          .declare span named.1 named.2 init none)
        (Parse.expect .semicolon >>= fun _ => pure fun span =>
          .declare span named'.1 named'.2 init' none) := by
    intro init init' same
    refine .past (by decide) (.found fun _ _ => ?_)
    simp only [Alike, unplaced, alike.1, alike.2, same]
  have something : link.Lockstep Anywhere .any room
      (fun init init' : Option Expr => init.map Expr.unplaced = init'.map Expr.unplaced)
      (expression >>= fun value => pure (some value))
      (expression' >>= fun value => pure (some value)) :=
    steps.loose.map rfl fun value value' alike => congrArg some alike
  exact .accepts (by decide) (.accepts (by decide) (closes none none rfl)
    (something.seq rfl closes)) (closes none none rfl)

include steps in
theorem sized_alike {named named' : Prim × Ident}
    (alike : named.1 = named'.1 ∧ named.2.Alike named'.2) :
    link.Lockstep Anywhere .any room Built (sized expression named) (sized expression' named') := by
  refine (Expr.parenthesized_alike steps).loose.seq rfl fun size size' same => ?_
  refine .past (by decide) (.found fun _ _ => ?_)
  simp only [Alike, unplaced, alike.1, alike.2, same]

/-- A declaration that names a variable has a dollar sign and a name behind its first token. -/
theorem sights_of_declared (found : declared cause cursor = (.found value, behind)) :
    (cursor.stream.active.sight 1).kind = .dollar ∧
      (cursor.stream.active.sight 2).kind = .identifier := by
  obtain ⟨marked, middle, define, found⟩ := found_of_bind found
  obtain ⟨define, taken⟩ := found_of_expect define
  have first := Cursor.sight_taken (define ▸ nofun : cursor.head.kind ≠ .eof) 0
  have same : middle = (cursor.fill 0).taken := by
    cases read : Prim.ofMarked? defineMark cursor.head <;> rw [read] at taken <;> cases taken
    rfl
  subst same
  dsimp only at found
  rw [accept_apply] at found
  split at found
  · rename_i dollar
    have second := Cursor.sight_taken (dollar ▸ nofun : (cursor.fill 0).taken.head.kind ≠ .eof) 0
    obtain ⟨_, _, name, -⟩ := found_of_bind found
    have named := (found_of_expect name).1
    rw [Cursor.head, first] at dollar
    rw [Cursor.head, second, first] at named
    exact ⟨dollar, named⟩
  · cases found

include steps in
theorem parse_declare_alike (isArray : Bool) : link.Lockstep Anywhere .found (room + 1) Built
      (if isArray then parseDeclareArray expression else parseDeclare expression)
      (if isArray then parseDeclareArray expression' else parseDeclare expression') := by
  cases isArray with
  | false =>
    simp only [Bool.false_eq_true, if_false, parse_declare_eq]
    exact (declared_alike (.inl rfl)).step fun named named' alike => initial_alike steps alike
  | true =>
    simp only [if_true, parse_declare_array_eq]
    exact (declared_alike (.inl rfl)).step fun named named' alike => sized_alike steps alike

/-- Where a declaration is cut short before the name of its variable, it is rejected whatever it
declares. -/
theorem cut_short_alike (is_open : link.IsOpen) (steady : link.Steady range)
    (linked : link.Cursors range cursor cursor') (light : Light room cursor cursor')
    (short : ¬ ((cursor.stream.active.sight 1).kind = .dollar ∧
      (cursor.stream.active.sight 2).kind = .identifier))
    (isArray isArray' : Bool) :
    link.Ends range .found Built cursor cursor'
      ((if isArray then parseDeclareArray expression else parseDeclare expression) cursor)
      ((if isArray' then parseDeclareArray expression' else parseDeclare expression') cursor') := by
  have splits : ∀ (isArray : Bool) (expression : Parse Expr), ∃ cause next,
      (if isArray then parseDeclareArray expression else parseDeclare expression) =
      declared cause >>= next := by
    intro isArray expression
    cases isArray with
    | false => exact ⟨_, _, parse_declare_eq expression⟩
    | true => exact ⟨_, _, parse_declare_array_eq expression⟩
  obtain ⟨cause, next, split⟩ := splits isArray expression
  obtain ⟨cause', next', split'⟩ := splits isArray' expression'
  rw [split, split', bind_apply, bind_apply]
  have steps : link.Lockstep Anywhere .found room
      (fun value value' => value.1 = value'.1 ∧ value.2.Alike value'.2) (declared cause)
      (declared cause') :=
    declared_alike (.inr is_open)
  have ends := steps steady linked trivial light
  generalize ran : declared cause cursor = result, declared cause' cursor' = result' at ends ⊢
  cases ends with
  | found => exact absurd (sights_of_declared ran) short
  | rejected met after advance => exact .rejected met after advance

/-- The fourth token tells an array from a variable, unless the declaration is cut short at a
border. -/
theorem fourth_alike (linked : link.Lanes lane other) (define : (lane.sight 0).kind = .define) :
    decide ((other.sight 3).kind = .leftParen) = decide ((lane.sight 3).kind = .leftParen) ∨
      link.IsOpen ∧ ¬ ((lane.sight 1).kind = .dollar ∧ (lane.sight 2).kind = .identifier) := by
  rcases linked with ⟨-, within, rfl⟩ | border
  · rw [Lane.sight_move link.move within]
    exact .inl rfl
  · by_cases named : (lane.sight 1).kind = .dollar ∧ (lane.sight 2).kind = .identifier
    · have goes_on : ∀ before < 3, (lane.sight before).kind ≠ .eof := by
        intro before less
        obtain rfl | rfl | rfl : before = 0 ∨ before = 1 ∨ before = 2 := by omega
        · exact define ▸ nofun
        · exact named.1 ▸ nofun
        · exact named.2 ▸ nofun
      rcases Lanes.heads_at (.inr border) goes_on with tokens | ⟨-, finished, bracket⟩
      · rw [tokens.kind]
        exact .inl rfl
      · rw [finished, bracket]
        exact .inl rfl
    · exact .inr ⟨⟨lane, other, border⟩, named⟩

include steps in
theorem define_alike :
    link.Lockstep (At .define) .found (room + 1) Built (kindAhead 3 >>= fun behind =>
        if behind = .leftParen then parseDeclareArray expression else parseDeclare expression)
      (kindAhead 3 >>= fun behind =>
        if behind = .leftParen then parseDeclareArray expression' else parseDeclare
          expression') := by
  intro range steady cursor cursor' linked known light
  obtain ⟨filled, advance⟩ := linked.fill 3
  have light : Light (room + 1) (cursor.fill 3) (cursor'.fill 3) := light.after advance le_rfl
  rw [kind_ahead_bind, kind_ahead_bind]
  refine Ends.after ?_ advance (Nat.le_add_left ..) (Nat.le_add_left ..)
  have chooses : ∀ (kind : TokenKind) (expression : Parse Expr),
      (if kind = .leftParen then parseDeclareArray expression else parseDeclare expression) =
        if decide (kind = .leftParen) then parseDeclareArray expression else parseDeclare
          expression :=
    fun kind expression => by simp only [decide_eq_true_eq]
  rw [chooses, chooses]
  rcases fourth_alike linked.active known.1 with same | ⟨is_open, short⟩
  · rw [same]
    exact parse_declare_alike steps _ steady filled trivial light
  · refine cut_short_alike is_open steady filled light ?_ _ _
    simpa [Cursor.fill] using short

/-! ### Assignments -/

include steps in
theorem parse_target_alike :
    link.Lockstep Together .found room Expr.Alike (parseTarget expression)
    (parseTarget expression') := by
  refine .together fun kind => Expr.noted_alike rfl ?_
  by_cases finished : kind = .eof
  · subst finished
    refine .take_finished fun token token' tokens is_kind => ?_
    rw [tokens.kind, is_kind]
    exact .reject tokens.places
  · refine .take_within finished fun token token' tokens is_kind => ?_
    rw [tokens.kind, is_kind]
    cases kind with
    | dollar => exact (Expr.variable_name_alike steps).loose
    | mod =>
      refine Ident.parse_alike.loose.seq rfl fun name name' named => ?_
      have stored : Expr.Built (fun note => .global note name) fun note => .global note name' := by
        intro _ _
        simp only [Expr.Alike, Expr.unplaced, named]
        rfl
      refine .kind (fun kind _ => ?_) fun _ _ => .found stored
      split
      · exact (Lockstep.reject tokens.places).loose
      · exact .found stored
    | _ => exact (Lockstep.reject tokens.places).loose

include steps fits in
theorem parse_assign_alike (unbroken : link.Unbroken) :
    link.Lockstep Together .found room Built (parseAssign expression bound.1)
    (parseAssign expression' bound.2) := by
  have targets := Lockstep.separated rfl unbroken (fun _ => parse_target_alike steps) fits 0
  refine targets.follow rfl fun targets targets' alike => ?_
  refine .past (by decide) ?_
  refine (Lockstep.separated rfl (fun _ _ _ => trivial) (fun _ => steps) fits 0).loose.seq rfl
    fun values values' alike' => ?_
  refine .past (by decide) (.found fun _ _ => ?_)
  simp only [Alike, unplaced, map_eq_of_forall₂ alike, map_eq_of_forall₂ alike']

/-! ### Statements that hold others -/

include steps inner in
theorem parse_if_alike :
    link.Lockstep (At .ifWord) .found (room + 1) Built (parseIf expression statement)
      (parseIf expression' statement') := by
  refine .expect_ahead (.take nofun fun _ _ _ _ => ?_)
  refine (Expr.parenthesized_alike steps).loose.seq rfl fun condition condition' alike => ?_
  refine inner.loose.seq rfl fun body body' same => ?_
  refine .accepts (by decide) (inner.loose.map rfl fun otherwise otherwise' same' _ _ => ?_)
    (.found fun _ _ => ?_)
  · simp only [Alike, unplaced, alike, same, same']
  · simp only [Alike, unplaced, alike, same]

include steps inner in
theorem parse_while_alike :
    link.Lockstep (At .whileWord) .found (room + 1) Built (parseWhile expression statement)
      (parseWhile expression' statement') := by
  refine .expect_ahead (.take nofun fun _ _ _ _ => ?_)
  refine (Expr.parenthesized_alike steps).loose.seq rfl fun condition condition' alike => ?_
  refine inner.loose.map rfl fun body body' same _ _ => ?_
  simp only [Alike, unplaced, alike, same]

include shared inner fits in
theorem parse_sequence_alike :
    link.Lockstep heads .any room (fun value value' => value.1.map unplaced = value'.1.map unplaced)
      (parseSequence grammar statement bound.1) (parseSequence grammar' statement' bound.2) :=
  (Lockstep.many (ahead_alike shared) inner fits).ranged.weaken (fun _ _ => id)
    (fun _ _ alike => map_eq_of_forall₂ alike.1) le_rfl

include shared inner fits in
theorem parse_block_alike :
    link.Lockstep (At .leftBrace) .found (room + 1) Built (parseBlock grammar statement bound.1)
      (parseBlock grammar' statement' bound.2) := by
  refine .take nofun fun _ _ _ _ => ?_
  refine (parse_sequence_alike shared inner fits).seq rfl fun body body' same => ?_
  refine .past (by decide) (.found fun _ _ => ?_)
  simp only [Alike, unplaced, unplaced_all_eq, same]

/-- Cases that are alike and stand at corresponding places. -/
def Arms (link : Link) (arm arm' : Arm) : Prop :=
  arm.unplaced = arm'.unplaced ∧ link.Places arm.span arm'.span

/-- Keys and bodies of cases that are alike. -/
def Keyed (value value' : List Expr × Span × List Stmt) : Prop :=
  value.1.map Expr.unplaced = value'.1.map Expr.unplaced ∧
    value.2.2.map unplaced = value'.2.2.map unplaced

include shared steps inner fits in
theorem parse_arm_alike :
    link.Lockstep Anywhere .found room (Arms link) (parseArm grammar expression statement bound.1)
      (parseArm grammar' expression' statement' bound.2) := by
  refine .of_light fun less some_room => ?_
  subst some_room
  have steps := steps.within (le_self_add : less ≤ less + 1)
  have inner := inner.within (le_self_add : less ≤ less + 1)
  have fits := le_self_add.trans fits
  have body : ∀ keys keys' : List Expr, keys.map Expr.unplaced = keys'.map Expr.unplaced →
      link.Lockstep Anywhere .any less Keyed
        (Parse.expect .colon >>= fun _ => parseSequence grammar statement bound.1 >>= fun body =>
          pure (keys, body.2, body.1))
        (Parse.expect .colon >>= fun _ => parseSequence grammar' statement' bound.2 >>= fun body =>
          pure (keys', body.2, body.1)) := by
    intro keys keys' same
    refine .past (by decide) ?_
    exact (parse_sequence_alike shared inner fits).map rfl fun body body' same' => ⟨same, same'⟩
  refine .map rfl (Lockstep.ranged_expect ⟨nofun, nofun⟩ nofun fun _ _ _ =>
    (?_ : link.Lockstep Anywhere .any less Keyed _ _)) fun value value' alike => ?_
  · refine .accepts (by decide) (body [] [] rfl) ?_
    refine (Lockstep.separated rfl (fun _ _ _ => trivial) (fun _ => steps) fits 0).loose.seq rfl
      fun keys keys' alike => ?_
    exact body keys keys' (map_eq_of_forall₂ alike)
  · obtain ⟨⟨keys, body⟩, places⟩ := alike
    refine ⟨?_, places⟩
    simp only [Arm.unplaced, unplaced_all_eq, keys, body]

theorem Arms.keys (alike : Arms link arm arm') : arm'.keys.isEmpty = arm.keys.isEmpty := by
  obtain ⟨span, inner, keys, values, body⟩ := arm
  obtain ⟨span', inner', keys', values', body'⟩ := arm'
  have same := alike.1
  simp only [Arm.unplaced, Arm.mk.injEq] at same
  have length : keys.length = keys'.length := by simpa using congrArg List.length same.2.2.1
  rw [Bool.eq_iff_iff, List.isEmpty_iff_length_eq_zero, List.isEmpty_iff_length_eq_zero]
  simp only [Arm.keys, length]

include fits in
theorem parse_arms_alike {fallback fallback' : Option Arm}
    (arms : link.Lockstep Anywhere .found room (Arms link) arm arm')
    (same : fallback.map Arm.unplaced = fallback'.map Arm.unplaced) :
    link.Lockstep Anywhere .any room (fun value value' => value.1.map Arm.unplaced =
      value'.1.map Arm.unplaced ∧
        value.2.map Arm.unplaced = value'.2.map Arm.unplaced)
      (parseArms arm fallback bound.1) (parseArms arm' fallback' bound.2) := by
  induction room, bound, fits using rounds_induction generalizing fallback fallback' with
  | none _ _ _ none => exact .of_none none
  | round room bound fits ih =>
    have rounds : ∀ {fallback fallback' : Option Arm},
        fallback.map Arm.unplaced = fallback'.map Arm.unplaced → link.Lockstep Anywhere .any room _
          (parseArms arm fallback bound.1) (parseArms arm' fallback' bound.2) :=
          ih (arms.within le_self_add)
    refine .accepts (by decide) (.found ⟨rfl, same⟩) (arms.step fun next next' alike => ?_).loose
    have again : fallback'.isSome = fallback.isSome := by
      simpa using congrArg Option.isSome same.symm
    rw [alike.keys, again]
    split
    · refine (rounds same).map rfl fun value value' later => ⟨?_, later.2⟩
      rw [List.map_cons, List.map_cons, alike.1, later.1]
    · split
      · exact (Lockstep.report (alike.2.fault _)).seq rfl fun _ _ _ => rounds same
      · exact rounds (congrArg some alike.1)

include shared steps inner fits in
theorem parse_switch_alike :
    link.Lockstep (At .switch) .found (room + 1) Built
      (parseSwitch grammar expression statement bound.1)
      (parseSwitch grammar' expression' statement' bound.2) := by
  refine (Prim.parse_marked_alike .switch switchMark (by decide)).step fun marked marked' named =>
    ?_
  refine (Expr.parenthesized_alike steps).loose.seq rfl fun condition condition' alike => ?_
  refine .past (by decide) ?_
  have arms := parse_arm_alike shared steps inner fits
  have fallback : (none : Option Arm).map Arm.unplaced = (none : Option Arm).map Arm.unplaced := rfl
  refine (parse_arms_alike fits arms fallback).map rfl fun value value' same _ _ => ?_
  simp only [Alike, unplaced, Arm.unplaced_all_eq, Arm.unplaced_fallback_eq, named.1, alike, same.1,
    same.2]

end Parts

/-! ### All statements -/

theorem parse_form_alike (shared : link.Shares grammar grammar') (unbroken : link.Unbroken)
    (steps : link.Lockstep Anywhere .found (room + 1) Expr.Alike expression expression')
    (inner : link.Lockstep Anywhere .found room Alike statement statement')
    (fits : room + 1 ≤ bound) :
    link.Lockstep heads .found (room + 1) Built (parseForm grammar expression statement bound.1)
      (parseForm grammar' expression' statement' bound.2) := by
  have narrow := steps.within (le_self_add : room ≤ room + 1)
  have short := le_self_add.trans fits
  have start : ∀ kind, Expr.isStart grammar' kind = Expr.isStart grammar kind := fun kind => by
    cases kind <;> simp only [Expr.isStart, shared.calls]
  have assigns := parse_assign_alike steps fits unbroken
  have valued : ∀ kind, link.Lockstep (At kind) .found (room + 1) Built
    (if Expr.isStart grammar kind then
        expression >>= fun value => Parse.expect .semicolon >>= fun _ => pure fun span =>
          .expr span value
      else rejectNext .expectingStatement)
      (if Expr.isStart grammar' kind then
        expression' >>= fun value => Parse.expect .semicolon >>= fun _ => pure fun span =>
          .expr span value
      else rejectNext .expectingStatement) := by
    intro kind
    rw [start]
    split
    · refine steps.anywhere.follow rfl fun value value' alike => ?_
      refine .past (by decide) (.found fun _ _ => ?_)
      simp only [Alike, unplaced, alike]
    · exact .reject_next
  refine .kind (fun kind _ => ?_) fun is_open _ => ?_
  · cases kind with
    | ifWord => exact parse_if_alike narrow inner
    | whileWord => exact parse_while_alike narrow inner
    | continueWord | breakWord => exact parse_word_alike (by decide) fun _ _ => rfl
    | leftBrace => exact parse_block_alike shared inner short
    | returnWord => exact parse_return_alike shared narrow short
    | define => exact define_alike narrow
    | dollar | mod =>
      exact assigns.weaken (fun _ _ known => known.1.trans known.2.symm) (fun _ _ => id) le_rfl
    | switch => exact parse_switch_alike shared narrow inner short
    | _ => exact valued _
  · obtain ⟨finish, bracket⟩ := shared.border is_open
    simp only [Expr.isStart, shared.calls, finish, bracket]
    exact .reject_parted

/-- Statements are read alike. A statement that is an expression needs a round of its own. -/
theorem parse_alike (shared : link.Shares grammar grammar') (unbroken : link.Unbroken)
    (fits : room ≤ bound) :
    link.Lockstep heads .found room Alike (parse grammar (bound.1 + 1))
    (parse grammar' (bound.2 + 1)) := by
  refine .anywhere ?_
  induction room, bound, fits using rounds_induction with
  | none _ _ _ none => exact .of_none none
  | round room bound fits ih =>
    have fits : room + 1 ≤ bound + 1 := add_le_add_left fits 1
    have form : link.Lockstep Anywhere .found (room + 1) Built _ _ :=
      parse_form_alike shared unbroken (Expr.parse_alike shared fits false) ih fits
    exact form.ranged.map rfl fun _ _ here => here.1 _ _

end Stmt

end TriggerScript
