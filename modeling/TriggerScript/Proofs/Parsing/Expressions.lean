import TriggerScript.Proofs.Parsing.Rounds
import TriggerScript.Proofs.Parsing.Unplaced

/-!
Expressions read side by side.

Where two grammars share what they make of tokens, every phrase of an expression is read alike: the
trees that are found differ in their places only, and as many rounds as what is ahead weighs are
enough.
-/

namespace TriggerScript

open Ident

/-- What two grammars have in common. -/
structure Link.Shares (link : Link) (grammar grammar' : Grammar) : Prop where
  calls : grammar'.callTrigger? = grammar.callTrigger?
  hooks : grammar'.isHookArgument = grammar.isHookArgument
  /-- If there are hooks, their texts correspond. -/
  texts : ∀ name index, grammar.isHookArgument name index → ∀ token token',
    link.Tokens token token' → token.kind = .string → token.text ≠ "" →
      link.inside.Lanes (Lane.start (Expr.hookText grammar token))
        (Lane.start (Expr.hookText grammar' token'))
  /-- No script is called at a border. -/
  border : link.IsOpen → grammar.callTrigger? .eof = none ∧ grammar.callTrigger? .leftBracket = none

theorem Link.Shares.inside {link : Link} (shared : link.Shares grammar grammar') :
    link.inside.Shares grammar grammar' :=
  ⟨shared.calls, shared.hooks, shared.texts, fun is_open => absurd is_open Link.not_open_inside⟩

/-- What a token denotes does not depend on its place. -/
theorem Link.Tokens.denotes {link : Link} (tokens : link.Tokens token token') :
    token'.int32 = token.int32 ∧ token'.int64 = token.int64 ∧ token'.coordinate = token.coordinate ∧
      token'.prim = token.prim := by
  rw [tokens.2]
  exact ⟨rfl, rfl, rfl, rfl⟩

variable {link : Link} {grammar grammar' : Grammar} {heads : TokenKind → TokenKind → Prop}
  {room bound : Nat × Nat}

open Link

namespace Ident

theorem alike_of_tokens (tokens : link.Tokens token token') :
    (ofToken token).Alike (ofToken token') := by
  simp only [Ident.Alike, unplaced, ofToken, tokens.text]

theorem Alike.text {name : Ident} (alike : name.Alike name') : name.text = name'.text := by
  have same : name.unplaced.text = name'.unplaced.text := by rw [alike]
  exact same

theorem parse_alike : link.Lockstep heads .found room Ident.Alike parse parse :=
  (Lockstep.expect .identifier (by decide)).map rfl fun _ _ tokens => alike_of_tokens tokens.1

theorem spelled_alike {spells : TokenKind → Bool}
    (ends : spells .eof = false ∧ spells .leftBracket = false) :
    link.Repeats heads .found room Ident.Alike (Parse.kind >>= fun found =>
      if spells found then Parse.take >>= fun token => pure (ofToken token)
      else Parse.rejectNext (.expectedIdentifier found)) := by
  refine .kind (fun kind _ => ?_) fun _ _ => ?_
  · by_cases spelled : spells kind
    · rw [if_pos spelled]
      refine .take_within (fun finished => ?_) fun _ _ tokens _ => .found (alike_of_tokens tokens)
      cases (finished ▸ spelled).symm.trans ends.1
    · rw [if_neg spelled]
      exact .reject_next
  · rw [ends.1, ends.2]
    exact .reject_parted

theorem parse_any_alike : link.Lockstep heads .found room Ident.Alike parseAny parseAny :=
  spelled_alike ⟨rfl, rfl⟩

end Ident

namespace Expr

variable {expression expression' : Parse Expr} {kind : TokenKind}

/-- The same expression wherever it stands. -/
def Built (build build' : Note → Expr) : Prop :=
  ∀ span span', (build (Note.ofSpan span)).Alike (build' (Note.ofSpan span'))

theorem noted_alike {pace : Pace} (calm : pace.lost = 0)
    (steps : link.Lockstep heads pace room Built phrase phrase') :
    link.Lockstep heads pace room Expr.Alike (noted phrase) (noted phrase') :=
  steps.ranged.map calm fun _ _ here => here.1 _ _

theorem ahead_alike (shared : link.Shares grammar grammar') :
    link.Lockstep heads .any room Eq (ahead grammar) (ahead grammar') := by
  have same : ∀ kind, isStart grammar' kind = isStart grammar kind := fun kind => by
    cases kind <;> simp only [isStart, shared.calls]
  refine .asks same fun is_open => ?_
  obtain ⟨finish, bracket⟩ := shared.border is_open
  simp only [isStart, finish, bracket]

theorem arguments_alike (shared : link.Shares grammar grammar')
    (steps : ∀ index, link.Lockstep Anywhere .found room Expr.Alike (argument index)
      (argument' index))
    (fits : room ≤ bound) :
    link.Lockstep heads .any room (List.Forall₂ Expr.Alike) (arguments grammar argument bound.1)
      (arguments grammar' argument' bound.2) := by
  refine .accepts (by decide) ((ahead_alike shared).seq rfl fun filled _ same => ?_) (.found .nil)
  subst same
  cases filled with
  | false => exact .past (by decide) (.found .nil)
  | true =>
    exact (Lockstep.separated rfl (fun _ _ _ => trivial) steps fits 0).loose.seq rfl
      fun _ _ alike => .past (by decide) (.found alike)

section Parts

variable (shared : link.Shares grammar grammar')
  (steps : link.Lockstep Anywhere .found room Expr.Alike expression expression')
  (inner : link.inside.Lockstep Anywhere .found room Expr.Alike expression expression')
  (fits : room ≤ bound)

section

include steps

theorem parenthesized_alike :
    link.Lockstep heads .found room Expr.Alike (parenthesized expression)
    (parenthesized expression') := by
  refine (Lockstep.expect .leftParen (by decide)).follow rfl fun _ _ _ => ?_
  refine steps.loose.seq rfl fun inner inner' alike => ?_
  exact .past (by decide) (.found alike)

theorem variable_name_alike :
    link.Lockstep heads .found room Built (variableName expression) (variableName expression') := by
  refine parse_alike.follow rfl fun name name' named => ?_
  refine .accepts (by decide) (steps.loose.seq rfl fun index index' alike =>
    .past (by decide) (.found fun _ _ => ?_)) (.found fun _ _ => ?_)
  · simp only [Expr.Alike, unplaced, named, alike]
    rfl
  · simp only [Expr.Alike, unplaced, named]
    rfl

end

section

include shared steps fits

theorem call_phrase_alike :
    link.Lockstep (At kind) .found (room + 1) Built (callPhrase grammar expression bound.1)
      (callPhrase grammar' expression' bound.2) := by
  have named : ∀ trigger name name', Ident.Alike name name' → link.Lockstep Anywhere .any room Built
        (arguments grammar (fun _ => expression) bound.1 >>= fun args => pure fun note =>
          .call note trigger name args)
        (arguments grammar' (fun _ => expression') bound.2 >>= fun args =>
          pure fun note => .call note trigger name' args) := by
    intro trigger name name' named
    refine (arguments_alike shared (fun _ => steps) fits).map rfl fun args args' alike _ _ => ?_
    simp only [Expr.Alike, unplaced, unplaced_all_eq, named, map_eq_of_forall₂ alike]
    rfl
  by_cases finished : kind = .eof
  · subst finished
    refine .take_finished fun token token' tokens _ => ?_
    rw [shared.calls, tokens.kind]
    cases grammar.callTrigger? token.kind with
    | none => exact .reject tokens.places
    | some trigger => exact Ident.parse_any_alike.step (named trigger)
  · refine .take finished fun token token' tokens _ => ?_
    rw [shared.calls, tokens.kind]
    cases grammar.callTrigger? token.kind with
    | none => exact (Lockstep.reject tokens.places).loose
    | some trigger => exact Ident.parse_any_alike.loose.seq rfl (named trigger)

theorem hook_body_alike (closed : ¬ link.IsOpen) :
    link.Lockstep heads .any room Built (hookBody grammar expression bound.1)
      (hookBody grammar' expression' bound.2) := by
  refine parse_alike.loose.seq rfl fun name name' named => ?_
  refine (arguments_alike shared (fun _ => steps) fits).seq rfl fun args args' alike => ?_
  have finished : link.Lockstep Anywhere .any room Eq Parse.isFinished Parse.isFinished :=
    Lockstep.asks (fun _ => rfl) fun is_open => absurd is_open closed
  refine finished.seq rfl fun done _ same => ?_
  subst same
  cases done with
  | true =>
    refine .found fun _ _ => ?_
    simp only [Expr.Alike, unplaced, unplaced_all_eq, named, map_eq_of_forall₂ alike]
    rfl
  | false => exact Lockstep.reject_next.loose

end

section

include shared inner fits

theorem hook_phrase_alike (hooked : grammar.isHookArgument name index)
    (ahead : kind = .string ∨ kind = .nullWord) :
    link.Lockstep (At kind) .found (room + 1) Expr.Alike (hookPhrase grammar expression bound.1)
      (hookPhrase grammar' expression' bound.2) := by
  refine noted_alike rfl (Lockstep.accept_ahead (fun nothing => ?_) fun something => ?_)
  · exact .take (nothing ▸ nofun) fun _ _ _ _ => .found fun _ _ => rfl
  · obtain rfl := ahead.resolve_right something
    refine .expect_ahead (.embedded (shared.texts name index hooked) (fun token is_string => ?_)
      (fun token is_string => ?_) (fun _ _ => rfl) ?_)
    · exact (weight_hook_text grammar token is_string).2
    · exact (weight_hook_text grammar' token is_string).2
    · exact hook_body_alike shared.inside inner fits not_open_inside

include steps

theorem command_argument_alike {name : Ident} (named : name.Alike name') (index : Nat) :
    link.Lockstep Anywhere .found room Expr.Alike
      (commandArgument grammar expression bound.1 name index)
      (commandArgument grammar' expression' bound.2 name' index) := by
  unfold commandArgument
  rw [shared.hooks, ← named.text]
  split
  · rename_i hooked
    refine .of_light fun less some_room => ?_
    subst some_room
    have read := inner.within le_self_add
    have short := le_self_add.trans fits
    refine .kind (fun kind _ => ?_) fun _ _ => steps.anywhere
    cases kind with
    | string => exact hook_phrase_alike shared read short hooked (.inl rfl)
    | nullWord => exact hook_phrase_alike shared read short hooked (.inr rfl)
    | _ => exact steps.anywhere
  · exact steps

theorem command_phrase_alike :
    link.Lockstep (At kind) .found (room + 1) Built (commandPhrase grammar expression bound.1)
      (commandPhrase grammar' expression' bound.2) := by
  have behind : ∀ alternative name name', Ident.Alike name name' →
    link.Lockstep Anywhere .any room Built
        (arguments grammar (commandArgument grammar expression bound.1 name) bound.1 >>= fun args =>
          pure fun note => .command note name alternative args)
        (arguments grammar' (commandArgument grammar' expression' bound.2 name') bound.2 >>=
          fun args =>
          pure fun note => .command note name' alternative args) := by
    intro alternative name name' named
    refine (arguments_alike shared (command_argument_alike shared steps inner fits named) fits).map
      rfl
      fun args args' alike _ _ => ?_
    simp only [Expr.Alike, unplaced, unplaced_all_eq, named, map_eq_of_forall₂ alike]
    rfl
  refine .accept_ahead (fun dotted => ?_) fun _ => ?_
  · refine .take (dotted ▸ nofun) fun _ _ _ _ => ?_
    exact Ident.parse_any_alike.loose.seq rfl (behind true)
  · exact Ident.parse_any_alike.step (behind false)

/-- What begins with a name, or with a word for a call. -/
def wordPhrase (grammar : Grammar) (expression : Parse Expr) (bound : Nat) (kind : TokenKind) :
    Parse (Note → Expr) :=
  if isSpelledBy kind then
    Parse.kindAhead 1 >>= fun behind =>
      if behind = .leftParen then commandPhrase grammar expression bound
      else parseAny >>= fun name => pure fun note => .bare note name none
  else if (grammar.callTrigger? kind).isSome then callPhrase grammar expression bound
  else Parse.rejectNext .expectingExpression

theorem word_alike (kind : TokenKind) :
    link.Lockstep (At kind) .found (room + 1) Built (wordPhrase grammar expression bound.1 kind)
      (wordPhrase grammar' expression' bound.2 kind) := by
  unfold wordPhrase
  rw [shared.calls]
  split
  · rename_i spelled
    have unfinished : kind ≠ .eof := by
      rintro rfl
      cases spelled
    have bare : link.Repeats (At kind) .found (room + 1) Built
        (parseAny >>= fun name => pure fun note => .bare note name none) := by
      refine parse_any_alike.map rfl fun name name' named _ _ => ?_
      simp only [Expr.Alike, unplaced, named]
      rfl
    refine .kind_behind (fun first second known => ?_) (fun behind => ?_) bare
    · exact ⟨known.1.trans known.2.symm, known.1 ▸ unfinished⟩
    · split
      · exact command_phrase_alike shared steps inner fits
      · exact bare
  · split
    · exact call_phrase_alike shared steps fits
    · exact .reject_next

end

end Parts

section

variable {expression expression' : Bool → Parse Expr} (shared : link.Shares grammar grammar')
  (steps : ∀ inCalc, link.Lockstep Anywhere .found room Expr.Alike (expression inCalc)
    (expression' inCalc))
  (inner : ∀ inCalc, link.inside.Lockstep Anywhere .found room Expr.Alike (expression inCalc)
    (expression' inCalc))
  (inCalc : Bool) (fits : room ≤ bound)

include shared steps inner fits

theorem atom_alike :
    link.Lockstep heads .found (room + 1) Built (atom grammar expression inCalc bound.1)
      (atom grammar' expression' inCalc bound.2) := by
  refine .kind (fun kind _ => ?_) fun is_open _ => ?_
  · cases kind with
    | integer | long | coordgrid =>
      refine .take nofun fun token token' tokens _ => ?_
      obtain ⟨number, long, coordinate, -⟩ := tokens.denotes
      simp only [number, long, coordinate]
      exact .or_report tokens.places (fun _ _ _ => rfl) fun _ _ => rfl
    | string | bool =>
      refine .take nofun fun token token' tokens _ => ?_
      rw [tokens.text]
      exact .found fun _ _ => rfl
    | nullWord | error => exact .take nofun fun _ _ _ _ => .found fun _ _ => rfl
    | concatBegin =>
      refine .take nofun fun _ _ _ _ => ?_
      refine (Lockstep.many (ahead_alike shared) (steps inCalc) fits).seq rfl
        fun parts parts' alike => ?_
      refine .past (by decide) (.found fun _ _ => ?_)
      simp only [Expr.Alike, unplaced, unplaced_all_eq, map_eq_of_forall₂ alike]
      rfl
    | dollar => exact .take nofun fun _ _ _ _ => (variable_name_alike (steps inCalc)).loose
    | mod | caret =>
      refine .take nofun fun _ _ _ _ => parse_alike.loose.map rfl fun name name' named _ _ => ?_
      simp only [Expr.Alike, unplaced, named]
      rfl
    | calcWord =>
      refine .take nofun fun _ _ _ _ => ?_
      refine (parenthesized_alike (steps true)).loose.map rfl fun inner inner' alike _ _ => ?_
      simp only [Expr.Alike, unplaced, alike]
      rfl
    | dot => exact command_phrase_alike shared (steps inCalc) (inner inCalc) fits
    | _ => exact word_alike shared (steps inCalc) (inner inCalc) fits _
  · obtain ⟨finish, bracket⟩ := shared.border is_open
    simp only [shared.calls, finish, bracket, isSpelledBy]
    exact .reject_parted

theorem primary_alike :
    link.Lockstep Anywhere .found (room + 1) Expr.Alike (primary grammar expression inCalc bound.1)
      (primary grammar' expression' inCalc bound.2) := by
  refine .kind (fun kind _ => ?_) fun _ _ => ?_
  · split
    · rename_i opens
      subst opens
      refine .expect_ahead (.take nofun fun _ _ _ _ => ?_)
      exact (steps inCalc).loose.seq rfl fun inner inner' alike => .past (by decide) (.found alike)
    · exact noted_alike rfl (atom_alike shared steps inner inCalc fits)
  · exact noted_alike rfl (atom_alike shared steps inner inCalc fits)

end

theorem combine_alike (operator : Operator) {left right : Expr} (alike : left.Alike left')
    (alike' : right.Alike right') :
    (combine operator left right).Alike (combine operator left' right') := by
  simp only [Expr.Alike, combine, unplaced] at alike alike' ⊢
  rw [alike, alike']
  rfl

theorem of_token_border (inCalc : Bool) (level : List Operator) :
    Operator.ofToken? inCalc level .eof = none ∧
      Operator.ofToken? inCalc level .leftBracket = none := by
  constructor <;>
  · refine List.find?_eq_none.mpr fun operator _ => ?_
    cases operator <;> simp [Operator.token]

theorem operands_alike (steps : link.Lockstep Anywhere .found room Expr.Alike operand operand')
    (inCalc : Bool) (level : List Operator) (fits : room ≤ bound) {left : Expr}
    (alike : left.Alike left') :
    link.Lockstep Anywhere .any room Expr.Alike (operands inCalc level operand left bound.1)
      (operands inCalc level operand' left' bound.2) := by
  induction room, bound, fits using rounds_induction generalizing left left' with
  | none _ _ _ none => exact .of_none none
  | round room bound fits ih =>
    obtain ⟨finish, bracket⟩ := of_token_border inCalc level
    refine .kind (fun kind _ => ?_) fun _ _ => ?_
    · cases reads : Operator.ofToken? inCalc level kind with
      | none => exact .found alike
      | some operator =>
        have unfinished : kind ≠ .eof := by
          rintro rfl
          cases finish.symm.trans reads
        have shorter := steps.within le_self_add
        refine .take unfinished fun _ _ _ _ => shorter.loose.seq rfl fun right right' alike' => ?_
        exact ih shorter (combine_alike operator alike alike')
    · simp only [finish, bracket]
      exact .found alike

theorem operation_alike (inCalc : Bool)
    (steps : link.Lockstep Anywhere .found (room + 1) Expr.Alike tightest tightest')
    (fits : room ≤ bound) (levels : List (List Operator)) :
    link.Lockstep Anywhere .found (room + 1) Expr.Alike (operation inCalc bound.1 tightest levels)
      (operation inCalc bound.2 tightest' levels) := by
  induction levels with
  | nil => exact steps
  | cons level tighter ih =>
    refine ih.step fun left left' alike => ?_
    exact operands_alike (ih.within le_self_add) inCalc level fits alike

theorem parse_alike (shared : link.Shares grammar grammar') (fits : room ≤ bound) (inCalc : Bool) :
    link.Lockstep heads .found room Expr.Alike (parse grammar bound.1 inCalc)
    (parse grammar' bound.2 inCalc) := by
  refine .anywhere ?_
  induction room, bound, fits using rounds_induction generalizing link inCalc with
  | none _ _ _ none => exact .of_none none
  | round room bound fits ih =>
    exact operation_alike inCalc (primary_alike shared (ih shared) (ih shared.inside) inCalc fits)
      fits Operator.levels

end Expr

end TriggerScript
