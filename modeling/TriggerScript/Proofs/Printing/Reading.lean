import TriggerScript.Proofs.Parsing.Lockstep
import TriggerScript.Proofs.Parsing.Unplaced
import TriggerScript.Proofs.Printing.Words

/-!
Reading known tokens.

`Parse.Reads` says that a phrase reads certain tokens without a fault and leaves others. The rules
follow the way phrases are put together, so that reading is shown one token after the other.
-/

namespace TriggerScript

/-- The kind of the first token, or of the end. -/
def Lexeme.ahead (given : List Lexeme) (count : Nat) : TokenKind := (given.getD count (.eof, "")).1

/-- A cursor in front of certain tokens, with nothing embedded and nothing noted. -/
structure Cursor.Shows (cursor : Cursor) (given : List Lexeme) : Prop where
  faults : cursor.faults = []
  embedded : cursor.stream.suspended = [] ∧ cursor.stream.faults = []
  clean : cursor.stream.active.scanner.Clean
  reads : ∀ index,
    ((cursor.stream.active.sight index).kind, (cursor.stream.active.sight index).text) =
    given.getD index (.eof, "")

namespace Cursor.Shows

variable {cursor : Cursor}

theorem kind (shows : cursor.Shows given) (index : Nat) :
    (cursor.stream.active.sight index).kind = Lexeme.ahead given index :=
  congrArg Prod.fst (shows.reads index)

theorem fill (shows : cursor.Shows given) (count : Nat) : (cursor.fill count).Shows given := by
  refine ⟨shows.faults, ?_, ?_, fun index => ?_⟩
  · simpa [Cursor.fill] using shows.embedded
  · rw [Cursor.fill, TokenStream.active_fill]
    exact Lane.clean_fill shows.clean count
  · rw [Cursor.fill, TokenStream.active_fill, Lane.sight_fill]
    exact shows.reads index

theorem taken (shows : cursor.Shows (lexeme :: given)) (unfinished : lexeme.1 ≠ .eof) :
    cursor.taken.Shows given := by
  have kind : (cursor.stream.active.sight 0).kind ≠ .eof := by
    rw [shows.kind]
    exact unfinished
  obtain ⟨-, active, suspended, faults⟩ := cursor.stream.take_eq
  refine ⟨shows.faults, ?_, ?_, fun index => ?_⟩
  · rw [Cursor.taken, suspended, faults]
    exact shows.embedded
  · rw [Cursor.taken, active]
    exact Lane.clean_take shows.clean
  · rw [Cursor.taken, active, Lane.sight_take kind]
    exact shows.reads (index + 1)

/-- A cursor in front of nothing has read all of a text, and nothing was wrong with it. -/
theorem finish (shows : cursor.Shows []) : cursor.finish = [] ∧ cursor.head.kind = .eof := by
  obtain ⟨suspended, faults⟩ := shows.embedded
  have noted : cursor.stream.active.scanner.faults = [] := shows.clean 0
  refine ⟨?_, shows.kind 0⟩
  simp [Cursor.finish, TokenStream.takeFaults, suspended, faults, noted, shows.faults,
    Diagnostic.sorted]

end Cursor.Shows

namespace Parse

variable {α β : Type} {phrase : Parse α} {given left : List Lexeme} {holds : α → Prop}

/-- A phrase reads certain tokens, leaves others and gives a value with a property. -/
def Reads (phrase : Parse α) (given left : List Lexeme) (holds : α → Prop) : Prop :=
  ∀ cursor : Cursor, cursor.Shows given →
    ∃ value behind, phrase cursor = (.found value, behind) ∧ behind.Shows left ∧ holds value

namespace Reads

theorem found (here : holds value) : Reads (pure value) given given holds :=
  fun cursor shows => ⟨value, cursor, rfl, shows, here⟩

theorem bind (first : Reads phrase given middle holds)
    (second : ∀ value, holds value → Reads (next value) middle left after) :
    Reads (phrase >>= next) given left after := by
  intro cursor shows
  obtain ⟨value, between, ran, shows, here⟩ := first cursor shows
  obtain ⟨result, behind, ran_on, shows, there⟩ := second value here between shows
  refine ⟨result, behind, ?_, shows, there⟩
  rw [bind_apply, ran]
  exact ran_on

theorem kind_ahead (reads : Reads (next (Lexeme.ahead given count)) given left holds) :
    Reads (kindAhead count >>= next) given left holds := by
  intro cursor shows
  rw [kind_ahead_bind, shows.kind]
  exact reads _ (shows.fill count)

variable {lexeme : Lexeme}

theorem take (unfinished : lexeme.1 ≠ .eof)
    (reads : ∀ token : Token, token.kind = lexeme.1 → token.text = lexeme.2 →
      Reads (next token) given left holds) :
    Reads (Parse.take >>= next) (lexeme :: given) left holds := by
  intro cursor shows
  rw [bind_apply, take_apply]
  have head := shows.reads 0
  exact reads _ (congrArg Prod.fst head) (congrArg Prod.snd head) _ (shows.taken unfinished)

theorem expect (unfinished : lexeme.1 ≠ .eof)
    (reads : ∀ token : Token, token.text = lexeme.2 → Reads (next token) given left holds) :
    Reads (Parse.expect lexeme.1 >>= next) (lexeme :: given) left holds := by
  intro cursor shows
  have kind : cursor.head.kind = lexeme.1 := shows.kind 0
  have text : cursor.head.text = lexeme.2 := congrArg Prod.snd (shows.reads 0)
  rw [expect_apply, if_pos kind]
  exact reads _ text _ ((shows.fill 0).taken unfinished)

theorem accept (unfinished : lexeme.1 ≠ .eof) (reads : Reads (next true) given left holds) :
    Reads (Parse.accept lexeme.1 >>= next) (lexeme :: given) left holds := by
  intro cursor shows
  have kind : cursor.head.kind = lexeme.1 := shows.kind 0
  rw [accept_apply, if_pos kind]
  exact reads _ ((shows.fill 0).taken unfinished)

theorem refuse (other : Lexeme.ahead given 0 ≠ expected)
    (reads : Reads (next false) given left holds) :
    Reads (Parse.accept expected >>= next) given left holds := by
  intro cursor shows
  have head : cursor.head.kind ≠ expected := by
    rw [Cursor.head, shows.kind]
    exact other
  rw [accept_apply, if_neg head]
  exact reads _ (shows.fill 0)

theorem or_report (known : value = .ok result) (here : holds (build result)) :
    Reads (orReport value build standIn span) given given holds := by
  subst known
  exact .found here

theorem ranged (reads : Reads phrase given left holds) :
    Reads phrase.ranged given left fun value => holds value.1 := by
  intro cursor shows
  obtain ⟨value, behind, ran, shows, here⟩ :=
    reads cursor.fresh ⟨shows.faults, shows.embedded, shows.clean, shows.reads⟩
  refine ⟨(value, behind.range), { behind with range := cursor.range.merge behind.range }, ?_,
    ⟨shows.faults, shows.embedded, shows.clean, shows.reads⟩, here⟩
  rw [Parse.ranged]
  simp only [Cursor.fresh] at ran
  rw [ran]

end Reads

end Parse

end TriggerScript
