import TriggerScript.Proofs.Token.Enclosed

/-!
Interpolations are opened and closed.

Between the first and the last token of a string with interpolations a scanner counts it as open, or
has set its end aside, so that the tokens read so far never close more strings than they open. What
is left open at the end of a text is reported there, once.
-/

namespace TriggerScript

open List

namespace Scanner

variable {scanner : Scanner}

/-- The strings with interpolations that were begun and are not yet ended. -/
def begun (scanner : Scanner) : Nat :=
  scanner.depth + match scanner.pending with
    | some (.close _) => 1
    | _ => 0

/-- How often interpolations were reported to be left open. -/
def unclosedReports (scanner : Scanner) : Nat :=
  scanner.faults.countP fun fault => fault.fault = .lexical .unclosedInterpolation

/-- What a token before the end does to the strings that were begun. -/
structure Tallies (begun reports : Nat) (token : Token) (after : Scanner) : Prop where
  balance : begun + [token.kind].count .concatBegin = after.begun + [token.kind].count .concatEnd
  first : token.kind = .concatBegin → ∃ span lexeme, after.pending = some (.text span lexeme)
  reports : after.unclosedReports = reports

theorem tallies_string (kept : scanner.pending = none) (interpolated : Bool) (start : Nat)
    (content : List Placed) :
    Tallies (scanner.depth + interpolated.toNat) scanner.unclosedReports
      (scanner.string interpolated start content).1
        (scanner.string interpolated start content).2 := by
  rw [string_eq]
  have unreported :
    ∀ literal, countP (fun fault => decide (fault.fault = .lexical .unclosedInterpolation))
      (scanner.invalidEscapes start literal) = 0 := by
    simp [invalidEscapes, countP_eq_zero]
  generalize decide (scanner.limit ≤ scanner.depth) = deep
  simp only [pieceOf]
  cases deep <;> split <;> try split
  all_goals
    exact ⟨by simp [Piece.read, begun, kept], by simp [Piece.read],
      by simp [Piece.read, unclosedReports, unreported]⟩

theorem fault_of_form {vocabulary : Vocabulary} {behind : List Char} {count : Nat}
    (found : formOf vocabulary nested signed char behind = .word kind lexeme count (some fault)) :
    fault ≠ .unclosedInterpolation := by
  rintro rfl
  simp only [formOf, numberForm, hexadecimalForm, operatorForm] at found
  repeat' split at found
  all_goals simp at found

section

variable (words : scanner.vocabulary = .scripts)

include words

theorem tallies_dispatch (kept : scanner.pending = none) (first : Placed) (rest : List Placed) :
    Tallies scanner.begun scanner.unclosedReports (scanner.dispatch first rest).1
      (scanner.dispatch first rest).2 := by
  have plain : scanner.begun = scanner.depth := by simp [begun, kept]
  rw [dispatch_eq]
  cases found : scanner.form first rest with
  | word kind lexeme count fault =>
    rw [form, words] at found
    have words := kind_of_form found
    have begins : kind ≠ .concatBegin := fun same => absurd (same ▸ words) (by decide)
    have ends : kind ≠ .concatEnd := fun same => absurd (same ▸ words) (by decide)
    cases fault with
    | none =>
      refine ⟨?_, fun same => absurd same begins, rfl⟩
      simp [Form.read, accept, remark, begun, begins, ends]
    | some fault =>
      have other : fault ≠ .unclosedInterpolation := fault_of_form found
      refine ⟨?_, fun same => absurd same begins, ?_⟩
      · simp [Form.read, accept, remark, note, begun, begins, ends]
      · simp [Form.read, accept, remark, note, unclosedReports, other]
  | unknown =>
    refine ⟨?_, ?_, ?_⟩
    · simp [Form.read, reject, note, begun]
    · simp [Form.read, reject]
    · simp [Form.read, reject, note, unclosedReports]
  | piece interpolated =>
    cases interpolated with
    | false =>
      rw [plain]
      exact tallies_string kept false first.offset rest
    | true =>
      have nested : scanner.depth ≠ 0 := of_decide_eq_true (nested_of_form found)
      have inside := @tallies_string { scanner with depth := scanner.depth - 1 } kept true
        (Placed.offsetOr scanner.stop rest) rest
      simp only [Bool.toNat_true, Nat.sub_add_cancel (Nat.pos_of_ne_zero nested)] at inside
      rw [plain]
      exact inside

theorem tallies_next (unfinished : scanner.next.1.kind ≠ .eof) :
    Tallies scanner.begun scanner.unclosedReports scanner.next.1 scanner.next.2 := by
  have scans : Tallies scanner.begun scanner.unclosedReports scanner.scan.1 scanner.scan.2 := by
    have unfinished : scanner.scan.1.kind ≠ .eof := unfinished
    unfold scan at unfinished ⊢
    split
    · rename_i pending kept
      cases pending <;> exact ⟨by simp [begun, kept, Pending.token], by simp [Pending.token], rfl⟩
    · rename_i kept
      rw [kept] at unfinished
      split
      · rename_i ahead
        simp [ahead, finish] at unfinished
      · exact tallies_dispatch words kept _ _
  unfold next
  simp only
  split
  · exact scans
  · exact ⟨scans.balance, scans.first, scans.reports⟩

/-- At the end of a text, strings that are still open are reported. -/
theorem reports_of_end (finished : scanner.next.1.kind = .eof) :
    scanner.next.2.unclosedReports = scanner.unclosedReports + if scanner.begun =
      0 then 0 else 1 := by
  obtain ⟨kept, -, ends⟩ := scan_of_end (words ▸ Vocabulary.scripts_endless) finished
  rw [unclosedReports, faults_next_eq, ends, finish]
  by_cases closed : scanner.depth = 0
  · simp [begun, kept, closed, unclosedReports]
  · simp [begun, kept, closed, unclosedReports, note]

end

/-- How many tokens are of a kind. -/
def brackets (kind : TokenKind) (tokens : List Token) : Nat := (tokens.map Token.kind).count kind

/-- What is true of the tokens of a text and of the scanner behind them. -/
structure Balanced (begun reports : Nat) (result : List Token × Scanner) : Prop where
  never_more : ∀ before, before <+: result.1 →
    brackets .concatEnd before ≤ begun + brackets .concatBegin before
  followed : ∀ index token, result.1[index]? = some token → token.kind = .concatBegin →
    (result.1[index + 1]?).map Token.kind = some .string
  reported : result.2.unclosedReports = reports +
    if brackets .concatEnd result.1 = begun + brackets .concatBegin result.1 then 0 else 1

theorem head_of_pending {span : Span} (set_aside : scanner.pending = some (.text span lexeme)) :
    (scanner.tokens.1[0]?).map Token.kind = some .string := by
  have read : scanner.next.1.kind = .string := by simp [next, scan, set_aside, Pending.token]
  rw [tokens_of_token (by rw [read]; decide)]
  simp [read]

/-- Along the tokens of a text the strings that were begun are counted. -/
theorem balanced_tokens (words : scanner.vocabulary = .scripts) :
    Balanced scanner.begun scanner.unclosedReports scanner.tokens := by
  induction scanner using tokens_induction with
  | ends scanner finished =>
    refine ⟨fun before inside => ?_, fun index token found begins => ?_, ?_⟩
    · rcases prefix_cons_iff.mp inside with rfl | ⟨later, rfl, none⟩
      · exact Nat.zero_le _
      · simp [brackets, prefix_nil.mp none, finished]
    · obtain ⟨-, rfl⟩ : index = 0 ∧ scanner.next.1 = token := by cases index <;> simp_all
      cases finished.symm.trans begins
    · simpa [brackets, finished, eq_comm] using reports_of_end words finished
  | goes_on scanner others unfinished later ih =>
    have tally := tallies_next words unfinished
    have rest := ih ((congrArg Prod.fst (settings_next scanner)).trans words)
    have balance := tally.balance
    have counts : ∀ kind tokens, brackets kind (scanner.next.1 :: tokens) =
        [scanner.next.1.kind].count kind + brackets kind tokens :=
          fun kind tokens => @count_append _ _ kind [_] _
    refine ⟨fun before inside => ?_, fun index token found begins => ?_, ?_⟩
    · rcases prefix_cons_iff.mp inside with rfl | ⟨behind, rfl, within⟩
      · exact Nat.zero_le _
      · have := rest.never_more behind within
        rw [counts, counts]
        omega
    · cases index with
      | zero =>
        obtain rfl : scanner.next.1 = token := by simpa using found
        obtain ⟨span, lexeme, set_aside⟩ := tally.first begins
        exact later ▸ head_of_pending set_aside
      | succ index => exact rest.followed index token found begins
    · rw [rest.reported, tally.reports, counts, counts]
      congr 2
      exact propext ⟨fun same => by omega, fun same => by omega⟩

/-- **Brackets balance**: among the first tokens of a script there are never more ends than
beginnings of strings with interpolations, behind every beginning stands a piece of the string, and
at the end of the text there are as many ends as beginnings, unless it is reported, once, that a
string was left open. -/
theorem brackets_balance (source : String) (base limit : Nat) :
    let read := tokens { ofText .scripts source base with limit }
    (∀ before, before <+: read.1 → brackets .concatEnd before ≤ brackets .concatBegin before) ∧
      (∀ index token, read.1[index]? = some token → token.kind = .concatBegin →
        (read.1[index + 1]?).map Token.kind = some .string) ∧
      (read.2.faults.countP fun fault => fault.fault = .lexical .unclosedInterpolation) =
        (if brackets .concatEnd read.1 = brackets .concatBegin read.1 then 0 else 1) ∧
      Fault.message (.lexical .unclosedInterpolation) =
      "Interpolated string is not properly closed" := by
  intro read
  have balanced : Balanced 0 0 read :=
    @balanced_tokens { ofText .scripts source base with limit } rfl
  refine ⟨fun before inside => ?_, balanced.followed, ?_, rfl⟩
  · simpa using balanced.never_more before inside
  · simpa [unclosedReports] using balanced.reported

end Scanner

end TriggerScript
