import TriggerScript.Proofs.Token.Cursors
import TriggerScript.Proofs.Token.Enclosed

/-!
Every text ends.

Reading token after token arrives at the end of a text, whatever is at fault in it. From then on the
end is reported again and again, and nothing is at fault any more.
-/

namespace TriggerScript

namespace Scanner

variable {scanner : Scanner}

/-- The end is reached within as many tokens as what is ahead weighs. -/
theorem reaches_end (scanner : Scanner) :
    ∃ calls ≤ scanner.remaining, (scanner.following calls).atEnd = true ∧
    ∀ earlier < calls, (scanner.following earlier).atEnd = false := by
  fun_induction allTokens scanner with
  | case1 scanner finished => exact ⟨0, Nat.zero_le _, finished, by simp⟩
  | case2 scanner unfinished shorter ih =>
    obtain ⟨calls, few, finished, before⟩ := ih
    refine ⟨calls + 1, Nat.succ_le_of_lt (few.trans_lt shorter),
      following_succ scanner calls ▸ finished, ?_⟩
    intro earlier inside
    cases earlier with
    | zero => exact Bool.not_eq_true _ ▸ unfinished
    | succ earlier =>
      exact following_succ scanner earlier ▸ before earlier (Nat.lt_of_succ_lt_succ inside)

/-- Open interpolations are reported with the first end and not again. -/
theorem faults_at_end (finished : scanner.atEnd = true) :
    scanner.next.2.depth = 0 ∧ (scanner.depth = 0 → scanner.next.2.faults = scanner.faults) := by
  simp only [next, (scan_at_end finished).2, finish]
  split <;> split <;> simp_all [note]

theorem following_at_end (finished : scanner.atEnd = true) (later : Nat) :
    (scanner.following later).next.1 = scanner.ending ∧
      (scanner.following (later + 1)).faults = scanner.next.2.faults := by
  have steady : ∀ later, (scanner.following later).atEnd = true ∧
      (scanner.following later).ending = scanner.ending ∧
      (scanner.following (later + 1)).depth = 0 ∧
      (scanner.following (later + 1)).faults = scanner.next.2.faults := by
    intro later
    induction later with
    | zero => exact ⟨finished, rfl, (faults_at_end finished).1, rfl⟩
    | succ later ih =>
      obtain ⟨ended, same, closed, quiet⟩ := ih
      have still : (scanner.following (later + 1)).atEnd = true := (next_at_end ended).2
      refine ⟨still, (ending_next _).trans same, (faults_at_end still).1, ?_⟩
      exact ((faults_at_end still).2 closed).trans quiet
  obtain ⟨ended, same, _, quiet⟩ := steady later
  exact ⟨(next_at_end ended).1.trans same, quiet⟩

theorem ending_following (scanner : Scanner) (calls : Nat) :
    (scanner.following calls).ending = scanner.ending ∧
      (scanner.following calls).vocabulary = scanner.vocabulary := by
  induction calls with
  | zero => exact ⟨rfl, rfl⟩
  | succ calls ih =>
    have settings := settings_next (scanner.following calls)
    exact ⟨(ending_next _).trans ih.1, (congrArg Prod.fst settings).trans ih.2⟩

/-- Only the end of a text is reported as its end, unless a spelling stands for it. -/
theorem kind_before_end (endless : scanner.vocabulary.Endless)
    (unfinished : scanner.atEnd = false) :
    scanner.next.1.kind ≠ .eof := by
  intro reported
  obtain ⟨kept, blank, _⟩ := scan_of_end endless reported
  obtain ⟨first, rest, ahead⟩ := (not_at_end_iff kept).mp unfinished
  cases blank.symm.trans ahead

/-- **Every text ends**: within two tokens for each character and one more, the end is reported.
From then on it is reported by every token, and nothing is at fault any more. Unless a spelling
stands for the end, it is not reported before. -/
theorem text_ends (vocabulary : Vocabulary) (source : String) (base limit : Nat) :
    ∃ calls ≤ 2 * (source.toList.filter fun char => char ≠ '\r').length,
      (∀ later, (following { ofText vocabulary source base with limit } (calls + later)).next.1 =
          ending { ofText vocabulary source base with limit } ∧
        (following { ofText vocabulary source base with limit } (calls + later + 1)).faults =
          (following { ofText vocabulary source base with limit } (calls + 1)).faults) ∧
      (vocabulary.Endless → ∀ earlier < calls,
        (following { ofText vocabulary source base with limit } earlier).next.1.kind ≠ .eof) := by
  set scanner : Scanner := { ofText vocabulary source base with limit }
  obtain ⟨calls, few, finished, before⟩ := reaches_end scanner
  have weight : scanner.remaining = 2 * (source.toList.filter fun char => char ≠ '\r').length := by
    rw [← rest_of_text vocabulary source base, Placed.chars, List.length_map]
    rfl
  have split : ∀ later, scanner.following (calls + later) = (scanner.following calls).following
    later := by
    intro later
    induction later with
    | zero => rfl
    | succ later ih => exact congrArg (fun scanner : Scanner => scanner.next.2) ih
  refine ⟨calls, weight ▸ few, fun later => ?_, fun endless earlier inside => ?_⟩
  · obtain ⟨read, quiet⟩ := following_at_end finished later
    rw [split, read, Nat.add_assoc, split, quiet]
    exact ⟨(ending_following scanner calls).1, rfl⟩
  · refine kind_before_end ?_ (before earlier inside)
    rwa [(ending_following scanner earlier).2]

/-- A separator that stands for the end of a text is reported as such, and the text goes on behind
it. -/
theorem separator_not_ending :
    let vocabulary := Vocabulary.empty.addSeparator ';' .eof
    ((following (ofText vocabulary ";a" 0) 0).next.1.kind,
      (following (ofText vocabulary ";a" 0) 1).next.1.kind) = (.eof, .identifier) :=
  rfl

end Scanner

end TriggerScript
