import TriggerScript.Token.Scanner

/-!
Scanning makes progress.

`Scanner.remaining` weighs the characters ahead and the token set aside. Every token that does not
report the end of the text makes it smaller, and a comment also leaves fewer characters ahead. On
this rest the functions that read a text to its end.
-/

namespace TriggerScript

namespace Scanner

/-- The characters ahead, counted twice, and the token set aside. -/
def remaining (scanner : Scanner) : Nat :=
  2 * scanner.rest.length + (if scanner.pending.isSome then 1 else 0)

theorem length_dropWhile_le {α : Type} (condition : α → Bool) (items : List α) :
    (items.dropWhile condition).length ≤ items.length :=
  (List.dropWhile_sublist condition).length_le

theorem length_blockBody_le (content : List Placed) :
    (blockBody content).2.2.length ≤ content.length := by
  induction content with
  | nil => simp [blockBody]
  | cons first rest ih =>
    rw [blockBody]
    split
    · simp only [List.length_tail, List.length_cons]
      omega
    · exact Nat.le_succ_of_le ih

@[simp] theorem rest_note (scanner : Scanner) (fault : LexicalFault) (span : Span) :
    (scanner.note fault span).rest = scanner.rest := rfl

@[simp] theorem rest_accept (scanner : Scanner) (kind : TokenKind) (lexeme : List Char)
    (start : Nat) (rest : List Placed) : (scanner.accept kind lexeme start rest).2.rest = rest :=
  rfl

@[simp] theorem rest_reject (scanner : Scanner) (char : Char) (start : Nat) (rest : List Placed) :
    (scanner.reject char start rest).2.rest = rest := rfl

theorem length_rest_name (scanner : Scanner) (start : Nat) (first : Char) (rest : List Placed) :
    (scanner.name start first rest).2.rest.length ≤ rest.length := by
  simp only [name, rest_accept]
  exact length_dropWhile_le _ _

theorem length_rest_hexadecimal (scanner : Scanner) (start : Nat) (rest : List Placed) :
    (scanner.hexadecimal start rest).2.rest.length ≤ rest.length := by
  have shorter := length_dropWhile_le (fun placed => (hexDigit? placed.char).isSome) rest
  unfold hexadecimal
  simp only
  split <;> simp_all only [rest_accept, List.length_cons] <;> omega

theorem length_rest_number (scanner : Scanner) (start : Nat) (first : Char) (rest : List Placed) :
    (scanner.number start first rest).2.rest.length ≤ rest.length := by
  have shorter := length_dropWhile_le (fun placed => placed.char.isDigit) rest
  unfold number
  simp only
  split
  · simp
  · rename_i next behind behind_eq
    rw [behind_eq, List.length_cons] at shorter
    split
    · exact Nat.le_trans (length_rest_hexadecimal _ _ _) (by omega)
    · split
      · simp only [coordinate, rest_accept]
        exact Nat.le_trans (length_dropWhile_le _ _) (by omega)
      · split <;> simp only [rest_accept, List.length_cons] <;> omega

theorem length_rest_string (scanner : Scanner) (interpolated : Bool) (start : Nat)
    (content : List Placed) :
    (scanner.string interpolated start content).2.rest.length ≤ content.length := by
  have shorter := Literal.length_rest_read scanner.stop content
  unfold string
  simp only
  split
  · exact shorter
  · split
    · split <;> exact shorter
    · exact shorter
  · split <;> split <;> exact shorter

theorem length_rest_operator (scanner : Scanner) (start : Nat) (first : Char) (rest : List Placed) :
    (scanner.operator start first rest).2.rest.length ≤ rest.length := by
  unfold operator
  simp only
  split
  · simp
  · simp

theorem length_rest_dispatch (scanner : Scanner) (first : Placed) (rest : List Placed) :
    (scanner.dispatch first rest).2.rest.length ≤ rest.length := by
  unfold dispatch
  simp only
  split
  · exact length_rest_name _ _ _ _
  · split
    · exact length_rest_string _ _ _ _
    · split
      · exact length_rest_number _ _ _ _
      · split
        · simp only [lineComment, rest_accept]
          exact Nat.le_trans (length_dropWhile_le _ _) (by simp)
        · split
          · simp only [blockComment, rest_accept]
            exact Nat.le_trans (length_blockBody_le _) (by simp)
          · split
            · simp
            · split
              · exact length_rest_string _ _ _ _
              · split
                · exact length_rest_operator _ _ _ _
                · simp

theorem length_rest_scan_lt {scanner : Scanner} (comment : scanner.scan.1.kind = .comment) :
    scanner.scan.2.rest.length < scanner.rest.length := by
  unfold scan at comment ⊢
  split at comment
  · rename_i pending _
    cases pending <;> simp [Pending.token] at comment
  · split at comment
    · simp [finish] at comment
    · rename_i first rest ahead
      have shorter := length_dropWhile_le (fun placed => isBlank placed.char) scanner.rest
      rw [ahead, List.length_cons] at shorter
      exact Nat.lt_of_le_of_lt (length_rest_dispatch scanner first rest) shorter

theorem remaining_scan_lt {scanner : Scanner} (read : scanner.scan.1.kind ≠ .eof) :
    scanner.scan.2.remaining < scanner.remaining := by
  unfold scan at read ⊢
  split at read
  · rename_i pending set_aside
    simp [remaining, set_aside]
  · rename_i none_aside
    split at read
    · exact absurd rfl read
    · rename_i first rest ahead
      have shorter := length_dropWhile_le (fun placed => isBlank placed.char) scanner.rest
      rw [ahead, List.length_cons] at shorter
      have behind := length_rest_dispatch scanner first rest
      simp only [remaining, none_aside]
      split <;> omega

theorem length_rest_next {scanner behind : Scanner} {token : Token}
    (read : scanner.next = (token, behind)) (comment : token.kind = .comment) :
    behind.rest.length < scanner.rest.length := by
  simp only [next, Prod.mk.injEq] at read
  obtain ⟨rfl, rfl⟩ := read
  rw [if_pos comment]
  exact length_rest_scan_lt comment

/-- Reading a token that does not report the end leaves less ahead. -/
theorem remaining_next {scanner behind : Scanner} {token : Token}
    (read : scanner.next = (token, behind)) (unfinished : token.kind ≠ .eof) :
    behind.remaining < scanner.remaining := by
  simp only [next, Prod.mk.injEq] at read
  obtain ⟨rfl, rfl⟩ := read
  split <;> exact remaining_scan_lt unfinished

/-- Read up to the first token that is not a comment, with the comments on the way. -/
def advance (scanner : Scanner) : List Token × Token × Scanner :=
  match read : scanner.next with
  | (token, behind) =>
    if comment : token.kind = .comment then
      have := length_rest_next read comment
      let (comments, found, behind) := advance behind
      (token :: comments, found, behind)
    else
      ([], token, behind)
termination_by scanner.rest.length

/-- Every token up to the first report of the end, and the scanner behind it. -/
def tokens (scanner : Scanner) : List Token × Scanner :=
  match read : scanner.next with
  | (token, behind) =>
    if finished : token.kind = .eof then
      ([token], behind)
    else
      have := remaining_next read finished
      let (others, behind) := tokens behind
      (token :: others, behind)
termination_by scanner.remaining

end Scanner

end TriggerScript
