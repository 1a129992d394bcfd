import Mathlib
import TriggerScript.Text.Split
import TriggerScript.Token.Scanner

/-!
Texts of block comments.

A block comment keeps what its lines say, blanks and one star at the start of a line apart. The line
on which it ends is not among them: its text is lost.
-/

namespace TriggerScript

open List Placed

variable {body later : List Char}

def visible (content : List Char) : List Char := content.filter fun char => !isBlank char

/-- What a line of a block comment says, without blanks. -/
def lineText (line : List Char) : List Char := visible (Scanner.trimStar line)

theorem split_at_ne_nil (mark : Char) (content : List Char) : splitAt mark content ≠ [] := by
  fun_induction splitAt mark content <;> simp

theorem visible_intercalate (lines : List (List Char)) :
    visible (intercalate ['\n'] lines) = lines.flatMap visible := by
  have feed : isBlank '\n' = true := by decide
  induction lines with
  | nil => rfl
  | cons line rest ih =>
    cases rest with
    | nil => simp [visible]
    | cons next others =>
      rw [intercalate_cons_cons, flatMap_cons, ← ih]
      simp [visible, feed]

namespace Scanner

/-- The finished lines of a body are all but the last one. -/
theorem finished_lines_eq (line body : List Char) :
    finishedLines line body = ((splitAt '\n' body).modifyHead (line.reverse ++ ·)).dropLast := by
  induction body generalizing line with
  | nil => rfl
  | cons char rest ih =>
    obtain ⟨piece, others, pieces⟩ := exists_cons_of_ne_nil (split_at_ne_nil '\n' rest)
    rw [finishedLines, splitAt]
    split
    · simp [ih, pieces]
    · simp [ih, pieces]

theorem visible_block_text (body : List Char) :
    visible (blockText body) = (splitAt '\n' body).dropLast.flatMap lineText := by
  have begun : ∀ lines : List (List Char),
    (lines.dropWhile List.isEmpty).flatMap visible = lines.flatMap visible := by
    intro lines
    induction lines with
    | nil => rfl
    | cons line rest ih =>
      rw [dropWhile_cons]
      split
      · rename_i empty
        rw [ih, flatMap_cons, isEmpty_iff.mp empty]
        rfl
      · rfl
  have whole : (splitAt '\n' body).modifyHead ([].reverse ++ ·) = splitAt '\n' body := by
    cases splitAt '\n' body <;> rfl
  rw [blockText, visible_intercalate, begun, finished_lines_eq, whole, flatMap_map]
  rfl

/-- The first mark that closes a comment ends it. -/
theorem block_body_of_closed {content : List Placed} (closes : ¬ ['*', '/'] <:+: body ++ ['*'])
    (whole : chars content = body ++ '*' :: '/' :: later) :
    ∃ behind, blockBody content = (body, true, behind) ∧
      chars behind = later := by
  induction content generalizing body with
  | nil => simp [chars] at whole
  | cons first rest ih =>
    rw [blockBody]
    cases body with
    | nil =>
      obtain ⟨star, behind⟩ := List.cons.inj whole
      obtain ⟨next, others, rfl, slash, same⟩ := map_eq_cons_iff.mp behind
      exact ⟨others, by simp [star, slash], same⟩
    | cons char body =>
      obtain ⟨rfl, behind⟩ := List.cons.inj whole
      have inside : (first.char = '*' && (rest.head?.map Placed.char) = some '/') = false := by
        rw [← head?_map, show rest.map Placed.char = body ++ '*' :: '/' :: later from behind]
        cases body with
        | nil => simp
        | cons next body =>
          by_contra both
          obtain ⟨star, rfl⟩ : first.char = '*' ∧ next = '/' := by simpa using both
          exact closes ⟨[], body ++ ['*'], by simp [star]⟩
      obtain ⟨left, read, same⟩ :=
        ih (fun mark => closes (mark.trans (suffix_cons _ _).isInfix)) behind
      refine ⟨left, ?_, same⟩
      rw [inside, read]
      rfl

/-- A closed block comment says what its lines say, but for the last one. Just if that line says
nothing, nothing is lost. -/
theorem comment_says_finished_lines (scanner : Scanner) (body later : List Char)
    {first mark : Placed} {content : List Placed} (kept : scanner.pending = none)
    (ahead : (scanner.rest.dropWhile fun placed => isBlank placed.char) = first :: mark :: content)
    (opens : first.char = '/' ∧ mark.char = '*') (closes : ¬ ['*', '/'] <:+: body ++ ['*'])
    (whole : chars content = body ++ '*' :: '/' :: later) :
    scanner.scan.1.kind = .comment ∧ chars scanner.scan.2.rest = later ∧
      visible scanner.scan.1.text.toList = (splitAt '\n' body).dropLast.flatMap lineText ∧
      (visible scanner.scan.1.text.toList = (splitAt '\n' body).flatMap lineText ↔
        lineText ((splitAt '\n' body).getLast (split_at_ne_nil '\n' body)) = []) := by
  obtain ⟨behind, read, left⟩ := block_body_of_closed closes whole
  have scanned : scanner.scan = scanner.accept .comment (blockText body) first.offset behind := by
    rw [scan, kept]
    simp only [ahead, dispatch, opens, head?_cons, tail_cons, Option.map_some, blockComment, read]
    rfl
  have text : visible scanner.scan.1.text.toList = (splitAt '\n' body).dropLast.flatMap
    lineText := by
    rw [scanned, ← visible_block_text]
    exact congrArg visible String.toList_ofList
  refine ⟨by rw [scanned]; rfl, by rw [scanned]; exact left, text, ?_⟩
  conv_lhs => rw [text, ← dropLast_append_getLast (split_at_ne_nil '\n' body)]
  simp

/-- Of a comment that ends on a line of its own everything is kept. -/
theorem lines_kept :
    visible (ofText .scripts "/* one\n * two\n */" 0).scan.1.text.toList =
      ['o', 'n', 'e', 't', 'w', 'o'] := by
  obtain ⟨-, -, text, -⟩ :=
    comment_says_finished_lines (ofText .scripts "/* one\n * two\n */" 0)
      " one\n * two\n ".toList []
    rfl (show _ = ⟨0, '/'⟩ :: ⟨1, '*'⟩ :: ofList 2 " one\n * two\n */".toList by decide +kernel)
      ⟨rfl, rfl⟩ (by decide) (by decide)
  rw [text]
  decide

/-- A comment on one line says nothing, whatever stands there. -/
theorem line_lost : (ofText .scripts "/* text */" 0).scan.1 = ⟨.comment, ⟨0, 10⟩, some ""⟩ ∧
    (splitAt '\n' " text ".toList).flatMap lineText = ['t', 'e', 'x', 't'] := by
  decide +kernel

end Scanner

end TriggerScript
