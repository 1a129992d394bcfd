import TriggerScript.Proofs.Token.Relocation

/-!
Texts written one behind the other.

A token never reaches over the end of a line, except for comments in blocks. So a text of whole
lines is read alike whatever is written behind it, as long as nothing is at fault: every token is
the same and the scanner behind it has more ahead. Where the text alone would end, reading goes on
with what is written behind it.
-/

namespace TriggerScript

open List Literal Placed

/-! ### Whole lines -/

namespace Placed

/-- The last character ends a line. -/
def Lined (content : List Placed) : Prop := ∃ body offset, content = body ++ [⟨offset, '\n'⟩]

variable {first : Placed} {content rest : List Placed}

theorem Lined.ne_nil (lined : Lined content) : content ≠ [] := by
  obtain ⟨body, offset, rfl⟩ := lined
  simp

theorem Lined.of_suffix (lined : Lined content) (suffix : rest <:+ content) (filled : rest ≠ []) :
    Lined rest := by
  obtain ⟨body, offset, rfl⟩ := lined
  obtain ⟨skipped, split⟩ := suffix
  obtain ⟨body', last, rfl⟩ := (eq_nil_or_concat' rest).resolve_left filled
  rw [← append_assoc] at split
  obtain ⟨-, same⟩ := append_inj' split rfl
  rw [List.cons.inj same |>.1]
  exact ⟨body', offset, rfl⟩

/-- Behind a character that does not end a line there is more. -/
theorem Lined.tail (lined : Lined (first :: rest)) (inside : first.char ≠ '\n') : Lined rest := by
  refine lined.of_suffix (suffix_cons ..) fun none => ?_
  obtain ⟨body, offset, split⟩ := lined
  rw [none] at split
  cases body with
  | nil => exact inside (by rw [(List.cons.inj split).1])
  | cons other body => simp at split

theorem Lined.offset_or (lined : Lined content) (tail : List Placed) (stop other : Nat) :
    offsetOr other (content ++ tail) = offsetOr stop content := by
  cases content with
  | nil => exact absurd rfl lined.ne_nil
  | cons first rest => rfl

theorem Lined.mem (lined : Lined content) : '\n' ∈ chars content := by
  obtain ⟨body, offset, rfl⟩ := lined
  simp [chars]

/-- What is left behind characters of which the last one does not end a line. -/
theorem Lined.drop (lined : Lined content) {count : Nat}
    (spares : Scanner.Spares (chars content) count) (tail : List Placed) :
    (content ++ tail).drop count = content.drop count ++ tail ∧ Lined (content.drop count) := by
  have inside := spares.1
  rw [chars, length_map] at inside
  refine ⟨drop_append_of_le_length inside, lined.of_suffix (drop_suffix ..) fun none => spares.2 ?_⟩
  obtain ⟨body, offset, rfl⟩ := lined
  rw [take_of_length_le (by simpa [chars] using drop_eq_nil_iff.mp none)]
  simp [chars]

end Placed

/-! ### Reading with more behind -/

theorem Literal.read_append {stop : Nat} {content : List Placed} (lined : Lined content)
    (whole : (read stop content).ending ≠ .broken) (valid : (read stop content).invalid = [])
    (tail : List Placed) (other : Nat) :
    read other (content ++ tail) =
      { read stop content with rest := (read stop content).rest ++ tail } ∧
      Lined (read stop content).rest := by
  fun_induction read stop content with
  | case1 | case2 | case5 => exact absurd rfl whole
  | case3 first rest inside mark | case4 first rest inside _ mark =>
    refine ⟨?_, lined.tail inside⟩
    rw [List.cons_append, Literal.read.eq_def]
    simp [mark]
  | case6 first inside _ _ escape letter rest char known ih =>
    have behind : letter.char ≠ '\n' := by
      rintro same
      rw [same] at known
      cases known
    obtain ⟨read, lined⟩ := ih ((lined.tail inside).tail behind) whole valid
    refine ⟨?_, lined⟩
    rw [List.cons_append, List.cons_append, Literal.read.eq_def]
    simp [escape, known, read, push]
  | case7 => cases valid
  | case8 first rest inside unquoted unmarked plain ih =>
    obtain ⟨read, lined⟩ := ih (lined.tail inside) whole valid
    refine ⟨?_, lined⟩
    rw [List.cons_append, Literal.read.eq_def]
    simp [inside, unquoted, unmarked, plain, read, push]

namespace Scanner

/-- The scanner of a text that goes on. -/
def extend (tail : List Placed) (stop : Nat) (scanner : Scanner) : Scanner :=
  { scanner with rest := scanner.rest ++ tail, stop }

/-- A token is read alike if the text goes on, and what is left still ends with a line. -/
def Reaches (tail : List Placed) (stop : Nat) (result extended : Token × Scanner) : Prop :=
  extended = (result.1, result.2.extend tail stop) ∧ Placed.Lined result.2.rest

variable {scanner : Scanner} {rest : List Placed} {tail : List Placed} {stop : Nat}

theorem span_to_extend (lined : Lined rest) (start : Nat) :
    (scanner.extend tail stop).spanTo start (rest ++ tail) = scanner.spanTo start rest := by
  rw [spanTo, spanTo, lined.offset_or tail scanner.stop]
  rfl

theorem reaches_accept (lined : Lined rest) (kind : TokenKind) (lexeme : List Char) (start : Nat) :
    Reaches tail stop (scanner.accept kind lexeme start rest)
      ((scanner.extend tail stop).accept kind lexeme start (rest ++ tail)) := by
  refine ⟨?_, lined⟩
  simp only [accept, span_to_extend lined]
  rfl

theorem reaches_reject (lined : Lined rest) (char : Char) (start : Nat) :
    Reaches tail stop (scanner.reject char start rest)
      ((scanner.extend tail stop).reject char start (rest ++ tail)) := by
  refine ⟨?_, lined⟩
  simp only [reject, span_to_extend lined]
  rfl

theorem literal_of_clean
    (clean : (scanner.string interpolated start rest).2.faults = scanner.faults) :
    (read scanner.stop rest).ending ≠ .broken ∧ (read scanner.stop rest).invalid = [] := by
  rw [string_eq] at clean
  have none := append_eq_nil_iff.mp (append_right_eq_self.mp clean)
  refine ⟨fun broken => ?_, map_eq_nil_iff.mp none.1⟩
  have noted := none.2
  cases interpolated <;> simp [pieceOf, broken] at noted

theorem reaches_string (lined : Lined rest) (interpolated : Bool) (start : Nat)
    (clean : (scanner.string interpolated start rest).2.faults = scanner.faults) :
    Reaches tail stop (scanner.string interpolated start rest)
      ((scanner.extend tail stop).string interpolated start (rest ++ tail)) := by
  obtain ⟨whole, valid⟩ := literal_of_clean clean
  obtain ⟨same, behind⟩ := read_append lined whole valid tail stop
  have read : read (scanner.extend tail stop).stop (rest ++ tail) = _ := same
  refine ⟨?_, by rw [string_eq]; exact behind⟩
  simp only [string_eq, read, Piece.read, span_to_extend behind, invalidEscapes, valid]
  rfl

theorem reaches_dispatch {first : Placed} (lined : Lined rest)
    (clean : (scanner.dispatch first rest).2.faults = scanner.faults) :
    Reaches tail stop (scanner.dispatch first rest)
    ((scanner.extend tail stop).dispatch first (rest ++ tail)) := by
  rw [dispatch_eq] at clean
  have ended : first.char = '/' → (chars rest).head? = some '/' → '\n' ∈ (chars rest).tail := by
    intro _ ahead
    obtain ⟨later, split⟩ := head?_eq_some_iff.mp ahead
    simpa [split] using lined.mem
  have same : (scanner.extend tail stop).form first (rest ++ tail) = scanner.form first rest := by
    rw [form, chars, map_append]
    refine form_append (.inl lined.mem) (.inl lined.mem) ended fun kind lexeme count fault found =>
      ?_
    have here : scanner.form first rest = .word kind lexeme count fault := found
    rw [here] at clean
    exact fault_of_clean clean
  rw [dispatch_eq, dispatch_eq, same]
  cases found : scanner.form first rest with
  | word kind lexeme count fault =>
    rw [found] at clean
    obtain rfl := fault_of_clean clean
    obtain ⟨dropped, behind⟩ := lined.drop (spares_of_form found) tail
    simp only [Form.read, dropped]
    exact reaches_accept behind kind lexeme first.offset
  | unknown => exact reaches_reject lined _ _
  | piece interpolated =>
    rw [found] at clean
    cases interpolated with
    | false => exact reaches_string lined _ _ clean
    | true =>
      have offset : offsetOr (scanner.extend tail stop).stop (rest ++ tail) =
          offsetOr scanner.stop rest := lined.offset_or tail _ _
      simp only [Form.read, offset]
      exact @reaches_string { scanner with depth := scanner.depth - 1 } _ _ _ lined _ _ clean

theorem reaches_scan (lined : Lined scanner.rest) (unfinished : scanner.scan.1.kind ≠ .eof)
    (clean : scanner.scan.2.faults = scanner.faults) :
    Reaches tail stop scanner.scan (scanner.extend tail stop).scan := by
  have pending : (scanner.extend tail stop).pending = scanner.pending := rfl
  have rest : (scanner.extend tail stop).rest = scanner.rest ++ tail := rfl
  unfold scan at unfinished clean ⊢
  rw [pending, rest]
  cases set_aside : scanner.pending with
  | some pending => exact ⟨rfl, lined⟩
  | none =>
    simp only [set_aside] at unfinished clean ⊢
    cases ahead : scanner.rest.dropWhile fun placed => isBlank placed.char with
    | nil =>
      rw [ahead] at unfinished
      exact absurd rfl unfinished
    | cons first behind =>
      have blanks := dropWhile_suffix (l := scanner.rest) fun placed => isBlank placed.char
      have visible := head?_dropWhile_not (fun placed : Placed => isBlank placed.char) scanner.rest
      rw [ahead] at blanks visible clean
      have inside : first.char ≠ '\n' := fun same => by simp [same, isBlank] at visible
      have skipped : (scanner.rest ++ tail).dropWhile (fun placed => isBlank placed.char) =
          first :: (behind ++ tail) := by simp [dropWhile_append, ahead]
      rw [skipped]
      exact reaches_dispatch ((lined.of_suffix blanks (cons_ne_nil _ _)).tail inside) clean

theorem faults_next_eq (scanner : Scanner) : scanner.next.2.faults = scanner.scan.2.faults := by
  simp only [next]
  split <;> rfl

/-- A token of whole lines is read alike whatever is written behind them. -/
theorem reaches_next (lined : Lined scanner.rest) (unfinished : scanner.next.1.kind ≠ .eof)
    (clean : scanner.next.2.faults = scanner.faults) :
    Reaches tail stop scanner.next (scanner.extend tail stop).next := by
  obtain ⟨same, behind⟩ :=
    @reaches_scan scanner tail stop lined unfinished (scanner.faults_next_eq ▸ clean)
  simp only [next, same]
  split
  · exact ⟨rfl, behind⟩
  · exact ⟨rfl, behind⟩

/-! ### What stays -/

theorem faults_scan (scanner : Scanner) : scanner.faults <+: scanner.scan.2.faults := by
  rw [scan_eq_carry]
  exact prefix_append ..

theorem faults_next (scanner : Scanner) : scanner.faults <+: scanner.next.2.faults := by
  rw [faults_next_eq]
  exact scanner.faults_scan

theorem faults_advance (scanner : Scanner) : scanner.faults <+: scanner.advance.2.2.faults := by
  induction scanner using advance_induction with
  | reads scanner _ => exact scanner.faults_next
  | skips scanner _ ih => exact scanner.faults_next.trans ih

/-- Where nothing is noted up to the next token nothing is noted by a comment before it. -/
theorem clean_next (clean : scanner.next.2.advance.2.2.faults = scanner.faults) :
    scanner.next.2.faults = scanner.faults :=
  (scanner.faults_next.eq_of_length_le (clean ▸ scanner.next.2.faults_advance.length_le)).symm

theorem reaches_advance (lined : Lined scanner.rest) (unfinished : scanner.advance.2.1.kind ≠ .eof)
    (clean : scanner.advance.2.2.faults = scanner.faults) :
    Reaches tail stop scanner.advance.2 (scanner.extend tail stop).advance.2 := by
  induction scanner using advance_induction with
  | reads scanner token =>
    obtain ⟨same, left⟩ := @reaches_next scanner tail stop lined unfinished clean
    rw [advance_eq, same, if_neg (by exact token)]
    exact ⟨rfl, left⟩
  | skips scanner comment ih =>
    have here := clean_next clean
    obtain ⟨same, left⟩ := @reaches_next scanner tail stop lined (comment ▸ by decide) here
    rw [advance_eq (scanner.extend tail stop), same, if_pos (by exact comment)]
    exact ih left unfinished (clean.trans here.symm)

end Scanner

end TriggerScript
