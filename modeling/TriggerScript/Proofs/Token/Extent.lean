import TriggerScript.Proofs.Token.Form

/-!
The extent of tokens.

The range of a token begins at its first character and ends where the text goes on, and what is set
aside or noted on the way lies at places of the text too (`reading_dispatch` says all of this once).
`Token.weight` counts how much can still be read because of a token, which is more than the token
itself if it is a string, and no token weighs more than the text that it was read from
(`weight_next`).
-/

namespace TriggerScript

open List Literal Placed

/-! ### Places of a text -/

namespace Placed

/-- The characters are written one behind the other, and all before the end. -/
structure Ordered (stop : Nat) (content : List Placed) : Prop where
  rising : content.Pairwise fun left right => left.offset < right.offset
  bounded : ∀ placed ∈ content, placed.offset < stop

/-- A place between characters of a text, or its end. -/
def Mark (stop : Nat) (content : List Placed) (offset : Nat) : Prop :=
  ∃ rest, rest <:+ content ∧ offset = offsetOr stop rest

variable {stop offset : Nat} {first : Placed} {content rest kept : List Placed}

theorem mark_of_suffix (suffix : rest <:+ content) : Mark stop content (offsetOr stop rest) :=
  ⟨rest, suffix, rfl⟩

theorem mark_first (first : Placed) (rest : List Placed) : Mark stop (first :: rest) first.offset :=
  ⟨first :: rest, suffix_rfl, rfl⟩

theorem mark_stop : Mark stop content stop := ⟨[], nil_suffix, rfl⟩

theorem Mark.of_suffix (mark : Mark stop rest offset) (suffix : rest <:+ content) :
    Mark stop content offset := by
  obtain ⟨later, inside, rfl⟩ := mark
  exact ⟨later, inside.trans suffix, rfl⟩

theorem Mark.holds {holds : Nat → Prop} (mark : Mark stop content offset)
    (chars : ∀ placed ∈ content, holds placed.offset) (finish : holds stop) : holds offset := by
  obtain ⟨rest, suffix, rfl⟩ := mark
  cases rest with
  | nil => exact finish
  | cons first rest => exact chars first (suffix.subset mem_cons_self)

theorem Ordered.of_sublist (ordered : Ordered stop content) (sublist : kept.Sublist content) :
    Ordered stop kept :=
  ⟨ordered.rising.sublist sublist, fun placed member =>
    ordered.bounded placed (sublist.subset member)⟩

theorem Ordered.offset_or_le (ordered : Ordered stop content) : offsetOr stop content ≤ stop := by
  cases content with
  | nil => exact le_rfl
  | cons first rest => exact Nat.le_of_lt (ordered.bounded first mem_cons_self)

theorem Ordered.offset_lt (ordered : Ordered stop (first :: rest)) :
    first.offset < offsetOr stop rest := by
  cases rest with
  | nil => exact ordered.bounded first mem_cons_self
  | cons next rest => exact rel_of_pairwise_cons ordered.rising mem_cons_self

theorem Ordered.offset_or_mono (ordered : Ordered stop content) (suffix : rest <:+ content) :
    offsetOr stop content ≤ offsetOr stop rest := by
  induction content with
  | nil => rw [suffix_nil.mp suffix]
  | cons first later ih =>
    rcases suffix_cons_iff.mp suffix with rfl | inside
    · exact le_rfl
    · have here := ih (ordered.of_sublist (sublist_cons_self ..)) inside
      exact Nat.le_trans (Nat.le_of_lt ordered.offset_lt) here

/-- What is left is behind what was there, unless nothing was read. -/
theorem Ordered.offset_or_lt (ordered : Ordered stop content) (suffix : rest <:+ content)
    (shorter : rest ≠ content) : offsetOr stop content < offsetOr stop rest := by
  cases content with
  | nil => exact absurd (suffix_nil.mp suffix) shorter
  | cons first later =>
    rcases suffix_cons_iff.mp suffix with same | inside
    · exact absurd same shorter
    · have here := (ordered.of_sublist (sublist_cons_self ..)).offset_or_mono inside
      exact Nat.lt_of_lt_of_le ordered.offset_lt here

theorem of_list_append (offset : Nat) (left right : List Char) :
    ofList offset (left ++ right) = ofList offset left ++ ofList (offset + total Char.utf8Size left)
      right := by
  induction left generalizing offset with
  | nil => rfl
  | cons char rest ih =>
    rw [cons_append, ofList, ih, total_cons, ← Nat.add_assoc, ofList, cons_append]

theorem ordered_of_list (offset : Nat) (content : List Char) :
    Ordered (offset + total Char.utf8Size content) (ofList offset content) ∧
      ∀ placed ∈ ofList offset content, offset ≤ placed.offset := by
  induction content generalizing offset with
  | nil => exact ⟨⟨.nil, nofun⟩, nofun⟩
  | cons char rest ih =>
    obtain ⟨ordered, behind⟩ := ih (offset + char.utf8Size)
    have wide := char.utf8Size_pos
    rw [total_cons, ← Nat.add_assoc, ofList]
    refine ⟨⟨.cons (fun placed member => ?_) ordered.rising, ?_⟩, ?_⟩
    · have := behind placed member
      dsimp only
      omega
    · refine forall_mem_cons.mpr ⟨?_, ordered.bounded⟩
      dsimp only
      omega
    · refine forall_mem_cons.mpr ⟨le_rfl, fun placed member => ?_⟩
      have := behind placed member
      omega

end Placed

theorem utf8_size_of_list (content : List Char) :
    (String.ofList content).utf8ByteSize = total Char.utf8Size content := by
  induction content with
  | nil => rfl
  | cons char rest ih => rw [String.ofList_cons, String.utf8ByteSize_append, ih]; simp

theorem utf8_size_eq (source : String) :
    source.utf8ByteSize = total Char.utf8Size source.toList := by
  rw [← utf8_size_of_list, String.ofList_toList]

theorem Placed.ordered_of_text (source : String) : Ordered source.utf8ByteSize (ofText source) := by
  have ordered := (ordered_of_list 0 source.toList).1
  rwa [Nat.zero_add, ← utf8_size_eq] at ordered

/-! ### Pieces of strings -/

namespace Literal

variable {stop : Nat} {content : List Placed}

theorem suffix_read (stop : Nat) (content : List Placed) :
    (read stop content).rest <:+ content := by
  fun_induction read stop content with
  | case1 | case2 => exact suffix_rfl
  | case3 | case4 => exact suffix_cons _ _
  | case5 => exact nil_suffix
  | case6 _ _ _ _ _ _ _ _ _ ih | case7 _ _ _ _ _ _ _ _ ih =>
    exact ih.trans ((suffix_cons _ _).trans (suffix_cons _ _))
  | case8 _ _ _ _ _ _ ih => exact ih.trans (suffix_cons _ _)

theorem content_of_rest_eq (same : (read stop content).rest = content) :
    (read stop content).content = [] := by
  have unread := congrArg List.length same
  revert unread
  fun_cases read stop content with
  | case1 | case2 | case3 | case4 | case5 => exact fun _ => rfl
  | case6 _ _ _ _ _ letter rest | case7 _ _ _ _ _ letter rest | case8 first rest =>
    intro unread
    have shorter := length_rest_read stop rest
    simp only [push, note, length_cons] at unread
    omega

theorem mark_of_invalid {offset : Nat} (member : offset ∈ (read stop content).invalid) :
    Mark stop content offset := by
  fun_induction read stop content with
  | case1 | case2 | case3 | case4 => cases member
  | case5 =>
    rw [mem_singleton.mp member]
    exact mark_stop
  | case6 _ _ _ _ _ _ _ _ _ ih =>
    exact (ih member).of_suffix ((suffix_cons _ _).trans (suffix_cons _ _))
  | case7 first _ _ _ _ letter rest _ ih =>
    have inside : rest <:+ first :: letter :: rest := ⟨[first, letter], rfl⟩
    rcases mem_cons.mp member with rfl | later
    · exact mark_of_suffix inside
    · exact (ih later).of_suffix inside
  | case8 _ _ _ _ _ _ ih => exact (ih member).of_suffix (suffix_cons _ _)

end Literal

/-! ### Tokens -/

/-- A piece of a string behind an interpolation, or the end of the string. -/
def TokenKind.IsPiece (kind : TokenKind) : Prop := kind = .string ∨ kind = .concatEnd

namespace Scanner

/-- What reading a token does that begins with a character. -/
structure Reading (scanner : Scanner) (first : Placed) (rest : List Placed)
    (result : Token × Scanner) :
    Prop where
  vocabulary : result.2.vocabulary = scanner.vocabulary
  stop : result.2.stop = scanner.stop
  base : result.2.base = scanner.base
  suffix : result.2.rest <:+ rest
  /-- The range goes up to what is left. A piece of a string begins behind the mark before it. -/
  span : ∃ start, result.1.span = scanner.spanTo start result.2.rest ∧
    (start = first.offset ∨ start = Placed.offsetOr scanner.stop rest ∧ result.1.kind.IsPiece ∧
      (result.1.text = "" ∨ result.2.rest ≠ rest))
  /-- What is set aside was read from the same place. -/
  pending : ∀ pending, result.2.pending = some pending → pending.token.span = result.1.span ∧
    (pending = .close result.1.span ∨ result.1.kind = .concatBegin ∧ result.1.span.start =
      first.offset + scanner.base)
  faults : ∃ new : List Diagnostic, result.2.faults = scanner.faults ++ new ∧ ∀ fault ∈ new,
    ∃ start stop, Placed.Mark scanner.stop (first :: rest) start ∧
      Placed.Mark scanner.stop (first :: rest) stop ∧
      fault.span = (Span.mk start stop).shift scanner.base

variable {scanner : Scanner} {first : Placed} {rest behind : List Placed}

theorem reading_word (kept : scanner.pending = none) (kind : TokenKind) (lexeme : List Char)
    (count : Nat) (fault : Option LexicalFault) :
    scanner.Reading first rest ((Form.word kind lexeme count fault).read scanner first rest) := by
  have suffix : rest.drop count <:+ rest := drop_suffix ..
  have aside {pending : Pending} {goal : Prop} (set_aside : scanner.pending = some pending) :
      goal := by
    cases set_aside.symm.trans kept
  cases fault with
  | none =>
    exact ⟨rfl, rfl, rfl, suffix, ⟨first.offset, rfl, .inl rfl⟩, fun _ => aside,
      ⟨[], (append_nil _).symm, forall_mem_nil _⟩⟩
  | some fault =>
    refine ⟨rfl, rfl, rfl, suffix, ⟨first.offset, rfl, .inl rfl⟩, fun _ => aside,
      ⟨_, rfl, forall_mem_singleton.mpr ⟨_, _, mark_first first rest, ?_, rfl⟩⟩⟩
    exact mark_of_suffix (suffix.trans (suffix_cons ..))

theorem reading_reject (kept : scanner.pending = none) (char : Char) :
    scanner.Reading first rest (scanner.reject char first.offset rest) where
  vocabulary := rfl
  stop := rfl
  base := rfl
  suffix := suffix_rfl
  span := ⟨first.offset, rfl, .inl rfl⟩
  pending pending set_aside := by cases set_aside.symm.trans kept
  faults :=
    ⟨_, rfl, forall_mem_singleton.mpr ⟨_, _, mark_first first rest,
      mark_of_suffix (suffix_cons ..), rfl⟩⟩

variable {interpolated deep : Bool} {literal : Literal} {span : Span}

/-- What is set aside has the range of the piece, and a text is set aside only at the start of a
string. -/
theorem aside_of_piece {pending : Pending}
    (set_aside : (pieceOf interpolated deep literal).aside span none = some pending) :
    pending.token.span = span ∧ (pending = .close span ∨
      (pieceOf interpolated deep literal).kind = .concatBegin ∧ interpolated = false) := by
  simp only [pieceOf] at set_aside ⊢
  repeat' split at set_aside
  all_goals cases set_aside
  all_goals simp [Pending.token]

theorem kind_of_resumed : (pieceOf true deep literal).kind.IsPiece := by
  simp only [pieceOf]
  repeat' split
  all_goals simp_all [TokenKind.IsPiece]

theorem lexeme_of_empty (empty : literal.content = []) :
    (pieceOf interpolated deep literal).lexeme = "" := by
  simp only [pieceOf, empty]
  repeat' split
  all_goals rfl

theorem reading_string (kept : scanner.pending = none) (interpolated : Bool) {start : Nat}
    (begins : start = first.offset ∧ interpolated = false ∨ start = offsetOr scanner.stop rest ∧
      interpolated = true) :
    scanner.Reading first rest (scanner.string interpolated start rest) := by
  rw [string_eq]
  have suffix := suffix_read scanner.stop rest
  have begin_mark : Mark scanner.stop (first :: rest) start := by
    rcases begins with ⟨rfl, -⟩ | ⟨rfl, -⟩
    · exact mark_first first rest
    · exact mark_of_suffix (suffix_cons ..)
  refine ⟨rfl, rfl, rfl, suffix, ⟨start, rfl, ?_⟩, fun pending set_aside => ?_,
    ⟨_, rfl, forall_mem_append.mpr ⟨?_, ?_⟩⟩⟩
  · rcases begins with ⟨here, -⟩ | ⟨behind, rfl⟩
    · exact .inl here
    · refine .inr ⟨behind, kind_of_resumed, or_iff_not_imp_right.mpr fun same => ?_⟩
      -- A piece that was read from nothing has nothing in it.
      exact lexeme_of_empty (content_of_rest_eq (not_not.mp same))
  · simp only [Piece.read, kept] at set_aside
    obtain ⟨range, close | ⟨kind, rfl⟩⟩ := aside_of_piece set_aside
    · exact ⟨range, .inl close⟩
    · obtain ⟨rfl, -⟩ := begins.resolve_right (by simp)
      exact ⟨range, .inr ⟨kind, rfl⟩⟩
  · intro fault member
    obtain ⟨offset, invalid, rfl⟩ := mem_map.mp member
    exact ⟨start, offset, begin_mark, (mark_of_invalid invalid).of_suffix (suffix_cons first rest),
      rfl⟩
  · intro fault member
    obtain ⟨_, _, rfl⟩ := mem_map.mp member
    exact ⟨start, _, begin_mark, mark_of_suffix (suffix.trans (suffix_cons ..)), rfl⟩

/-- Whatever begins with a character is read from it and from what is behind it. -/
theorem reading_dispatch (kept : scanner.pending = none) (first : Placed) (rest : List Placed) :
    scanner.Reading first rest (scanner.dispatch first rest) := by
  rw [dispatch_eq]
  cases scanner.form first rest with
  | word kind lexeme count fault => exact reading_word kept kind lexeme count fault
  | unknown => exact reading_reject kept _
  | piece interpolated =>
    cases interpolated with
    | false => exact reading_string kept false (.inl ⟨rfl, rfl⟩)
    | true =>
      have inside :=
        @reading_string { scanner with depth := scanner.depth - 1 } first rest kept true _
        (.inr ⟨rfl, rfl⟩)
      exact ⟨inside.vocabulary, inside.stop, inside.base, inside.suffix, inside.span,
        inside.pending, inside.faults⟩

end Scanner

/-! ### Weights -/

namespace Token

/-- How much can be read because of a token: the token, and the text of a string if it is read once
more. Nothing is read because of the end. -/
def weight (token : Token) : Nat :=
  match token.kind with
  | .eof => 0
  | .string => 1 + 2 * (token.span.length - 1)
  | _ => 1

theorem weight_le (token : Token) : token.weight ≤ 1 + 2 * (token.span.length - 1) := by
  unfold weight
  split <;> omega

theorem weight_of_ne_string {token : Token} (other : token.kind ≠ .string) : token.weight ≤ 1 := by
  unfold weight
  split
  · exact Nat.zero_le _
  · contradiction
  · exact le_rfl

theorem weight_pos {token : Token} (unfinished : token.kind ≠ .eof) : 0 < token.weight := by
  unfold weight
  split
  · contradiction
  · omega
  · omega

end Token

namespace Scanner

/-- Twice the bytes ahead, and what was set aside. -/
def weight (scanner : Scanner) : Nat :=
  2 * (scanner.stop - Placed.offsetOr scanner.stop scanner.rest) +
    (scanner.pending.map fun pending => pending.token.weight).getD 0

/-- The characters ahead are written one behind the other. -/
def Ordered (scanner : Scanner) : Prop := Placed.Ordered scanner.stop scanner.rest

variable {scanner : Scanner} {first : Placed} {rest : List Placed} {result : Token × Scanner}

section

variable (reading : scanner.Reading first rest result)

include reading

theorem Reading.pending_weight :
    (result.2.pending.map fun pending => pending.token.weight).getD 0 + result.1.weight ≤
        2 + 2 * (result.1.span.length - 1) ∧
      (result.1.kind.IsPiece →
        (result.2.pending.map fun pending => pending.token.weight).getD 0 ≤ 1) := by
  have own := result.1.weight_le
  cases set_aside : result.2.pending with
  | none =>
    simp only [Option.map_none, Option.getD_none]
    omega
  | some pending =>
    obtain ⟨same, kind⟩ := reading.pending pending set_aside
    have aside := pending.token.weight_le
    rw [same] at aside
    simp only [Option.map_some, Option.getD_some]
    rcases kind with rfl | ⟨begins, -⟩
    · have light : (Pending.close result.1.span).token.weight = 1 := rfl
      omega
    · have light : result.1.weight ≤ 1 := Token.weight_of_ne_string (by rw [begins]; decide)
      refine ⟨by omega, fun piece => ?_⟩
      rw [begins] at piece
      rcases piece with is_string | is_end
      · cases is_string
      · cases is_end

theorem Reading.weight_le (ordered : Placed.Ordered scanner.stop (first :: rest)) :
    result.1.weight + result.2.weight ≤ 2 * (scanner.stop - first.offset) := by
  have ordered_rest := ordered.of_sublist (sublist_cons_self ..)
  have ahead := ordered.offset_lt
  have behind := ordered_rest.offset_or_mono reading.suffix
  have bounded := (ordered_rest.of_sublist reading.suffix.sublist).offset_or_le
  obtain ⟨aside, light⟩ := reading.pending_weight
  obtain ⟨start, span, begins⟩ := reading.span
  have length : result.1.span.length = offsetOr scanner.stop result.2.rest - start := by
    rw [span]
    simp only [spanTo, Span.shift, Span.length]
    omega
  have own := result.1.weight_le
  rw [weight, reading.stop]
  rcases begins with rfl | ⟨rfl, piece, -⟩
  · omega
  · have := light piece
    omega

theorem Reading.ordered (ordered : Placed.Ordered scanner.stop (first :: rest)) :
    result.2.Ordered := by
  rw [Ordered, reading.stop]
  exact ordered.of_sublist (reading.suffix.sublist.trans (sublist_cons_self ..))

end

theorem weight_finish (kept : scanner.pending = none) : scanner.finish.2.weight = 0 := by
  unfold finish
  simp only
  split <;> simp [weight, note, offsetOr, kept]

theorem ordered_finish : scanner.finish.2.Ordered := by
  unfold finish
  simp only
  split <;> exact ⟨.nil, forall_mem_nil _⟩

theorem weight_scan (ordered : scanner.Ordered) :
    scanner.scan.2.Ordered ∧ scanner.scan.1.weight + scanner.scan.2.weight ≤ scanner.weight := by
  unfold scan
  split
  · rename_i pending set_aside
    refine ⟨ordered, ?_⟩
    simp only [weight, set_aside, Option.map_some, Option.getD_some, Option.map_none,
      Option.getD_none]
    omega
  · rename_i kept
    split
    · refine ⟨ordered_finish, ?_⟩
      rw [weight_finish kept]
      exact Nat.zero_le _
    · rename_i first rest ahead
      have blanks := dropWhile_suffix (l := scanner.rest) fun placed => isBlank placed.char
      rw [ahead] at blanks
      have inside := Ordered.of_sublist ordered blanks.sublist
      have reading := reading_dispatch kept first rest
      refine ⟨reading.ordered inside, Nat.le_trans (reading.weight_le inside) ?_⟩
      have skipped : offsetOr scanner.stop scanner.rest ≤ first.offset :=
        Ordered.offset_or_mono ordered blanks
      rw [weight]
      omega

theorem weight_next (ordered : scanner.Ordered) :
    scanner.next.2.Ordered ∧ scanner.next.1.weight + scanner.next.2.weight ≤ scanner.weight := by
  have scanned := weight_scan ordered
  unfold next
  simp only
  split
  · exact scanned
  · exact scanned

theorem advance_eq (scanner : Scanner) : scanner.advance.2 =
    if scanner.next.1.kind = .comment then scanner.next.2.advance.2 else scanner.next := by
  rw [advance]
  split
  rename_i token behind read
  by_cases comment : token.kind = .comment
  · rw [dif_pos comment]
    simp only [read, if_pos comment]
  · rw [dif_neg comment]
    simp only [read, if_neg comment]

/-- What is true where a token is read that is no comment, and behind a comment if it is true of
what follows, is true of going on to the next token. -/
theorem advance_induction {holds : Scanner → Token × Scanner → Prop}
    (reads : ∀ scanner, scanner.next.1.kind ≠ .comment → holds scanner scanner.next)
    (skips : ∀ scanner, scanner.next.1.kind = .comment →
      holds scanner.next.2 scanner.next.2.advance.2 → holds scanner scanner.next.2.advance.2)
    (scanner : Scanner) : holds scanner scanner.advance.2 := by
  fun_induction advance scanner with
  | case1 scanner token behind read comment _ comments found last later ih =>
    have here := skips scanner (by rwa [read]) (by rwa [read])
    rwa [read, later] at here
  | case2 scanner token behind read comment =>
    have here := reads scanner (by rwa [read])
    rwa [read] at here

theorem weight_advance (ordered : scanner.Ordered) : scanner.advance.2.2.Ordered ∧
      scanner.advance.2.1.weight + scanner.advance.2.2.weight ≤ scanner.weight := by
  induction scanner using advance_induction with
  | reads scanner _ => exact weight_next ordered
  | skips scanner _ ih =>
    have here := weight_next ordered
    have later := ih here.1
    exact ⟨later.1, by omega⟩

end Scanner

end TriggerScript
