import TriggerScript.Proofs.Token.Sight

/-!
Texts written elsewhere.

A scanner hands offsets on, but it never looks at them. So a text whose characters stand at other
offsets is read alike, whatever the map of offsets is (`next_move`). The reader merges ranges and
asks whether they are empty; a `Relocation` keeps the order of the offsets that occur, so that these
questions have the same answers.
-/

namespace TriggerScript

open List Literal Placed

/-! ### Moving offsets -/

def Span.move (move : Nat → Nat) (span : Span) : Span := ⟨move span.start, move span.stop⟩

def Placed.move (move : Nat → Nat) (placed : Placed) : Placed := ⟨move placed.offset, placed.char⟩

def Token.move (move : Nat → Nat) (token : Token) : Token :=
  { token with span := token.span.move move }

def Pending.move (move : Nat → Nat) : Pending → Pending
  | .text span lexeme => .text (span.move move) lexeme
  | .close span => .close (span.move move)

def Diagnostic.move (move : Nat → Nat) (diagnostic : Diagnostic) : Diagnostic :=
  { diagnostic with span := diagnostic.span.move move }

def Literal.move (move : Nat → Nat) (literal : Literal) : Literal :=
  { literal with rest := literal.rest.map (Placed.move move), invalid := literal.invalid.map move }

/-- The same text at other offsets. -/
def Scanner.move (move : Nat → Nat) (scanner : Scanner) : Scanner :=
  { scanner with
    rest := scanner.rest.map (Placed.move move)
    stop := move scanner.stop
    pending := scanner.pending.map (Pending.move move)
    faults := scanner.faults.map (Diagnostic.move move) }

/-- The same text at other offsets, as far as it was read. -/
def Lane.move (move : Nat → Nat) (lane : Lane) : Lane where
  scanner := lane.scanner.move move
  ahead := lane.ahead.map (Token.move move)
  previous := lane.previous.map (Token.move move)

variable (move : Nat → Nat)

namespace Placed

@[simp] theorem offset_or_move (stop : Nat) (content : List Placed) :
    offsetOr (move stop) (content.map (Placed.move move)) = move (offsetOr stop content) := by
  cases content <;> rfl

@[simp] theorem chars_move (content : List Placed) :
    chars (content.map (Placed.move move)) = chars content := by
  simp [chars, Placed.move]

theorem drop_while_move (test : Char → Bool) (content : List Placed) :
    (content.map (Placed.move move)).dropWhile (fun placed => test placed.char) =
      (content.dropWhile fun placed => test placed.char).map (Placed.move move) := by
  rw [dropWhile_map]
  rfl

end Placed

theorem Literal.read_move (stop : Nat) (content : List Placed) :
    Literal.read (move stop)
    (content.map (Placed.move move)) = (Literal.read stop content).move move := by
  fun_induction Literal.read stop content with
  | case1 => rfl
  | case2 first rest ends | case3 first rest _ ends | case4 first rest _ _ ends
  | case5 first _ _ _ ends =>
    rw [map_cons, read.eq_def]
    simp [Literal.move, Placed.move, ends]
  | case6 first _ _ _ escape letter rest char known ih =>
    rw [map_cons, map_cons, read.eq_def]
    simp only [Placed.move, escape, known, ih]
    rfl
  | case7 first _ _ _ escape letter rest unknown ih =>
    rw [map_cons, map_cons, read.eq_def]
    simp only [Placed.move, escape, unknown, ih]
    simp [Literal.move, note]
  | case8 first rest open_line unquoted unmarked plain ih =>
    rw [map_cons, read.eq_def]
    simp only [Placed.move, open_line, unquoted, unmarked, plain, ih, if_false]
    rfl

/-! ### Reading a moved text -/

theorem ite_eq_map {α β : Type} {first second : Prop} [Decidable first] [Decidable second]
    (same : first ↔ second) (image : α → β) {left right : β} {left' right' : α}
    (chosen : first → left = image left') (other : ¬first → right = image right') :
    (if first then left else right) = image (if second then left' else right') := by
  by_cases holds : first
  · rw [if_pos holds, if_pos (same.mp holds), chosen holds]
  · rw [if_neg holds, if_neg (mt same.mpr holds), other holds]

namespace Scanner

variable {scanner : Scanner} {move}

theorem span_to_move (based : scanner.base = 0) (start : Nat) (rest : List Placed) :
    (scanner.move move).spanTo (move start)
    (rest.map (Placed.move move)) = (scanner.spanTo start rest).move move := by
  simp [spanTo, Scanner.move, Span.shift, Span.move, based]

theorem note_move (fault : LexicalFault) (span : Span) :
    (scanner.move move).note fault (span.move move) = (scanner.note fault span).move move := by
  simp [note, Scanner.move, Diagnostic.move]

theorem accept_move (based : scanner.base = 0) (kind : TokenKind) (lexeme : List Char) (start : Nat)
    (rest : List Placed) :
    (scanner.move move).accept kind lexeme (move start) (rest.map (Placed.move move)) =
      (scanner.accept kind lexeme start rest).map (Token.move move) (Scanner.move move) := by
  simp only [accept, span_to_move based]
  rfl

theorem reject_move (based : scanner.base = 0) (char : Char) (start : Nat) (rest : List Placed) :
    (scanner.move move).reject char (move start) (rest.map (Placed.move move)) =
      (scanner.reject char start rest).map (Token.move move) (Scanner.move move) := by
  simp only [reject, span_to_move based, note_move]
  rfl

theorem remark_move (fault : Option LexicalFault) (span : Span) :
    (scanner.move move).remark fault (span.move move) = (scanner.remark fault span).move move := by
  cases fault with
  | none => rfl
  | some fault => exact note_move fault span

variable (based : scanner.base = 0)

include based

theorem string_move (interpolated : Bool) (start : Nat) (content : List Placed) :
    (scanner.move move).string interpolated (move start) (content.map (Placed.move move)) =
      (scanner.string interpolated start content).map (Token.move move) (Scanner.move move) := by
  have read : Literal.read (scanner.move move).stop (content.map (Placed.move move)) =
      (Literal.read scanner.stop content).move move := read_move move _ _
  rw [string_eq, string_eq, read]
  generalize Literal.read scanner.stop content = literal
  have span : (scanner.move move).spanTo (move start) (literal.move move).rest =
      (scanner.spanTo start literal.rest).move move := span_to_move based _ _
  have invalid : (scanner.move move).invalidEscapes (move start) (literal.move move) =
      (scanner.invalidEscapes start literal).map (Diagnostic.move move) := by
    have here : (scanner.move move).base = 0 := based
    simp [invalidEscapes, Literal.move, Diagnostic.move, Span.move, Span.shift, based, here,
      Function.comp_def]
  have aside : ∀ deep span, (pieceOf interpolated deep literal).aside (span.move move)
    (scanner.move move).pending =
      ((pieceOf interpolated deep literal).aside span scanner.pending).map (Pending.move move) := by
    intro deep span
    simp only [pieceOf]
    repeat' split
    all_goals rfl
  have piece : ∀ deep, pieceOf interpolated deep (literal.move move) =
    pieceOf interpolated deep literal := fun _ => rfl
  simp only [Piece.read, span, invalid, piece, aside, Prod.map, Token.move]
  simp only [Scanner.move, map_append, map_map]
  rfl

theorem finish_move :
    (scanner.move move).finish = scanner.finish.map (Token.move move) (Scanner.move move) := by
  have span : (scanner.move move).spanTo (scanner.move move).stop [] =
    (scanner.spanTo scanner.stop []).move move :=
    span_to_move based scanner.stop []
  have depth : (scanner.move move).depth = scanner.depth := rfl
  simp only [finish, span, depth]
  split
  · rfl
  · simp [note, Scanner.move, Diagnostic.move, Token.move]

theorem dispatch_move (first : Placed) (rest : List Placed) :
    (scanner.move move).dispatch (first.move move) (rest.map (Placed.move move)) =
      (scanner.dispatch first rest).map (Token.move move) (Scanner.move move) := by
  have same : (scanner.move move).form (first.move move) (rest.map (Placed.move move)) =
    scanner.form first rest := by
    simp only [form, chars_move]
    rfl
  rw [dispatch_eq, dispatch_eq, same]
  cases scanner.form first rest with
  | word kind lexeme count fault =>
    have offset : (first.move move).offset = move first.offset := rfl
    simp only [Form.read, ← map_drop, offset, span_to_move based, remark_move]
    exact accept_move (by cases fault <;> exact based) _ _ _ _
  | unknown => exact reject_move based _ _ _
  | piece interpolated =>
    cases interpolated with
    | false => exact string_move based _ _ _
    | true =>
      have offset : offsetOr (scanner.move move).stop (rest.map (Placed.move move)) =
          move (offsetOr scanner.stop rest) := offset_or_move move _ _
      simp only [Form.read, offset]
      exact @string_move move { scanner with depth := scanner.depth - 1 } based _ _ _

theorem scan_move :
    (scanner.move move).scan = scanner.scan.map (Token.move move) (Scanner.move move) := by
  have pending : (scanner.move move).pending = scanner.pending.map (Pending.move move) := rfl
  have rest : (scanner.move move).rest = scanner.rest.map (Placed.move move) := rfl
  simp only [scan, pending, rest, drop_while_move move isBlank]
  cases set_aside : scanner.pending with
  | some pending => cases pending <;> rfl
  | none =>
    cases scanner.rest.dropWhile fun placed => isBlank placed.char with
    | nil => exact finish_move based
    | cons first rest => exact dispatch_move based first rest

theorem next_move :
    (scanner.move move).next = scanner.next.map (Token.move move) (Scanner.move move) := by
  simp only [next, scan_move based]
  have kind : (scanner.scan.1.move move).kind = scanner.scan.1.kind := rfl
  simp only [Prod.map, kind]
  split <;> rfl

end Scanner

/-! ### Offsets that occur -/

/-- Where offsets are moved. The order of the offsets that occur is kept. -/
structure Relocation where
  move : Nat → Nat
  /-- Offsets that occur. -/
  keeps : Nat → Prop
  /-- Offsets at which a token that has a text may end. -/
  ends : Nat → Prop
  strict : ∀ {left right : Nat}, keeps left → left < right → move left < move right

variable {keeps ends : Nat → Prop}

/-- Both ends of a range occur. -/
def Span.Within (keeps : Nat → Prop) (span : Span) : Prop := keeps span.start ∧ keeps span.stop

/-- The range of a token occurs. Only the end and a piece of a string without text have an empty
one. -/
structure Token.Within (keeps ends : Nat → Prop) (token : Token) : Prop where
  span : token.span.Within keeps
  wide : token.span.isEmpty → token.text = "" ∧ (token.kind.IsPiece ∨ token.kind = .eof)
  whole : token.text ≠ "" → ends token.span.stop

/-- Every offset of a text occurs. -/
structure Scanner.Within (keeps ends : Nat → Prop) (scanner : Scanner) : Prop where
  based : scanner.base = 0
  ordered : scanner.Ordered
  content : ∀ placed ∈ scanner.rest, keeps placed.offset ∧ ends placed.offset
  stop : keeps scanner.stop
  whole : scanner.rest ≠ [] → ends scanner.stop
  pending : ∀ pending, scanner.pending = some pending → pending.token.Within keeps ends
  faults : ∀ fault ∈ scanner.faults, fault.span.Within keeps

namespace Scanner

variable {scanner : Scanner} {first : Placed} {rest : List Placed} {result : Token × Scanner}

theorem Reading.wide (reading : scanner.Reading first rest result)
    (ordered : Placed.Ordered scanner.stop (first :: rest)) (empty : result.1.span.isEmpty) :
    result.1.text = "" ∧ result.1.kind.IsPiece := by
  have ordered_rest := ordered.of_sublist (sublist_cons_self ..)
  have ahead := ordered.offset_lt
  have behind := ordered_rest.offset_or_mono reading.suffix
  obtain ⟨start, span, begins⟩ := reading.span
  rw [span] at empty
  have closed := of_decide_eq_true empty
  dsimp only [spanTo, Span.shift] at closed
  rcases begins with rfl | ⟨rfl, piece, spelled⟩
  · omega
  · refine ⟨spelled.resolve_right fun shorter => ?_, piece⟩
    have := ordered_rest.offset_or_lt reading.suffix shorter
    omega

theorem Reading.within (reading : scanner.Reading first rest result) (based : scanner.base = 0)
    (ordered : Placed.Ordered scanner.stop (first :: rest))
    (content : ∀ placed ∈ first :: rest, keeps placed.offset ∧ ends placed.offset)
    (stop : keeps scanner.stop ∧ ends scanner.stop)
    (faults : ∀ fault ∈ scanner.faults, fault.span.Within keeps) :
    result.1.Within keeps ends ∧ result.2.Within keeps ends := by
  have marked : ∀ {offset}, Mark scanner.stop (first :: rest) offset → keeps offset ∧ ends offset :=
    fun mark => ⟨mark.holds (fun placed member => (content placed member).1) stop.1,
      mark.holds (fun placed member => (content placed member).2) stop.2⟩
  have suffix : result.2.rest <:+ first :: rest := reading.suffix.trans (suffix_cons ..)
  have wide := reading.wide ordered
  have span : result.1.span.Within keeps ∧ ends result.1.span.stop := by
    obtain ⟨start, span, begins⟩ := reading.span
    rw [span]
    simp only [spanTo, Span.shift, based, Nat.add_zero]
    obtain ⟨kept, ending⟩ := marked (mark_of_suffix suffix)
    refine ⟨⟨?_, kept⟩, ending⟩
    rcases begins with rfl | ⟨rfl, -⟩
    · exact (marked (mark_first ..)).1
    · exact (marked (mark_of_suffix (suffix_cons ..))).1
  refine ⟨⟨span.1, fun empty => ⟨(wide empty).1, .inl (wide empty).2⟩, fun _ => span.2⟩,
    ⟨reading.base.trans based, reading.ordered ordered,
      fun placed member => content placed (suffix.subset member),
      reading.stop ▸ stop.1, fun _ => reading.stop ▸ stop.2, fun pending set_aside => ?_, ?_⟩⟩
  · obtain ⟨same, kind⟩ := reading.pending pending set_aside
    refine ⟨same ▸ span.1, fun empty => ?_, fun _ => same ▸ span.2⟩
    rcases kind with rfl | ⟨begins, -⟩
    · exact ⟨rfl, .inl (.inr rfl)⟩
    · rw [same] at empty
      rcases begins ▸ (wide empty).2 with is_string | is_end
      · cases is_string
      · cases is_end
  · obtain ⟨new, split, marks⟩ := reading.faults
    rw [split]
    refine forall_mem_append.mpr ⟨faults, fun fault member => ?_⟩
    obtain ⟨start, stop, begins, ends, range⟩ := marks fault member
    rw [range, based]
    exact ⟨(marked begins).1, (marked ends).1⟩

section

variable (within : scanner.Within keeps ends)

include within

theorem Within.finish :
    scanner.finish.1.Within keeps ends ∧ scanner.finish.2.Within keeps ends := by
  have span : (scanner.spanTo scanner.stop []).Within keeps := by
    simp only [spanTo, Span.shift, within.based, Nat.add_zero]
    exact ⟨within.stop, within.stop⟩
  have cut : Within keeps ends { scanner with rest := [] } :=
    ⟨within.based, ⟨.nil, forall_mem_nil _⟩, forall_mem_nil _, within.stop,
      fun filled => absurd rfl filled, within.pending, within.faults⟩
  refine ⟨⟨span, fun _ => ⟨rfl, .inr rfl⟩, fun spelled => absurd rfl spelled⟩, ?_⟩
  unfold Scanner.finish
  simp only
  split
  · exact cut
  · refine ⟨cut.based, cut.ordered, cut.content, cut.stop, cut.whole, cut.pending, ?_⟩
    exact forall_mem_append.mpr ⟨within.faults, forall_mem_singleton.mpr span⟩

theorem Within.scan : scanner.scan.1.Within keeps ends ∧ scanner.scan.2.Within keeps ends := by
  unfold Scanner.scan
  split
  · rename_i pending set_aside
    exact ⟨within.pending pending set_aside, within.based, within.ordered, within.content,
      within.stop, within.whole, nofun, within.faults⟩
  · rename_i kept
    split
    · exact within.finish
    · rename_i first rest ahead
      have blanks := dropWhile_suffix (l := scanner.rest) fun placed => isBlank placed.char
      rw [ahead] at blanks
      have filled : scanner.rest ≠ [] := fun none => by
        rw [none] at blanks
        cases suffix_nil.mp blanks
      exact (reading_dispatch kept first rest).within within.based
        (within.ordered.of_sublist blanks.sublist)
        (fun placed member => within.content placed (blanks.subset member)) ⟨within.stop,
          within.whole filled⟩
        within.faults

theorem Within.next : scanner.next.1.Within keeps ends ∧ scanner.next.2.Within keeps ends := by
  obtain ⟨token, behind⟩ := within.scan
  refine ⟨token, ?_⟩
  unfold Scanner.next
  simp only
  split
  · exact behind
  · exact ⟨behind.based, behind.ordered, behind.content, behind.stop, behind.whole, behind.pending,
      behind.faults⟩

theorem Within.advance :
    scanner.advance.2.1.Within keeps ends ∧ scanner.advance.2.2.Within keeps ends := by
  induction scanner using advance_induction with
  | reads scanner _ => exact within.next
  | skips scanner _ ih => exact ih within.next.2

end

theorem advance_move (move : Nat → Nat) (within : scanner.Within keeps ends) :
    (scanner.move move).advance.2 =
      scanner.advance.2.map (Token.move move) (Scanner.move move) := by
  induction scanner using advance_induction with
  | reads scanner token =>
    rw [advance_eq, next_move within.based, Prod.map, if_neg (by exact token)]
  | skips scanner comment ih =>
    rw [advance_eq, next_move within.based, Prod.map, if_pos (by exact comment)]
    exact ih within.next.2

theorem Within.ordered_move (relocation : Relocation)
    (within : scanner.Within relocation.keeps relocation.ends) :
    (scanner.move relocation.move).Ordered := by
  constructor
  · have rising := within.ordered.rising
    refine pairwise_map.mpr (rising.imp_of_mem fun left _ before => ?_)
    exact relocation.strict (within.content _ left).1 before
  · refine forall_mem_map.mpr fun placed member => ?_
    exact relocation.strict (within.content placed member).1 (within.ordered.bounded placed member)

end Scanner

/-! ### Texts of a stream -/

namespace Lane

/-- Every offset of a text and of the tokens read ahead occurs. -/
structure Within (keeps ends : Nat → Prop) (lane : Lane) : Prop where
  scanner : lane.scanner.Within keeps ends
  ahead : ∀ token ∈ lane.ahead, token.Within keeps ends

variable {lane : Lane}

variable (within : lane.Within keeps ends)

include within

theorem Within.read_ahead : lane.readAhead.Within keeps ends := by
  have read := within.scanner.advance
  exact ⟨read.2, forall_mem_append.mpr ⟨within.ahead, forall_mem_singleton.mpr read.1⟩⟩

theorem read_ahead_move : (lane.move move).readAhead = lane.readAhead.move move := by
  have moved := Scanner.advance_move move within.scanner
  simp only [readAhead, Lane.move, moved, map_append, map_cons, map_nil, Prod.map]

theorem repeat_move (rounds : Nat) :
    (Nat.repeat readAhead rounds lane).Within keeps ends ∧
      Nat.repeat readAhead rounds (lane.move move) = (Nat.repeat readAhead rounds lane).move
        move := by
  induction rounds with
  | zero => exact ⟨within, rfl⟩
  | succ rounds ih =>
    obtain ⟨inside, same⟩ := ih
    refine ⟨inside.read_ahead, ?_⟩
    rw [Nat.repeat, Nat.repeat, same, read_ahead_move move inside]

theorem Within.fill (count : Nat) : (lane.fill count).Within keeps ends :=
  (repeat_move id within _).1

theorem fill_move (count : Nat) : (lane.move move).fill count = (lane.fill count).move move := by
  have length : (lane.move move).ahead.length = lane.ahead.length := length_map _
  rw [Lane.fill, length, (repeat_move move within _).2]
  rfl

theorem Within.sight : (lane.sight 0).Within keeps ends := by
  obtain ⟨ahead, split⟩ := lane.head_fill
  exact (within.fill 0).ahead _ (split ▸ mem_cons_self)

theorem sight_move (count : Nat) : (lane.move move).sight count = (lane.sight count).move move := by
  have held : count < (lane.fill count).ahead.length := by
    rw [length_fill]
    omega
  rw [Lane.sight, fill_move move within, Lane.sight]
  simp [Lane.move, getElem?_eq_getElem held]

theorem take_move : (lane.move move).take = lane.take.move move := by
  have head := sight_move move within 0
  by_cases finished : (lane.sight 0).kind = .eof
  · rw [take_of_finished finished, take_of_finished (by rw [head]; exact finished),
      fill_move move within]
  · obtain ⟨ahead, split, taken⟩ := take_of_unfinished finished
    have unfinished : ((lane.move move).sight 0).kind ≠ .eof := by
      rw [head]
      exact finished
    obtain ⟨ahead', split', taken'⟩ := take_of_unfinished unfinished
    rw [fill_move move within, head] at split' taken'
    rw [Lane.move, split, map_cons] at split'
    obtain ⟨-, rfl⟩ := List.cons.inj split'
    rw [taken, taken']
    rfl

theorem Within.take : lane.take.Within keeps ends := by
  have filled := within.fill 0
  by_cases finished : (lane.sight 0).kind = .eof
  · rwa [take_of_finished finished]
  · obtain ⟨ahead, split, taken⟩ := take_of_unfinished finished
    rw [taken]
    exact ⟨filled.scanner, fun token member =>
      filled.ahead token (split ▸ mem_cons_of_mem _ member)⟩

end Lane

/-! ### Ranges -/

namespace Relocation

variable {relocation : Relocation} {span left right : Span}

theorem mono (relocation : Relocation) (keeps : relocation.keeps first) (before : first ≤ second) :
    relocation.move first ≤ relocation.move second := by
  rcases Nat.eq_or_lt_of_le before with rfl | before
  · exact le_rfl
  · exact Nat.le_of_lt (relocation.strict keeps before)

theorem is_empty_move (within : span.Within relocation.keeps) :
    (span.move relocation.move).isEmpty = span.isEmpty := by
  refine decide_eq_decide.mpr ⟨fun closed => ?_, relocation.mono within.2⟩
  by_contra wide
  have := relocation.strict within.1 (Nat.lt_of_not_le wide)
  exact Nat.not_le_of_lt this closed

theorem mono_on (relocation : Relocation) :
    MonotoneOn relocation.move {place | relocation.keeps place} :=
  fun _ keeps _ _ before => relocation.mono keeps before

theorem merge_move (inside : left.Within relocation.keeps)
    (outside : right.Within relocation.keeps) :
    (left.merge right).Within relocation.keeps ∧
      (left.move relocation.move).merge (right.move relocation.move) =
      (left.merge right).move relocation.move := by
  rw [Span.merge, Span.merge, is_empty_move inside, is_empty_move outside]
  split
  · exact ⟨inside, rfl⟩
  · split
    · exact ⟨outside, rfl⟩
    · refine ⟨⟨min_rec' _ inside.1 outside.1, max_rec' _ inside.2 outside.2⟩, ?_⟩
      rw [Span.move, Span.move, Span.move, relocation.mono_on.map_min inside.1 outside.1,
        relocation.mono_on.map_max inside.2 outside.2]

end Relocation

end TriggerScript
