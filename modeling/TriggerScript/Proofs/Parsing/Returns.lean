import TriggerScript.Compiler.Basic
import TriggerScript.Proofs.Parsing.Declarations

/-!
Carriage returns.

A text without its carriage returns has the same tokens at other offsets: `squeeze` says where an
offset goes. The text of a hook is cut out of the source by offsets, so that a carriage return next
to a quote or a backslash is seen there. Apart from that carriage returns make no difference
(`scripts_without_returns`).
-/

namespace TriggerScript

open List Placed

variable {content : List Char} {placed : Placed}

/-- The characters that are left without carriage returns. -/
def withoutReturns (chars : List Char) : List Char := chars.filter fun char => char ≠ '\r'

/-- A carriage return is written at an offset. -/
def IsReturn (chars : List Char) (offset : Nat) : Prop :=
  ∃ before after, chars = before ++ '\r' :: after ∧ offset = total Char.utf8Size before

noncomputable instance (chars : List Char) : DecidablePred (IsReturn chars) :=
  fun _ => Classical.dec _

/-- Where an offset goes if carriage returns are left out: it counts the offsets before it that are
kept. -/
noncomputable def squeeze (chars : List Char) : Nat → Nat :=
  Nat.count fun offset => ¬ IsReturn chars offset

variable {chars before after : List Char} {offset : Nat}

theorem without_returns_append (left right : List Char) :
    withoutReturns (left ++ right) = withoutReturns left ++ withoutReturns right := filter_append ..

/-! ### Where carriage returns are written -/

theorem cut_of_is_return (returns : IsReturn chars offset) : Cut chars offset := by
  obtain ⟨before, after, split, place⟩ := returns
  exact ⟨before, _, split, place⟩

theorem is_return_append (before after : List Char) (offset : Nat) :
    IsReturn (before ++ after) (total Char.utf8Size before + offset) ↔ IsReturn after offset := by
  constructor
  · rintro ⟨first, rest, split, place⟩
    obtain ⟨content, rfl, rfl⟩ := append_of_total_le split (place ▸ Nat.le_add_right ..)
    rw [total_append] at place
    exact ⟨content, rest, rfl, Nat.add_left_cancel place⟩
  · rintro ⟨first, rest, rfl, rfl⟩
    exact ⟨before ++ first, rest, by simp, by simp⟩

/-- Of the offsets of a character only its first can be that of a carriage return. -/
theorem is_return_cons {char : Char} (inside : offset < char.utf8Size) :
    IsReturn (char :: after) offset ↔ offset = 0 ∧ char = '\r' := by
  constructor
  · rintro ⟨before, rest, split, place⟩
    cases before with
    | nil => exact ⟨place, (List.cons.inj split).1⟩
    | cons first before =>
      obtain ⟨rfl, -⟩ := List.cons.inj split
      rw [total_cons] at place
      omega
  · rintro ⟨rfl, rfl⟩
    exact ⟨[], after, rfl, rfl⟩

theorem is_return_iff {char : Char} (before after : List Char) :
    IsReturn (before ++ char :: after) (total Char.utf8Size before) ↔ char = '\r' := by
  rw [← Nat.add_zero (total _ before), is_return_append, is_return_cons char.utf8Size_pos]
  exact and_iff_right rfl

theorem not_return_at_end (chars : List Char) : ¬ IsReturn chars (total Char.utf8Size chars) := by
  rintro ⟨before, after, split, place⟩
  have longer := congrArg (total Char.utf8Size) split
  have positive := Char.utf8Size_pos '\r'
  rw [total_append, total_cons] at longer
  omega

/-! ### Offsets without carriage returns -/

/-- The characters before an offset are left where they are, but for carriage returns. -/
theorem squeeze_total (before after : List Char) :
    squeeze (before ++ after)
    (total Char.utf8Size before) = total Char.utf8Size (withoutReturns before) := by
  induction before with
  | nil => exact Nat.count_zero _
  | cons char rest ih =>
    have here : squeeze (char :: rest ++ after) char.utf8Size = total Char.utf8Size
      (withoutReturns [char]) := by
      by_cases returns : char = '\r'
      · subst returns
        exact Nat.count_iff_forall_not.mpr fun first inside kept =>
          kept ((is_return_cons inside).mpr ⟨Nat.lt_one_iff.mp inside, rfl⟩)
      · rw [withoutReturns, filter_cons_of_pos (by simpa using returns)]
        exact Nat.count_iff_forall.mpr fun first inside found =>
          returns ((is_return_cons inside).mp found).2
    have later : (fun offset => ¬ IsReturn (char :: rest ++ after) (char.utf8Size + offset)) =
        fun offset => ¬ IsReturn (rest ++ after) offset :=
      funext fun offset => congrArg Not (propext (is_return_append [char] (rest ++ after) offset))
    rw [squeeze] at here ih
    rw [squeeze, total_cons, Nat.count_add, here]
    simp only [later, ih]
    rw [← total_append, ← without_returns_append, singleton_append]

theorem squeeze_succ (kept : ¬ IsReturn chars offset) :
    squeeze chars (offset + 1) = squeeze chars offset + 1 := by
  rw [squeeze, Nat.count_succ, if_pos kept]

theorem cut_of_squeeze (kept : ¬ IsReturn chars offset)
    (cut : Cut (withoutReturns chars) (squeeze chars offset)) : Cut chars offset := by
  obtain ⟨_, _, split, place⟩ := cut
  obtain ⟨before, after, rfl, rfl, -⟩ := filter_eq_append_iff.mp split
  -- Of the places that the cut may come from, the last has no carriage return behind it.
  obtain ⟨returns, rest, rfl, all, last⟩ : ∃ returns rest, after = returns ++ rest ∧
    withoutReturns returns = [] ∧
      ∀ others, rest ≠ '\r' :: others := by
    refine ⟨after.takeWhile (· = '\r'), after.dropWhile (· = '\r'), takeWhile_append_dropWhile.symm,
      ?_, ?_⟩
    · exact filter_eq_nil_iff.mpr fun char member => by simpa using mem_takeWhile_imp member
    · intro others same
      have := head?_dropWhile_not (p := (· = '\r')) after
      simp [same] at this
  rw [← append_assoc] at kept place ⊢
  refine ⟨before ++ returns, rest, rfl, Nat.count_injective kept ?_ (place.trans ?_)⟩
  · rw [← Nat.add_zero (total _ (before ++ returns)), is_return_append]
    rintro ⟨first, others, split, place⟩
    cases first with
    | nil => exact last others split
    | cons first others => exact absurd place (Nat.ne_of_lt (total_pos (cons_ne_nil _ _)))
  · refine Eq.trans ?_ (squeeze_total (before ++ returns) rest).symm
    rw [without_returns_append, all, append_nil]
    rfl

/-! ### The text without carriage returns -/

theorem of_list_squeeze (before content after : List Char) :
    ofList (squeeze (before ++ (content ++ after)) (total Char.utf8Size before))
    (withoutReturns content) =
      ((ofList (total Char.utf8Size before) content).filter fun placed => placed.char ≠ '\r').map
        (move (squeeze (before ++ (content ++ after)))) := by
  induction content generalizing before with
  | nil => rfl
  | cons char rest ih =>
    have later := ih (before ++ [char])
    have split : before ++ [char] ++ (rest ++ after) = before ++ (char :: rest ++ after) := by simp
    have size : total Char.utf8Size (before ++ [char]) =
      total Char.utf8Size before + char.utf8Size := by simp
    have next := squeeze_total (before ++ [char]) (rest ++ after)
    rw [without_returns_append, total_append _ (withoutReturns before),
      ← squeeze_total before (char :: rest ++ after)] at next
    rw [next, split, size] at later
    by_cases returns : char = '\r'
    · subst returns
      rw [ofList, filter_cons_of_neg (by simp), ← later]
      rfl
    · have kept : ∀ others, withoutReturns (char :: others) = char :: withoutReturns others := by
        simp [withoutReturns, returns]
      rw [kept, ofList, ofList, List.filter_cons_of_pos (by simpa using returns), map_cons,
        ← later, kept]
      rfl

theorem sound_without_border {lane other : Lane} (border : False) :
    (lane.Ordered ∧ other.Ordered) ∧ lane.scanner.faults = [] ∧ other.scanner.faults = [] :=
  border.elim

/-- Offsets of a text go where they are without carriage returns. Those of carriage returns do not
occur. -/
noncomputable def returnless (chars : List Char) : Link where
  move := squeeze chars
  keeps offset := ¬ IsReturn chars offset
  ends := Cut chars
  strict kept lt := Nat.count_strict_mono kept lt
  border _ _ := False
  fill_border _ border := border
  take_border border _ := border
  head_border := False.elim
  sound_border := sound_without_border

theorem not_open_returnless : ¬ (returnless chars).IsOpen := fun ⟨_, _, border⟩ => border

theorem returnless_of_mem (split : chars = before ++ (content ++ after))
    (member : placed ∈ ofList (total Char.utf8Size before) content) (left : placed.char ≠ '\r') :
    (returnless chars).keeps placed.offset ∧ (returnless chars).ends placed.offset := by
  obtain ⟨inside, behind, split', place⟩ := split_of_mem member
  have whole : chars = (before ++ inside) ++ placed.char :: (behind ++ after) := by
    rw [split, split']
    simp
  have offset : placed.offset = total Char.utf8Size (before ++ inside) := by
    rw [place, total_append]
  refine ⟨fun returns => left ?_, before ++ inside, _, whole, offset⟩
  rw [offset, whole] at returns
  exact (is_return_iff _ _).mp returns

/-- The grammar of the source without its carriage returns. -/
def Grammar.withoutReturns (grammar : Grammar) : Grammar :=
  { grammar with source := String.ofList (TriggerScript.withoutReturns grammar.source.toList) }

namespace Grammar

variable (grammar : Grammar)

theorem source_without_returns :
    grammar.withoutReturns.source.toList = TriggerScript.withoutReturns grammar.source.toList :=
  String.toList_ofList

theorem scanner_without_returns :
    Scanner.ofText grammar.vocabulary grammar.withoutReturns.source 0 =
    (Scanner.ofText grammar.vocabulary grammar.source 0).move (squeeze grammar.source.toList) := by
  have left := source_without_returns grammar
  have stop : grammar.withoutReturns.source.utf8ByteSize =
      squeeze grammar.source.toList grammar.source.utf8ByteSize := by
    have here := squeeze_total grammar.source.toList []
    rw [append_nil] at here
    rw [utf8_size_eq, utf8_size_eq, left, here]
  have rest : (ofText grammar.withoutReturns.source).filter (fun placed => placed.char ≠ '\r') =
      ((ofText grammar.source).filter fun placed => placed.char ≠ '\r').map
        (move (squeeze grammar.source.toList)) := by
    have here := of_list_squeeze [] grammar.source.toList []
    rw [nil_append, append_nil, total_nil, show squeeze _ 0 = 0 from Nat.count_zero _,
      ← left] at here
    rw [filter_eq_self.mpr, ofText, here, ofText]
    intro placed member
    obtain ⟨before, after, split, -⟩ := split_of_mem member
    have kept : placed.char ∈ TriggerScript.withoutReturns grammar.source.toList := by
      rw [← left, split]
      simp
    exact (mem_filter.mp kept).2
  simp only [Scanner.ofText, Scanner.ofPlaced, Scanner.move, rest, stop]
  rfl

theorem within_returnless : (Scanner.ofText grammar.vocabulary grammar.source 0).Within
    (returnless grammar.source.toList).keeps (returnless grammar.source.toList).ends where
  based := rfl
  ordered := (ordered_of_text grammar.source).of_sublist filter_sublist
  content placed member := by
    obtain ⟨inside, left⟩ := mem_filter.mp member
    have split : grammar.source.toList = [] ++ (grammar.source.toList ++ []) := by simp
    exact returnless_of_mem split inside (by simpa using left)
  stop := by
    change ¬ IsReturn grammar.source.toList grammar.source.utf8ByteSize
    rw [utf8_size_eq]
    exact not_return_at_end _
  whole _ := ⟨grammar.source.toList, [], (append_nil _).symm, utf8_size_eq _⟩
  pending _ set_aside := by cases set_aside
  faults := forall_mem_nil _

/-- The source and the source without its carriage returns correspond at their beginnings. -/
theorem lanes_start : (returnless grammar.source.toList).Lanes
    (Lane.start (Scanner.ofText grammar.vocabulary grammar.source 0))
    (Lane.start (Scanner.ofText grammar.vocabulary grammar.withoutReturns.source 0)) := by
  rw [scanner_without_returns]
  exact .inl ⟨not_open_returnless, ⟨within_returnless grammar, forall_mem_nil _⟩, rfl⟩

end Grammar

/-! ### Texts of hooks -/

/-- No carriage return stands directly behind a quote or a backslash. -/
def ReturnsApart (chars : List Char) : Prop :=
  chars.IsChain fun char next => next = '\r' → char ≠ '"' ∧ char ≠ '\\'

instance (chars : List Char) : Decidable (ReturnsApart chars) :=
  inferInstanceAs (Decidable (chars.IsChain _))

theorem decode_body_without_returns (content : List Placed)
    (apart : ReturnsApart (Placed.chars content)) :
    decodeBody (content.filter fun placed => placed.char ≠ '\r') = decodeBody content := by
  fun_induction decodeBody content with
  | case1 => rfl
  | case2 first rest returns ih =>
    rw [filter_cons_of_neg (by simpa using returns)]
    exact ih apart.tail
  | case3 first plain escape =>
    rw [List.filter_cons_of_pos (by simpa using plain), filter_nil, decodeBody, if_neg plain,
      if_pos escape]
  | case4 first plain escape letter rest _ escaped ih
  | case5 first plain escape letter rest escaped ih =>
    have inside : letter.char ≠ '\r' := fun returns => (apart.rel returns).2 escape
    rw [List.filter_cons_of_pos (by simpa using plain),
      List.filter_cons_of_pos (by simpa using inside), decodeBody,
      if_neg plain, if_pos escape, ← ih apart.tail.tail]
    simp only [escaped]
  | case6 first rest plain ordinary ih =>
    rw [List.filter_cons_of_pos (by simpa using plain), decode_body_plain plain ordinary,
      ih apart.tail]

/-- The characters of a string without the quote that closes it. -/
def unquoted (chars : List Char) : List Char :=
  if chars.getLast? = some '"' then chars.dropLast else chars

theorem unquoted_append (chars : List Char) :
    ∃ tail, chars = unquoted chars ++ tail ∧ (tail = [] ∨ tail = ['"']) := by
  unfold unquoted
  split
  · rename_i closed
    obtain ⟨inside, rfl⟩ := getLast?_eq_some_iff.mp closed
    exact ⟨['"'], by simp, .inr rfl⟩
  · exact ⟨[], (append_nil _).symm, .inl rfl⟩

theorem last_without_returns (apart : ReturnsApart chars) :
    (withoutReturns chars).getLast? = some '"' ↔ chars.getLast? = some '"' := by
  constructor
  · intro closed
    obtain ⟨inside, split⟩ := getLast?_eq_some_iff.mp closed
    obtain ⟨before, after, rfl, -, last⟩ := filter_eq_append_iff.mp split
    obtain ⟨first, rest, rfl, -, -, none⟩ := filter_eq_cons_iff.mp last
    cases rest with
    | nil => simp
    | cons next rest =>
      -- Only carriage returns stand behind the quote, and the first of them directly behind it.
      have returns : next = '\r' := by simpa using filter_eq_nil_iff.mp none next mem_cons_self
      exact absurd rfl (apart.right_of_append.right_of_append.rel returns).1
  · intro closed
    obtain ⟨inside, rfl⟩ := getLast?_eq_some_iff.mp closed
    simp [withoutReturns]

theorem unquoted_without_returns (apart : ReturnsApart chars) :
    unquoted (withoutReturns chars) = withoutReturns (unquoted chars) := by
  unfold unquoted
  by_cases closed : chars.getLast? = some '"'
  · rw [if_pos closed, if_pos ((last_without_returns apart).mpr closed)]
    obtain ⟨inside, rfl⟩ := getLast?_eq_some_iff.mp closed
    rw [without_returns_append]
    simp [withoutReturns]
  · rw [if_neg closed, if_neg (mt (last_without_returns apart).mp closed)]

/-- Characters written one behind the other from an offset on, or none. -/
def Written (chars content : List Char) (start : Nat) : Prop :=
  content = [] ∨ ∃ before after, chars = before ++ (content ++ after) ∧
    start = total Char.utf8Size before

namespace Written

variable {content : List Char} {start : Nat}

variable (written : Written chars content start)

include written

theorem squeeze_stop : squeeze chars (start + total Char.utf8Size content) =
      squeeze chars start + total Char.utf8Size (withoutReturns content) := by
  rcases written with rfl | ⟨before, after, rfl, rfl⟩
  · rfl
  · rw [← total_append, ← append_assoc, squeeze_total, append_assoc, squeeze_total,
      without_returns_append, total_append]

theorem of_list :
    ofList (squeeze chars start) (withoutReturns content) =
      ((ofList start content).filter fun placed => placed.char ≠ '\r').map
        (move (squeeze chars)) := by
  rcases written with rfl | ⟨before, after, rfl, rfl⟩
  · rfl
  · exact of_list_squeeze before content after

theorem of_mem (member : placed ∈ ofList start content) (left : placed.char ≠ '\r') :
    (returnless chars).keeps placed.offset ∧ (returnless chars).ends placed.offset := by
  rcases written with rfl | ⟨before, after, split, rfl⟩
  · cases member
  · exact returnless_of_mem split member left

theorem ends (filled : content ≠ []) :
    (returnless chars).ends (start + total Char.utf8Size content) := by
  rcases written with rfl | ⟨before, after, rfl, rfl⟩
  · exact absurd rfl filled
  · exact ⟨before ++ content, after, (append_assoc ..).symm, (total_append ..).symm⟩

theorem apart (apart : ReturnsApart chars) : ReturnsApart content := by
  rcases written with rfl | ⟨before, after, rfl, rfl⟩
  · exact .nil
  · exact apart.right_of_append.left_of_append

end Written

namespace Expr

variable {grammar : Grammar} {token token' : Token}

theorem hook_raw_of_slice (cut : slice grammar.source ⟨token.span.start + 1, token.span.stop⟩ =
      some (ofList (token.span.start + 1) content)) :
    hookRaw grammar token = ofList (token.span.start + 1) (unquoted content) := by
  have last : (ofList (token.span.start + 1) content).getLast?.map char = content.getLast? := by
    rw [← getLast?_map]
    exact congrArg List.getLast? (chars_ofList _ content)
  rw [hookRaw, cut, Option.getD_some]
  simp only [last, unquoted]
  split
  · exact drop_last_of_list ..
  · rfl

theorem start_without_returns (tokens : (returnless chars).Tokens token token') :
    squeeze chars (token.span.start + 1) = token'.span.start + 1 := by
  rw [tokens.2]
  exact squeeze_succ tokens.1.span.1

variable (apart : ReturnsApart grammar.source.toList)

include apart

/-- The characters between the quotes where the source can be cut behind the first of them. -/
theorem hook_raw_of_cut (tokens : (returnless grammar.source.toList).Tokens token token')
    (split : grammar.source.toList = before ++ (content ++ after))
    (start : token.span.start + 1 = total Char.utf8Size before)
    (stop : token.span.stop = token.span.start + 1 + total Char.utf8Size content)
    (cut : slice grammar.source ⟨token.span.start + 1, token.span.stop⟩ =
      some (ofList (token.span.start + 1) content)) :
    Written grammar.source.toList (unquoted content) (token.span.start + 1) ∧
      hookRaw grammar token = ofList (token.span.start + 1) (unquoted content) ∧
      hookRaw grammar.withoutReturns token' = ofList (token'.span.start + 1)
        (withoutReturns (unquoted content)) ∧
      (returnless grammar.source.toList).keeps
        (token.span.start + 1 + total Char.utf8Size (unquoted content)) := by
  obtain ⟨tail, closed, quote⟩ := unquoted_append content
  have whole : grammar.source.toList = (before ++ unquoted content) ++ (tail ++ after) := by
    rw [split]
    nth_rewrite 1 [closed]
    simp
  have written : Written grammar.source.toList (unquoted content) (token.span.start + 1) :=
    .inr ⟨before, tail ++ after, by rw [whole, append_assoc], start⟩
  refine ⟨written, hook_raw_of_slice cut, ?_, ?_⟩
  · have moved : token'.span = token.span.move (squeeze grammar.source.toList) := by
      rw [tokens.2]; rfl
    have succ := start_without_returns tokens
    have begins : token'.span.start + 1 = total Char.utf8Size (withoutReturns before) := by
      rw [← succ, start, split, squeeze_total]
    have ends : token'.span.stop =
        total Char.utf8Size (withoutReturns before) + total Char.utf8Size
          (withoutReturns content) := by
      have here : Written grammar.source.toList content (token.span.start + 1) :=
        .inr ⟨before, after, split, start⟩
      rw [moved, ← begins, ← succ, ← here.squeeze_stop, ← stop]
      rfl
    have split' : grammar.withoutReturns.source.toList =
        withoutReturns before ++ (withoutReturns content ++ withoutReturns after) := by
      rw [Grammar.source_without_returns, split, without_returns_append, without_returns_append]
    have cut' := slice_of_append split'
    rw [← ends, ← begins] at cut'
    have inside : ReturnsApart content := by
      rw [split] at apart
      exact apart.right_of_append.left_of_append
    rw [hook_raw_of_slice cut', unquoted_without_returns inside]
  · rcases quote with rfl | rfl
    · rw [append_nil] at closed
      rw [← closed, ← stop]
      exact tokens.1.span.2
    · change ¬ IsReturn _ _
      rw [start, ← total_append, whole]
      intro returns
      cases (is_return_iff _ _).mp returns

theorem hook_raw_without_returns (tokens : (returnless grammar.source.toList).Tokens token token')
    (text : token.text ≠ "") :
    ∃ content, Written grammar.source.toList content (token.span.start + 1) ∧
      hookRaw grammar token = ofList (token.span.start + 1) content ∧
      hookRaw grammar.withoutReturns token' = ofList (token'.span.start + 1)
        (withoutReturns content) ∧
      (returnless grammar.source.toList).keeps
        (token.span.start + 1 + total Char.utf8Size content) := by
  have wide : token.span.start + 1 ≤ token.span.stop := by
    by_contra empty
    exact text (tokens.1.wide (decide_eq_true (by omega))).1
  cases cut : slice grammar.source ⟨token.span.start + 1, token.span.stop⟩ with
  | some raw =>
    obtain ⟨before, content, after, split, start, stop, rfl⟩ := slice_eq_some cut
    exact ⟨unquoted content, hook_raw_of_cut apart tokens split start stop cut⟩
  | none =>
    -- The source cannot be cut inside a character, with or without carriage returns.
    have inside : ¬ Cut grammar.source.toList (token.span.start + 1) := fun here =>
      (slice_ne_none wide).mpr ⟨here, tokens.1.whole text⟩ cut
    have kept : ¬ IsReturn grammar.source.toList (token.span.start + 1) := fun returns =>
      inside (cut_of_is_return returns)
    have succ := start_without_returns tokens
    have wide' : token'.span.start + 1 ≤ token'.span.stop := by
      rw [← succ, tokens.2]
      exact Nat.count_monotone _ wide
    have cut' : slice grammar.withoutReturns.source ⟨token'.span.start + 1, token'.span.stop⟩ =
      none := by
      by_contra whole
      have here := ((slice_ne_none wide').mp whole).1
      rw [Grammar.source_without_returns, ← succ] at here
      exact inside (cut_of_squeeze kept here)
    refine ⟨[], .inl rfl, ?_, ?_, kept⟩
    · rw [hookRaw, cut]
      rfl
    · rw [hookRaw, cut']
      rfl

theorem hook_text_without_returns (tokens : (returnless grammar.source.toList).Tokens token token')
    (is_string : token.kind = .string) (text : token.text ≠ "") :
    (returnless grammar.source.toList).inside.Lanes (Lane.start (hookText grammar token))
      (Lane.start (hookText grammar.withoutReturns token')) := by
  obtain ⟨content, written, raw, raw', stop⟩ := hook_raw_without_returns apart tokens text
  have succ := start_without_returns tokens
  have ordered := (weight_hook_text grammar token is_string).1
  have decoded : decodeBody (ofList (token'.span.start + 1) (withoutReturns content)) =
      (decodeBody (ofList (token.span.start + 1) content)).map
        (move (squeeze grammar.source.toList)) := by
    have inside : ReturnsApart (Placed.chars (ofList (token.span.start + 1) content)) := by
      rw [chars_ofList]
      exact written.apart apart
    rw [← succ, written.of_list, decode_body_move, decode_body_without_returns _ inside]
  have ends := written.squeeze_stop
  rw [succ] at ends
  rw [hook_text_eq, raw, size_of_list] at ordered ⊢
  rw [hook_text_eq, raw', size_of_list, decoded, ← ends]
  refine .inl ⟨Link.not_open_inside,
    ⟨⟨rfl, ordered, fun placed member => ?_, stop, fun filled => ?_, nofun,
    forall_mem_nil _⟩, forall_mem_nil _⟩, rfl⟩
  · obtain ⟨other, inside, same, left⟩ := mem_decode_body member
    rw [← same]
    exact written.of_mem inside left
  · refine written.ends fun none => filled ?_
    rw [none]
    rfl

end Expr

/-! ### Scripts -/

namespace Grammar

variable {grammar : Grammar}

/-- Hooks apart, and where no carriage return stands behind a quote or a backslash, the same things
are read. -/
theorem shares_without_returns
    (harmless : (∀ name index, grammar.isHookArgument name index = false) ∨
      ReturnsApart grammar.source.toList) :
    (returnless grammar.source.toList).Shares grammar grammar.withoutReturns where
  calls := rfl
  hooks := rfl
  texts name index hooked token token' tokens is_string text := by
    rcases harmless with none | apart
    · cases (none name index).symm.trans hooked
    · exact Expr.hook_text_without_returns apart tokens is_string text
  border is_open := absurd is_open not_open_returnless

/-- Carriage returns make no difference, unless one stands directly behind a quote or a backslash
and there are hooks: the same scripts are read, and the same faults are found in the same order. -/
theorem scripts_without_returns (grammar : Grammar)
    (harmless : (∀ name index, grammar.isHookArgument name index = false) ∨
      ReturnsApart grammar.source.toList) :
    grammar.withoutReturns.scripts.1.map Script.unplaced = grammar.scripts.1.map Script.unplaced ∧
      grammar.withoutReturns.scripts.2.map Diagnostic.fault =
      grammar.scripts.2.map Diagnostic.fault := by
  obtain ⟨scripts, faults⟩ :=
    scripts_alike not_open_returnless (shares_without_returns harmless) (lanes_start grammar)
  refine ⟨scripts, ?_⟩
  rw [faults, List.map_map]
  rfl

/-- A table with one command, whose argument is a hook. -/
def hookTable : SymbolTable := { SymbolTable.empty with
  top := { Layer.empty with commands := [⟨"hook", 0, [.hook], Ty.void, false⟩] } }

/-- Lines may end in a carriage return and a line feed. -/
theorem scripts_of_crlf_lines :
    ReturnsApart "[proc,f]()\r\nhook(\r\n\"g()\");\r\n".toList ∧
      (ofTables "[proc,f]()\r\nhook(\r\n\"g()\");\r\n" .builtin
        hookTable).withoutReturns.scripts.1.map
          Script.unplaced =
        (ofTables "[proc,f]()\r\nhook(\r\n\"g()\");\r\n" .builtin hookTable).scripts.1.map
          Script.unplaced :=
  ⟨by decide +kernel, (scripts_without_returns
    (ofTables "[proc,f]()\r\nhook(\r\n\"g()\");\r\n" .builtin hookTable)
    (.inr (by decide +kernel))).1⟩

/-- The range of a string goes up to the next character, so that a carriage return behind the
closing quote keeps the quote in the text of the hook. -/
theorem return_behind_hook :
    (ofTables "[proc,f]()\nhook(\"g()\"\r\n);" .builtin hookTable).scripts.1.length = 0 ∧
      (ofTables "[proc,f]()\nhook(\"g()\"\r\n);" .builtin
        hookTable).withoutReturns.scripts.1.length = 1 := by
  decide +kernel

end Grammar

end TriggerScript
