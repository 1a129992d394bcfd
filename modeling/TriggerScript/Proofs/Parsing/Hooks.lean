import TriggerScript.Proofs.Token.Relocation
import TriggerScript.Script.Expression

/-!
Texts of hooks.

A slice of a source is a stretch of its characters, written one behind the other (`slice_eq_some`).
The text of a hook is such a stretch with its escapes resolved, so that its characters are in order
and it is shorter than the string that it was written in (`weight_hook_text`).
-/

namespace TriggerScript

open List Placed

variable {source : String} {span : Span} {offset : Nat} {content raw : List Placed}
  {chars : List Char}

/-! ### Stretches of a source -/

namespace Placed

theorem split_of_mem (member : placed ∈ ofList offset chars) :
    ∃ before after, chars = before ++ placed.char :: after ∧
      placed.offset = offset + total Char.utf8Size before := by
  induction chars generalizing offset with
  | nil => cases member
  | cons char rest ih =>
    rcases mem_cons.mp member with rfl | later
    · exact ⟨[], rest, rfl, rfl⟩
    · obtain ⟨before, after, split, place⟩ := ih later
      refine ⟨char :: before, after, by rw [split, cons_append], ?_⟩
      rw [place, total_cons, Nat.add_assoc]

theorem size_of_list (offset : Nat) (chars : List Char) :
    total (fun placed => placed.char.utf8Size)
    (ofList offset chars) = total Char.utf8Size chars := by
  induction chars generalizing offset with
  | nil => rfl
  | cons char rest ih => rw [ofList, total_cons, total_cons, ih]

theorem drop_last_of_list (offset : Nat) (chars : List Char) :
    (ofList offset chars).dropLast = ofList offset chars.dropLast := by
  induction chars generalizing offset with
  | nil => rfl
  | cons char rest ih =>
    cases rest with
    | nil => rfl
    | cons next rest =>
      rw [ofList, dropLast_cons_cons, ofList]
      exact congrArg _ (ih _)

end Placed

theorem total_pos (filled : chars ≠ []) : 0 < total Char.utf8Size chars := by
  cases chars with
  | nil => exact absurd rfl filled
  | cons char rest =>
    rw [total_cons]
    have := char.utf8Size_pos
    omega

theorem total_sublist {α : Type} (measure : α → Nat) {kept whole : List α}
    (sublist : kept.Sublist whole) : total measure kept ≤ total measure whole := by
  induction sublist with
  | slnil => exact le_rfl
  | cons item _ ih => exact Nat.le_trans ih (Nat.le_add_left ..)
  | cons_cons item _ ih => exact Nat.add_le_add_left ih _

/-- An offset between two characters. -/
def Cut (chars : List Char) (offset : Nat) : Prop :=
  ∃ before after, chars = before ++ after ∧ offset = total Char.utf8Size before

theorem boundary_iff_cut :
    (offset == source.utf8ByteSize ||
      (ofText source).any (fun placed => placed.offset == offset)) = true ↔
      Cut source.toList offset := by
  rw [Bool.or_eq_true_iff, any_eq_true, beq_iff_eq, utf8_size_eq]
  constructor
  · rintro (finish | ⟨placed, member, here⟩)
    · exact ⟨source.toList, [], (append_nil _).symm, finish⟩
    · obtain ⟨before, after, split, place⟩ := split_of_mem member
      refine ⟨before, placed.char :: after, split, ?_⟩
      rw [← beq_iff_eq.mp here, place, Nat.zero_add]
  · rintro ⟨before, after, split, here⟩
    cases after with
    | nil => exact .inl (by rw [here, split, append_nil])
    | cons char after =>
      refine .inr ⟨⟨offset, char⟩, ?_, beq_self_eq_true offset⟩
      rw [ofText, split, of_list_append, Nat.zero_add, ← here]
      exact mem_append_right _ mem_cons_self

/-- Of two places to cut a source, the characters before the first stand before the second. -/
theorem append_of_total_le {before after first rest : List Char}
    (same : first ++ rest = before ++ after)
    (le : total Char.utf8Size first ≤ total Char.utf8Size before) :
    ∃ content, before = first ++ content ∧ rest = content ++ after := by
  rcases append_eq_append_iff.mp same with ⟨content, split, tail⟩ | ⟨content, split, tail⟩
  · exact ⟨content, split, tail⟩
  · have empty : content = [] := by
      by_contra filled
      have := total_pos filled
      rw [split, total_append] at le
      omega
    subst empty
    exact ⟨[], by simpa using split.symm, by simpa using tail.symm⟩

theorem slice_of_append {before after : List Char}
    (split : source.toList = before ++ (chars ++ after)) :
    slice source ⟨total Char.utf8Size before,
      total Char.utf8Size before + total Char.utf8Size chars⟩ =
      some (Placed.ofList (total Char.utf8Size before) chars) := by
  have starts : Cut source.toList (total Char.utf8Size before) := ⟨before, _, split, rfl⟩
  have stops : Cut source.toList (total Char.utf8Size before + total Char.utf8Size chars) :=
    ⟨before ++ chars, after, by rw [split, append_assoc], (total_append ..).symm⟩
  unfold slice
  simp only
  rw [if_pos (by rw [boundary_iff_cut.mpr starts, boundary_iff_cut.mpr stops]; simp),
    Option.some.injEq, ofText, split, of_list_append, of_list_append, Nat.zero_add, filter_append,
    filter_append]
  have first := (ordered_of_list 0 before).1.bounded
  have inside := ordered_of_list (total Char.utf8Size before) chars
  have last := (ordered_of_list (total Char.utf8Size before + total Char.utf8Size chars) after).2
  rw [filter_eq_nil_iff.mpr, filter_eq_self.mpr, filter_eq_nil_iff.mpr, append_nil, nil_append]
  · intro placed member
    have := last placed member
    simp only [Bool.and_eq_true, decide_eq_true_eq]
    omega
  · intro placed member
    have := inside.1.bounded placed member
    have := inside.2 placed member
    simp only [Bool.and_eq_true, decide_eq_true_eq]
    omega
  · intro placed member
    have := first placed member
    simp only [Bool.and_eq_true, decide_eq_true_eq]
    omega

/-- A range is cut out of a source if both of its ends fall between characters. -/
theorem slice_ne_none (le : start ≤ stop) :
    slice source ⟨start, stop⟩ ≠ none ↔ Cut source.toList start ∧ Cut source.toList stop := by
  unfold slice
  simp only [decide_eq_true le, Bool.true_and]
  rw [← boundary_iff_cut, ← boundary_iff_cut, ← Bool.and_eq_true]
  split
  · rename_i cut
    exact ⟨fun _ => cut, fun _ => nofun⟩
  · rename_i whole
    exact ⟨fun some_cut => absurd rfl some_cut, fun cut => absurd cut whole⟩

theorem slice_eq_some (cut : slice source span = some raw) :
    ∃ before content after, source.toList = before ++ (content ++ after) ∧
      span.start = total Char.utf8Size before ∧
      span.stop = span.start + total Char.utf8Size content ∧
      raw = Placed.ofList span.start content := by
  have le : span.start ≤ span.stop := by
    by_contra crossed
    unfold slice at cut
    simp [crossed] at cut
  have whole : slice source span ≠ none := cut ▸ nofun
  obtain ⟨⟨before, rest, split, start⟩, until_stop, after, split', stop⟩ :=
    (slice_ne_none le).mp whole
  rw [start, stop] at le
  obtain ⟨content, rfl, rfl⟩ := append_of_total_le (split.symm.trans split') le
  rw [total_append, ← start] at stop
  have known := slice_of_append split
  rw [← start, ← stop] at known
  exact ⟨before, content, after, split, start, stop, Option.some.inj (cut.symm.trans known)⟩

/-! ### Escapes -/

theorem decode_body_return {first : Placed} (returns : first.char = '\r') :
    decodeBody (first :: rest) = decodeBody rest := by
  rw [decodeBody.eq_def]
  exact if_pos returns

theorem decode_body_plain {first : Placed} (plain : first.char ≠ '\r')
    (ordinary : first.char ≠ '\\') : decodeBody (first :: rest) = first :: decodeBody rest := by
  rw [decodeBody.eq_def]
  exact (if_neg plain).trans (if_neg ordinary)

theorem decode_body_move (move : Nat → Nat) (content : List Placed) :
    decodeBody (content.map (Placed.move move)) = (decodeBody content).map (Placed.move move) := by
  fun_induction decodeBody content with
  | case1 => rfl
  | case2 first rest returns ih =>
    rw [map_cons, decode_body_return (by exact returns), ih]
  | case3 first plain escape =>
    rw [map_cons, map_nil, decodeBody, if_neg (by exact plain), if_pos (by exact escape)]
  | case4 first plain escape letter rest char known ih =>
    rw [map_cons, map_cons, decodeBody, if_neg (by exact plain), if_pos (by exact escape),
      map_cons, ← ih]
    simp only [Placed.move, known]
  | case5 first plain escape letter rest unknown ih =>
    rw [map_cons, map_cons, decodeBody, if_neg (by exact plain), if_pos (by exact escape), ← ih]
    simp only [Placed.move, unknown]
  | case6 first rest plain ordinary ih =>
    rw [map_cons, decode_body_plain (by exact plain) (by exact ordinary), map_cons, ih]

/-- Every character stands where one was written that is no carriage return. -/
theorem offsets_decode_body (content : List Placed) :
    ((decodeBody content).map Placed.offset).Sublist
    ((content.filter fun placed => placed.char ≠ '\r').map Placed.offset) := by
  fun_induction decodeBody content with
  | case1 => exact .slnil
  | case2 first rest returns ih => rwa [filter_cons_of_neg (by simpa using returns)]
  | case3 first _ escape => exact nil_sublist _
  | case4 first plain escape letter rest char known ih =>
    rw [List.filter_cons_of_pos (by simpa using plain)]
    exact .cons_cons _ (ih.trans (((sublist_cons_self letter rest).filter _).map _))
  | case5 first plain escape letter rest unknown ih =>
    exact ih.trans ((((sublist_cons_self letter rest).cons first).filter _).map _)
  | case6 first rest plain ordinary ih =>
    rw [List.filter_cons_of_pos (by simpa using plain)]
    exact .cons_cons _ ih

theorem mem_decode_body {placed : Placed} (member : placed ∈ decodeBody content) :
    ∃ other ∈ content, other.offset = placed.offset ∧ other.char ≠ '\r' := by
  obtain ⟨other, kept, same⟩ :=
    mem_map.mp ((offsets_decode_body content).subset (mem_map_of_mem member))
  obtain ⟨inside, plain⟩ := mem_filter.mp kept
  exact ⟨other, inside, same, by simpa using plain⟩

theorem Placed.Ordered.decode_body (ordered : Ordered stop content) :
    Ordered stop (decodeBody content) := by
  constructor
  · have rising : (content.map Placed.offset).Pairwise (· < ·) := pairwise_map.mpr ordered.rising
    exact pairwise_map.mp
      (rising.sublist ((offsets_decode_body content).trans (filter_sublist.map _)))
  · intro placed member
    obtain ⟨other, inside, same, -⟩ := mem_decode_body member
    rw [← same]
    exact ordered.bounded other inside

/-! ### The text of a hook -/

namespace Expr

variable (grammar : Grammar) (token : Token)

/-- The characters between the quotes, escapes not resolved. -/
def hookRaw : List Placed :=
  let raw := (slice grammar.source ⟨token.span.start + 1, token.span.stop⟩).getD []
  if (raw.getLast?.map Placed.char) = some '"' then raw.dropLast else raw

theorem hook_raw_eq : ∃ chars, hookRaw grammar token = Placed.ofList (token.span.start + 1) chars ∧
    total Char.utf8Size chars ≤ token.span.length - 1 := by
  have stretch : ∃ chars, (slice grammar.source ⟨token.span.start + 1, token.span.stop⟩).getD [] =
      Placed.ofList (token.span.start + 1) chars ∧
      total Char.utf8Size chars ≤ token.span.length - 1 := by
    cases cut : slice grammar.source ⟨token.span.start + 1, token.span.stop⟩ with
    | none => exact ⟨[], rfl, Nat.zero_le _⟩
    | some raw =>
      obtain ⟨before, content, after, -, -, stop, rfl⟩ := slice_eq_some cut
      refine ⟨content, rfl, ?_⟩
      dsimp only at stop
      rw [Span.length]
      omega
  obtain ⟨chars, same, short⟩ := stretch
  unfold hookRaw
  rw [same]
  simp only
  split
  · refine ⟨chars.dropLast, drop_last_of_list _ _, Nat.le_trans ?_ short⟩
    exact total_sublist _ (dropLast_sublist _)
  · exact ⟨chars, rfl, short⟩

theorem hook_text_eq :
    hookText grammar token = Scanner.ofPlaced grammar.vocabulary
      (decodeBody (hookRaw grammar token))
    (token.span.start + 1 + total (fun placed => placed.char.utf8Size) (hookRaw grammar token)) :=
  rfl

/-- The text of a hook is in order and lighter than the string that it was written in. -/
theorem weight_hook_text (is_string : token.kind = .string) :
    (hookText grammar token).Ordered ∧ (hookText grammar token).weight < token.weight := by
  obtain ⟨chars, raw, short⟩ := hook_raw_eq grammar token
  have stretch := ordered_of_list (token.span.start + 1) chars
  rw [hook_text_eq, raw, size_of_list]
  have ordered := stretch.1.decode_body
  refine ⟨ordered, ?_⟩
  have behind : token.span.start + 1 ≤ offsetOr (token.span.start + 1 + total Char.utf8Size chars)
      (decodeBody (Placed.ofList (token.span.start + 1) chars)) := by
    cases first : decodeBody (Placed.ofList (token.span.start + 1) chars) with
    | nil => exact Nat.le_add_right ..
    | cons placed rest =>
      obtain ⟨other, inside, same, -⟩ := mem_decode_body (first ▸ mem_cons_self)
      exact Nat.le_trans (stretch.2 other inside) (Nat.le_of_eq same)
  simp only [Scanner.weight, Scanner.ofPlaced, Option.map_none, Option.getD_none, Token.weight,
    is_string]
  omega

end Expr

end TriggerScript
