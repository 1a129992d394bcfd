import TriggerScript.Proofs.Token.Ending
import TriggerScript.Proofs.Token.Spans

/-!
Strings are decoded in two ways.

The scanner resolves escapes while it looks for the end of a string. The body of a string whose ends
are known is decoded on its own, and each character keeps its place. Both give the same characters,
and what is read from them does not depend on where they stand.
-/

namespace TriggerScript

open List Placed Scanner

/-- What decoded characters are written with: a character stands for itself, and an escape for the
character that it denotes, at the place of its backslash. -/
inductive Decodes : List Placed → List Placed → Prop
  | nil : Decodes [] []
  | plain : first.char ≠ '\\' → Decodes raw decoded → Decodes (first :: raw) (first :: decoded)
  | escape : slash.char = '\\' → unescape? letter.char = some meant → Decodes raw decoded →
      Decodes (slash :: letter :: raw) (⟨slash.offset, meant⟩ :: decoded)

theorem Decodes.offsets (decodes : Decodes raw decoded) : decoded.map offset <+ raw.map offset := by
  induction decodes with
  | nil => exact .slnil
  | plain _ _ ih => exact ih.cons_cons _
  | escape _ _ _ ih => exact (ih.cons _).cons_cons _

theorem Decodes.unreturned (decodes : Decodes raw decoded) (unreturned : '\r' ∉ chars raw) :
    '\r' ∉ chars decoded := by
  have denoted : ∀ {letter}, unescape? letter ≠ some '\r' := by
    intro letter
    unfold unescape?
    split <;> decide
  induction decodes with
  | nil => exact unreturned
  | plain _ _ ih => simp_all [chars]
  | @escape _ letter meant _ _ _ known _ ih =>
    simp only [chars, map_cons, mem_cons, not_or] at unreturned ⊢
    exact ⟨fun same => denoted (same ▸ known), ih unreturned.2.2⟩

/-- A closed literal ends at a quote. Up to there both ways to resolve escapes give the same. -/
theorem Literal.split_of_closed {stop : Nat} {content : List Placed}
    (unreturned : '\r' ∉ chars content) (closed : (read stop content).ending = .closed) :
    ∃ raw quote, content = raw ++ quote :: (read stop content).rest ∧
      quote.char = '"' ∧ chars (decodeBody raw) = (read stop content).content ∧
      ((read stop content).invalid = [] → Decodes raw (decodeBody raw)) := by
  fun_induction read stop content with
  | case1 | case2 | case4 | case5 => cases closed
  | case3 first rest _ quoted => exact ⟨[], first, rfl, quoted, rfl, fun _ => .nil⟩
  | case6 first _ _ _ slash letter rest char escape ih =>
    simp only [chars, map_cons, mem_cons, not_or] at unreturned
    obtain ⟨raw, quote, split, quoted, decoded, valid⟩ := ih unreturned.2.2 closed
    have step : decodeBody (first :: letter :: raw) = ⟨first.offset, char⟩ :: decodeBody raw := by
      simp [decodeBody, slash, escape]
    refine ⟨first :: letter :: raw, quote, congrArg (first :: letter :: ·) split, quoted, ?_,
      fun clean => ?_⟩
    · simp [step, push, ← decoded, chars]
    · exact step ▸ .escape slash escape (valid clean)
  | case7 first _ _ _ slash letter rest escape ih =>
    simp only [chars, map_cons, mem_cons, not_or] at unreturned
    obtain ⟨raw, quote, split, quoted, decoded, -⟩ := ih unreturned.2.2 closed
    refine ⟨first :: letter :: raw, quote, congrArg (first :: letter :: ·) split, quoted, ?_,
      by simp [note]⟩
    simp [decodeBody, slash, escape, note, ← decoded]
  | case8 first rest _ _ _ plain ih =>
    simp only [chars, map_cons, mem_cons, not_or] at unreturned
    obtain ⟨raw, quote, split, quoted, decoded, valid⟩ := ih unreturned.2 closed
    have step : decodeBody (first :: raw) = first :: decodeBody raw := by
      rw [decodeBody.eq_def]
      simp [plain, Ne.symm unreturned.1]
    refine ⟨first :: raw, quote, congrArg (first :: ·) split, quoted, ?_, fun clean => ?_⟩
    · simp [step, push, ← decoded, chars]
    · exact step ▸ .plain plain (valid clean)

namespace Scanner

variable {vocabulary : Vocabulary} {scanner : Scanner} {source : String} {content : List Placed}
  {count offset : Nat}

/-- Every scanner of a text has the end of it ahead. -/
theorem following_suffix (unreturned : '\r' ∉ source.toList) (vocabulary : Vocabulary)
    (count : Nat) :
    ∃ scanner, (ofText vocabulary source 0).following count = scanner ∧ scanner.Ordered ∧
      scanner.Sited ∧
      scanner.rest <:+ Placed.ofText source ∧ scanner.stop = source.utf8ByteSize ∧
      scanner.base = 0 := by
  induction count with
  | zero =>
    exact ⟨_, rfl, (within_of_text vocabulary source).ordered, nofun,
      rest_of_unreturned unreturned vocabulary 0 ▸ suffix_rfl, rfl, rfl⟩
  | succ count ih =>
    obtain ⟨scanner, same, ordered, sited, suffix, stop, base⟩ := ih
    have stands := stands_next ordered sited
    exact ⟨scanner.next.2, congrArg (fun scanner => scanner.next.2) same, (weight_next ordered).1,
      stands.sited, stands.rest.trans suffix, stands.stop.trans stop, stands.base.trans base⟩

/-- A closed string of a text, its body between the quotes. -/
structure Quotes (source : String) (content : List Placed) (token : Token)
    (before raw behind : List Char) : Prop where
  source : source.toList = before ++ ['"'] ++ (raw ++ ['"'] ++ behind)
  content : content = ofList (total Char.utf8Size (before ++ ['"'])) (raw ++ ['"'] ++ behind)
  token : token =
    ⟨.string, ⟨total Char.utf8Size before, total Char.utf8Size (before ++ ['"'] ++ (raw ++ ['"']))⟩,
    some (String.ofList (chars (decodeBody (ofList (total Char.utf8Size (before ++ ['"'])) raw))))⟩

theorem total_quote (before : List Char) :
    total Char.utf8Size (before ++ ['"']) = total Char.utf8Size before + 1 :=
  total_append ..

theorem scan_quote (kept : scanner.pending = none)
    (ahead : (scanner.rest.dropWhile fun placed => isBlank placed.char) =
      ⟨offset, '"'⟩ :: content) :
    scanner.scan = scanner.string false offset content := by
  rw [scan, kept]
  simp only [ahead]
  rfl

theorem quotes_of_closed (unreturned : '\r' ∉ source.toList)
    (reached : (ofText vocabulary source 0).following count = scanner)
    (kept : scanner.pending = none)
    (ahead : (scanner.rest.dropWhile fun placed => isBlank placed.char) = ⟨offset, '"'⟩ :: content)
    (closed : (Literal.read scanner.stop content).ending = .closed) :
    ∃ before raw behind, Quotes source content scanner.next.1 before raw behind ∧
      ((Literal.read scanner.stop content).invalid = [] →
        Decodes (ofList (total Char.utf8Size (before ++ ['"'])) raw)
          (decodeBody (ofList (total Char.utf8Size (before ++ ['"'])) raw))) := by
  obtain ⟨_, same, -, -, suffix, stop, base⟩ := following_suffix unreturned vocabulary count
  obtain rfl := reached.symm.trans same
  have inside : ⟨offset, '"'⟩ :: content <:+ Placed.ofText source := by
    rw [← ahead]
    exact (dropWhile_suffix _).trans suffix
  rw [stop] at closed ⊢
  obtain ⟨before, whole, placed⟩ := of_list_of_suffix inside
  obtain ⟨first, placed⟩ := List.cons.inj placed
  obtain rfl : offset = total Char.utf8Size before := congrArg Placed.offset first
  change content = ofList (total Char.utf8Size before + 1) (chars content) at placed
  obtain ⟨raw, quote, split, quoted, decoded, valid⟩ := Literal.split_of_closed
    (fun member => unreturned (whole ▸ mem_append_right _ (mem_cons_of_mem _ member))) closed
  have later :=
    (Literal.suffix_read source.utf8ByteSize content).trans ((suffix_cons ..).trans inside)
  have scanned :
    scanner.next.1 = ⟨.string, ⟨total Char.utf8Size before, offsetOr source.utf8ByteSize
      (Literal.read source.utf8ByteSize content).rest⟩,
      some (String.ofList (chars (decodeBody raw)))⟩ := by
    rw [Scanner.next, scan_quote kept ahead, Scanner.string, decoded]
    simp [stop, closed, spanTo, base, Span.shift]
  generalize (Literal.read source.utf8ByteSize content).rest = behind at split later scanned
  obtain ⟨front, parts, stops⟩ := place_of_suffix later
  have text : chars content = chars raw ++ ['"'] ++ chars behind := by simp [split, chars, quoted]
  rw [← total_quote, text] at placed
  have raw_eq : raw = ofList (total Char.utf8Size (before ++ ['"'])) (chars raw) := by
    rw [append_assoc, of_list_append] at placed
    exact (append_inj (split.symm.trans placed)
      ((length_map char).symm.trans ((congrArg List.length (chars_ofList ..).symm).trans
        (length_map char)))).1
  have source_eq : source.toList = before ++ ['"'] ++ (chars raw ++ ['"'] ++ chars behind) :=
    (whole.trans (congrArg (before ++ '"' :: ·) text)).trans (append_assoc before ['"'] _).symm
  have front_eq : front = before ++ ['"'] ++ (chars raw ++ ['"']) :=
    append_cancel_right (parts.symm.trans (source_eq.trans (append_assoc ..).symm))
  refine ⟨before, chars raw, chars behind, ⟨source_eq, placed, ?_⟩, raw_eq ▸ valid⟩
  rw [scanned, ← raw_eq, stops, front_eq]

theorem tokens_move (move : Nat → Nat) (based : scanner.base = 0) :
    (scanner.move move).tokens.1 = scanner.tokens.1.map (Token.move move) := by
  induction scanner using tokens_induction with
  | ends scanner finished =>
    rw [tokens_of_end (by rw [next_move based]; exact finished), next_move based]
    rfl
  | goes_on scanner others unfinished _ ih =>
    rw [tokens_of_token (by rw [next_move based]; exact unfinished), next_move based]
    exact congrArg (_ :: ·) (ih ((congrArg (·.2.1) scanner.settings_next).trans based))

/-- What is read from characters, their places apart. -/
def readings (scanner : Scanner) : List (TokenKind × Option String) :=
  scanner.tokens.1.map fun token => (token.kind, token.lexeme)

theorem readings_of_chars {content other : List Placed} (same : chars content = chars other)
    (stop stop' : Nat) :
    (ofPlaced vocabulary content stop).readings = (ofPlaced vocabulary other stop').readings := by
  have gathered : ∀ content stop, (ofPlaced vocabulary content stop).readings =
      (ofPlaced vocabulary ((chars content).map (Placed.mk 0)) 0).readings := by
    intro content stop
    have moved : ofPlaced vocabulary ((chars content).map (Placed.mk 0)) 0 =
        (ofPlaced vocabulary content stop).move fun _ => 0 := by
      simp [ofPlaced, Scanner.move, chars, Placed.move, Function.comp_def]
    rw [readings, readings, moved, tokens_move _ rfl, map_map]
    rfl
  rw [gathered, gathered other, same]

/-- **Both decoders agree**: a string without interpolations that is read without a fault says what
its body decodes to. Each of these characters keeps its place, and what is read from them is what is
read from the text alone. -/
theorem decoders_agree (unreturned : '\r' ∉ source.toList)
    (reached : (ofText vocabulary source 0).following count = scanner)
    (kept : scanner.pending = none)
    (ahead : (scanner.rest.dropWhile fun placed => isBlank placed.char) = ⟨offset, '"'⟩ :: content)
    (plain : scanner.next.1.kind = .string) (clean : scanner.next.2.faults = scanner.faults) :
    ∃ before raw behind : List Char, source.toList = before ++ ['"'] ++ (raw ++ ['"'] ++ behind) ∧
      content = ofList (total Char.utf8Size (before ++ ['"'])) (raw ++ ['"'] ++ behind) ∧
      let written := ofList (total Char.utf8Size (before ++ ['"'])) raw
      chars (decodeBody written) = scanner.next.1.text.toList ∧
      Decodes written (decodeBody written) ∧ (decodeBody written).Pairwise (·.offset < ·.offset) ∧
      ∀ vocabulary stop, (ofPlaced vocabulary (decodeBody written) stop).readings =
        (ofText vocabulary scanner.next.1.text 0).readings := by
  have dispatched := scan_quote kept ahead
  obtain ⟨whole, valid⟩ := literal_of_clean (dispatched ▸ (faults_next_eq scanner).symm.trans clean)
  have closed : (Literal.read scanner.stop content).ending = .closed := by
    change scanner.scan.1.kind = _ at plain
    rw [dispatched, Scanner.string] at plain
    cases ending : (Literal.read scanner.stop content).ending with
    | closed => rfl
    | broken => exact absurd ending whole
    | opened => simp [ending] at plain
  obtain ⟨before, raw, behind, quotes, decodes⟩ :=
    quotes_of_closed unreturned reached kept ahead closed
  have decodes := decodes valid
  have text : chars (decodeBody (ofList (total Char.utf8Size (before ++ ['"'])) raw)) =
    scanner.next.1.text.toList := by
    rw [quotes.token]
    exact String.toList_ofList.symm
  have raw_unreturned : '\r' ∉ raw := fun member => unreturned (quotes.source ▸ by simp [member])
  have bare := decodes.unreturned (by rwa [chars_ofList])
  refine ⟨before, raw, behind, quotes.source, quotes.content, text, decodes, ?_,
    fun vocabulary stop => ?_⟩
  · have rising := (ordered_of_list (total Char.utf8Size (before ++ ['"'])) raw).1.rising
    exact pairwise_map.mp ((pairwise_map.mpr rising).sublist decodes.offsets)
  · refine @readings_of_chars _ _ (ofText vocabulary scanner.next.1.text 0).rest ?_ stop _
    rw [rest_of_text, ← text, filter_eq_self.mpr]
    exact fun char member => decide_eq_true fun same => bare (same ▸ member)

/-- The string `"a\\tb"` is decoded to three characters. -/
theorem tab_decoded : ∃ start raw, Decodes (ofList start raw) (decodeBody (ofList start raw)) ∧
    chars (decodeBody (ofList start raw)) = ['a', '\t', 'b'] := by
  let scanner := ofText .scripts "\"a\\tb\"" 0
  obtain ⟨before, raw, behind, -, -, text, decodes, -⟩ :=
    @decoders_agree .scripts scanner "\"a\\tb\""
    (ofList 1 "a\\tb\"".toList) 0 0 (by decide) rfl rfl (by decide +kernel) (by decide +kernel)
    (by decide +kernel)
  exact ⟨_, raw, decodes, text.trans (by decide +kernel)⟩

end Scanner

end TriggerScript
