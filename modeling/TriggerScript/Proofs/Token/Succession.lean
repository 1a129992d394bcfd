import TriggerScript.Proofs.Token.Extension

/-!
Tokens one after the other.

Where a text ends, reading goes on with what is written behind it as if nothing had been before
(`advance_of_end`): no interpolation is open, and what was read last does not matter unless a sign
follows. So what lies ahead in two texts is what lies ahead in the first, and then what lies ahead
in the second (`token_append`).
-/

namespace TriggerScript

open List Placed

variable {scanner : Scanner}

/-! ### The end of a text -/

/-- No spelling stands for the end of a text. -/
def Vocabulary.Endless (vocabulary : Vocabulary) : Prop :=
  TokenKind.eof ∉ vocabulary.keywords.map Prod.snd ++ vocabulary.separators.map Prod.snd ++
    vocabulary.operators.map Prod.snd

theorem Vocabulary.scripts_endless : Vocabulary.scripts.Endless := by
  unfold Vocabulary.Endless
  decide

theorem Vocabulary.configs_endless : Vocabulary.configs.Endless := by
  unfold Vocabulary.Endless
  decide

namespace Scanner

variable {scanner : Scanner} {first : Placed} {rest tail : List Placed} {stop : Nat}
  {last : TokenKind}
  {other : Scanner} {count : Nat}

/-- Only the end is reported as the end. -/
theorem unfinished_dispatch (endless : scanner.vocabulary.Endless) :
    (scanner.dispatch first rest).1.kind ≠ .eof := by
  intro finished
  rcases finished ▸ kind_dispatch scanner first rest with known | ⟨unread, -⟩
  · rw [wordKinds, append_assoc, mem_append] at known
    exact known.elim endless (by decide)
  · cases unread

/-- Where the end is reported nothing is set aside and nothing but blanks is ahead. -/
theorem scan_of_end (endless : scanner.vocabulary.Endless) (finished : scanner.scan.1.kind = .eof) :
    scanner.pending = none ∧ (scanner.rest.dropWhile fun placed => isBlank placed.char) = [] ∧
      scanner.scan = scanner.finish := by
  unfold scan at finished ⊢
  cases set_aside : scanner.pending with
  | some pending =>
    rw [set_aside] at finished
    cases pending <;> cases finished
  | none =>
    simp only [set_aside] at finished ⊢
    cases ahead : scanner.rest.dropWhile fun placed => isBlank placed.char with
    | nil => simp
    | cons first rest =>
      rw [ahead] at finished
      exact absurd finished (unfinished_dispatch endless)

theorem finish_of_clean (clean : scanner.finish.2.faults = scanner.faults) :
    scanner.depth = 0 ∧ scanner.finish.2 = { scanner with rest := [] } := by
  unfold finish at clean ⊢
  by_cases closed : scanner.depth = 0
  · simp [closed]
  · simp [closed, note] at clean

/-! ### What does not matter -/

/-- What was read last. -/
def behind (last : TokenKind) (scanner : Scanner) : Scanner := { scanner with last }

theorem scan_behind (same : signStartsNumber last = signStartsNumber scanner.last ∨
      signStartsNumber scanner.last = true ∧ ¬IsNumber scanner.scan.1.kind) :
    (scanner.behind last).scan = scanner.scan.map id (Scanner.behind last) := by
  rw [scanner.scan_eq_carry]
  exact scan_carry same

/-- Comments do not count as what was read last. -/
theorem last_next_of_comment (comment : scanner.next.1.kind = .comment) :
    scanner.next.2.last = scanner.last := by
  have kind : scanner.scan.1.kind = .comment := comment
  simp only [next, if_pos kind]
  rw [scan_eq_carry]
  rfl

theorem next_behind (same : signStartsNumber last = signStartsNumber scanner.last ∨
      signStartsNumber scanner.last = true ∧ ¬IsNumber scanner.next.1.kind) :
    (scanner.behind last).next = (scanner.next.1,
      if scanner.next.1.kind = .comment then scanner.next.2.behind last else scanner.next.2) := by
  have scanned := @scan_behind scanner last same
  simp only [next, scanned, Prod.map, id]
  split <;> rfl

theorem advance_behind (starts : signStartsNumber scanner.last = true)
    (other : ¬IsNumber scanner.advance.2.1.kind) :
    (scanner.behind last).advance.2 = scanner.advance.2 := by
  induction scanner using advance_induction with
  | reads scanner token =>
    rw [advance_eq, next_behind (.inr ⟨starts, other⟩)]
    simp only [token, if_false]
  | skips scanner comment ih =>
    rw [advance_eq, next_behind (.inr ⟨starts, by simp [comment, IsNumber]⟩)]
    simp only [comment, if_true]
    exact ih (last_next_of_comment comment ▸ starts) other

/-! ### Going on behind the end -/

/-- The settings of a scanner, which reading does not change. -/
def settings (scanner : Scanner) : Vocabulary × Nat × Nat :=
  (scanner.vocabulary, scanner.base, scanner.limit)

theorem settings_next (scanner : Scanner) : scanner.next.2.settings = scanner.settings := by
  have scanned : scanner.scan.2.settings = scanner.settings := by
    rw [scan_eq_carry]
    rfl
  simp only [next]
  split <;> exact scanned

theorem settings_advance (scanner : Scanner) : scanner.advance.2.2.settings = scanner.settings := by
  induction scanner using advance_induction with
  | reads scanner _ => exact scanner.settings_next
  | skips scanner _ ih => exact ih.trans scanner.settings_next

/-- A scanner that reads another text, nothing being open. -/
def resume (content : List Placed) (stop : Nat) (scanner : Scanner) : Scanner :=
  { scanner with rest := content, stop, depth := 0, pending := none }

theorem resume_eq (settings : other.settings = scanner.settings) (last : other.last = scanner.last)
    (faults : other.faults = scanner.faults) :
    other.resume tail stop = scanner.resume tail stop := by
  obtain ⟨vocabulary, rest, stop, base, depth, limit, pending, last, faults⟩ := scanner
  obtain ⟨vocabulary', rest', stop', base', depth', limit', pending', last', faults'⟩ := other
  simp only [Scanner.settings, Prod.mk.injEq] at settings
  simp_all [resume]

/-- Blanks ahead do not matter. -/
theorem scan_of_blanks {content : List Placed} (kept : scanner.pending = none)
    (same : (content.dropWhile fun placed => isBlank placed.char) =
      scanner.rest.dropWhile fun placed => isBlank placed.char) :
    Scanner.scan { scanner with rest := content } = scanner.scan := by
  obtain ⟨vocabulary, rest, stop, base, depth, limit, pending, last, faults⟩ := scanner
  subst kept
  simp only [scan, same]
  split
  · rfl
  · rename_i first behind _
    have read : ∀ rest, dispatch ⟨vocabulary, rest, stop, base, depth, limit, none, last, faults⟩
      first behind = _ :=
      fun rest => @dispatch_carry ⟨vocabulary, [], stop, base, depth, limit, none, last, faults⟩ _ _
        rest _ _ rfl
    exact (read content).trans (read rest).symm

theorem next_of_end (endless : scanner.vocabulary.Endless) (finished : scanner.next.1.kind = .eof)
    (clean : scanner.next.2.faults = scanner.faults) :
    (scanner.extend tail stop).next = (scanner.resume tail stop).next := by
  obtain ⟨kept, blank, scanned⟩ := scan_of_end endless finished
  have noted : scanner.finish.2.faults = scanner.faults := by
    rw [← scanned, ← faults_next_eq, clean]
  obtain ⟨closed, -⟩ := finish_of_clean noted
  have ahead : (scanner.rest ++ tail).dropWhile (fun placed => isBlank placed.char) =
      tail.dropWhile fun placed => isBlank placed.char := by simp [dropWhile_append, blank]
  have same : scanner.extend tail stop =
    { scanner.resume tail stop with rest := scanner.rest ++ tail } := by
    simp [extend, resume, kept, closed]
  have scan : (scanner.extend tail stop).scan = (scanner.resume tail stop).scan := by
    rw [same]
    exact scan_of_blanks rfl ahead
  rw [next, scan]
  rfl

theorem advance_of_end (endless : scanner.vocabulary.Endless) (lined : Lined scanner.rest)
    (finished : scanner.advance.2.1.kind = .eof)
    (clean : scanner.advance.2.2.faults = scanner.faults) :
    (scanner.extend tail stop).advance.2 = (scanner.resume tail stop).advance.2 := by
  induction scanner using advance_induction with
  | reads scanner token =>
    rw [advance_eq, advance_eq (scanner.resume tail stop), next_of_end endless finished clean]
  | skips scanner comment ih =>
    have settings := scanner.settings_next
    have here := clean_next clean
    obtain ⟨same, left⟩ := @reaches_next scanner tail stop lined (comment ▸ by decide) here
    rw [advance_eq, same, if_pos (by exact comment),
      ← resume_eq settings (last_next_of_comment comment) here]
    have vocabulary : scanner.next.2.vocabulary = scanner.vocabulary := congrArg Prod.fst settings
    exact ih (vocabulary ▸ endless) left finished (clean.trans here.symm)

/-! ### Tokens one after the other -/

/-- The scanner behind a number of tokens, comments apart. -/
def after (scanner : Scanner) (count : Nat) : Scanner :=
  Nat.repeat (fun scanner => scanner.advance.2.2) count scanner

/-- The tokens ahead, comments apart. -/
def token (scanner : Scanner) (count : Nat) : Token := (scanner.after count).advance.2.1

/-- No fault will ever be noted. -/
def Clean (scanner : Scanner) : Prop := ∀ count, (scanner.after count).faults = []

/-- A text in order, with the number of its tokens. -/
structure Holds (scanner : Scanner) (count : Nat) : Prop where
  unfinished : ∀ index < count, (scanner.token index).kind ≠ .eof
  finished : (scanner.token count).kind = .eof
  clean : (scanner.after (count + 1)).faults = []

theorem after_succ (scanner : Scanner) (count : Nat) :
    scanner.after (count + 1) = scanner.advance.2.2.after count := by
  induction count with
  | zero => rfl
  | succ count ih => exact congrArg (fun scanner => scanner.advance.2.2) ih

theorem token_succ (scanner : Scanner) (count : Nat) :
    scanner.token (count + 1) = scanner.advance.2.2.token count := by
  rw [token, after_succ, token]

theorem after_add (scanner : Scanner) (first second : Nat) :
    scanner.after (first + second) = (scanner.after first).after second := by
  induction second with
  | zero => rfl
  | succ second ih => exact congrArg (fun scanner => scanner.advance.2.2) ih

theorem faults_after (scanner : Scanner) (count : Nat) :
    scanner.faults <+: (scanner.after count).faults := by
  induction count with
  | zero => exact prefix_rfl
  | succ count ih => exact ih.trans (faults_advance _)

theorem settings_after (scanner : Scanner) (count : Nat) :
    (scanner.after count).settings = scanner.settings := by
  induction count with
  | zero => rfl
  | succ count ih => exact (settings_advance _).trans ih

theorem Holds.faults {index : Nat} (holds : scanner.Holds count) (inside : index ≤ count + 1) :
    (scanner.after index).faults = [] := by
  have later := (scanner.after index).faults_after (count + 1 - index)
  rw [← after_add, Nat.add_sub_cancel' inside, holds.clean] at later
  exact prefix_nil.mp later

theorem sight_start (scanner : Scanner) : (Lane.start scanner).sight = scanner.token := by
  funext count
  have read : ∀ rounds, (Nat.repeat Lane.readAhead rounds (Lane.start scanner)).scanner =
    scanner.after rounds := by
    intro rounds
    induction rounds with
    | zero => rfl
    | succ rounds ih => exact congrArg (fun scanner => scanner.advance.2.2) ih
  have length := Lane.length_repeat count (Lane.start scanner)
  rw [Lane.sight, Lane.fill]
  have rounds : count + 1 - (Lane.start scanner).ahead.length = count + 1 := rfl
  have held : (Nat.repeat Lane.readAhead count (Lane.start scanner)).ahead.length = count :=
    length.trans (Nat.zero_add _)
  rw [rounds, Nat.repeat, Lane.readAhead, read count, getD_eq_getElem?_getD,
    getElem?_append_right (Nat.le_of_eq held), held, Nat.sub_self]
  rfl

theorem after_of_advance (same : scanner.advance.2 = other.advance.2) :
    scanner.token = other.token ∧ ∀ count, scanner.after (count + 1) = other.after (count + 1) := by
  have later : ∀ count, scanner.after (count + 1) = other.after (count + 1) := fun count => by
    rw [after_succ, after_succ, same]
  refine ⟨funext fun count => ?_, later⟩
  cases count with
  | zero => exact congrArg Prod.fst same
  | succ count => rw [token, token, later]

/-- What is true where the end is read, and of a token if it is true of what follows, is true of all
tokens. -/
theorem tokens_induction {holds : Scanner → List Token × Scanner → Prop}
    (ends : ∀ scanner, scanner.next.1.kind = .eof →
      holds scanner ([scanner.next.1], scanner.next.2))
    (goes_on : ∀ scanner others, scanner.next.1.kind ≠ .eof → scanner.next.2.tokens = others →
      holds scanner.next.2 others → holds scanner (scanner.next.1 :: others.1, others.2))
    (scanner : Scanner) : holds scanner scanner.tokens := by
  fun_induction tokens scanner with
  | case1 scanner token behind read finished =>
    have here := ends scanner (by rwa [read])
    rwa [read] at here
  | case2 scanner token behind read unfinished _ others last later ih =>
    have here := goes_on scanner (others, last) (by rwa [read]) (by rw [read, later])
      (by rwa [read, ← later])
    rwa [read] at here

theorem tokens_eq (scanner : Scanner) :
    ∃ count, (∀ index < count, (scanner.token index).kind ≠ .eof) ∧
    (scanner.token count).kind = .eof ∧ scanner.tokens.2 = scanner.after (count + 1) ∧
    scanner.tokens.1.filter (fun token => token.kind ≠ .comment) =
      (List.range (count + 1)).map scanner.token := by
  induction scanner using tokens_induction with
  | ends scanner finished =>
    have advanced : scanner.advance.2 = scanner.next := by
      rw [advance_eq, if_neg (by rw [finished]; decide)]
    have here : scanner.token 0 = scanner.next.1 := congrArg Prod.fst advanced
    refine ⟨0, nofun, here ▸ finished, (congrArg Prod.snd advanced).symm, ?_⟩
    simp [finished, here]
  | goes_on scanner others unfinished _ ih =>
    obtain ⟨count, before, ending, left, kept⟩ := ih
    by_cases comment : scanner.next.1.kind = .comment
    · have advanced : scanner.advance.2 = scanner.next.2.advance.2 := by
        rw [advance_eq, if_pos comment]
      obtain ⟨same, scanners⟩ := after_of_advance advanced
      rw [same]
      refine ⟨count, before, ending, left.trans (scanners count).symm, ?_⟩
      simpa [comment] using kept
    · have advanced : scanner.advance.2 = scanner.next := by rw [advance_eq, if_neg comment]
      have here : scanner.token 0 = scanner.next.1 := congrArg Prod.fst advanced
      have next : ∀ index, scanner.token (index + 1) = scanner.next.2.token index := fun index => by
        rw [token_succ, advanced]
      refine ⟨count + 1, fun index inside => ?_, (next count).symm ▸ ending, ?_, ?_⟩
      · cases index with
        | zero => exact here ▸ unfinished
        | succ index => exact (next index).symm ▸ before index (Nat.lt_of_succ_lt_succ inside)
      · rw [left, after_succ scanner, advanced]
      · rw [filter_cons_of_pos (by simpa using comment), kept, range_succ_eq_map (n := count + 1)]
        simp [here, next, Function.comp_def]

theorem holds_of_tokens (clean : scanner.tokens.2.faults = []) :
    ∃ count, scanner.Holds count ∧
    scanner.tokens.1.filter (fun token => token.kind ≠ .comment) =
      (List.range (count + 1)).map scanner.token := by
  obtain ⟨count, before, ending, left, kept⟩ := scanner.tokens_eq
  exact ⟨count, ⟨before, ending, left ▸ clean⟩, kept⟩

/-! ### Texts written one behind the other -/

theorem after_extend (lined : Lined scanner.rest) (holds : scanner.Holds count) :
    ∀ index ≤ count, (scanner.extend tail stop).after index =
      (scanner.after index).extend tail stop ∧
      Lined (scanner.after index).rest := by
  intro index inside
  induction index with
  | zero => exact ⟨rfl, lined⟩
  | succ index ih =>
    obtain ⟨same, lined⟩ := ih (Nat.le_of_succ_le inside)
    have clean : (scanner.after index).advance.2.2.faults = (scanner.after index).faults := by
      rw [holds.faults (Nat.le_of_succ_le (Nat.le_succ_of_le inside))]
      exact holds.faults (Nat.le_succ_of_le inside)
    obtain ⟨reached, left⟩ :=
      @reaches_advance _ tail stop lined (holds.unfinished index inside) clean
    refine ⟨?_, left⟩
    have step : (scanner.extend tail stop).after (index + 1) =
        ((scanner.extend tail stop).after index).advance.2.2 := rfl
    rw [step, same, reached]
    rfl

theorem after_of_end (endless : scanner.vocabulary.Endless) (lined : Lined scanner.rest)
    (holds : scanner.Holds count)
    (going : other.settings = scanner.settings ∧ other.depth = 0 ∧ other.pending = none ∧
      other.faults = [])
    (starts : signStartsNumber other.last = true) (unnumbered : ¬IsNumber (other.token 0).kind) :
    (∀ index, (scanner.extend other.rest other.stop).token (count + index) = other.token index) ∧
      ∀ index, (scanner.extend other.rest other.stop).after (count + (index + 1)) =
      other.after (index + 1) := by
  obtain ⟨same, lined⟩ := @after_extend scanner other.rest other.stop _ lined holds count le_rfl
  obtain ⟨settings, closed, kept, clean⟩ := going
  have noted := holds.faults (Nat.le_succ count)
  have resumed : (scanner.after count).resume other.rest other.stop =
    other.behind (scanner.after count).last := by
    have own : other.behind (scanner.after count).last =
        (other.behind (scanner.after count).last).resume other.rest other.stop := by
      simp [resume, behind, closed, kept]
    have alike : (other.behind (scanner.after count).last).resume other.rest other.stop =
        (scanner.after count).resume other.rest other.stop :=
      resume_eq (settings.trans (settings_after scanner count).symm) rfl (clean.trans noted.symm)
    rw [own, alike]
  have vocabulary : (scanner.after count).vocabulary = scanner.vocabulary :=
    congrArg Prod.fst (settings_after scanner count)
  have here : ((scanner.extend other.rest other.stop).after count).advance.2 = other.advance.2 := by
    rw [same, advance_of_end (vocabulary ▸ endless) lined holds.finished
      (holds.clean.trans noted.symm), resumed, advance_behind starts unnumbered]
  obtain ⟨tokens, scanners⟩ := after_of_advance here
  refine ⟨fun index => ?_, fun index => ?_⟩
  · rw [token, after_add, ← tokens]
    rfl
  · rw [after_add, scanners]

end Scanner

theorem Placed.of_list_move (distance offset : Nat) (content : List Char) :
    ofList (distance + offset) content = (ofList offset content).map
      (Placed.move (distance + ·)) := by
  induction content generalizing offset with
  | nil => rfl
  | cons char rest ih =>
    rw [ofList, ofList, map_cons, Nat.add_assoc, ih]
    rfl

theorem Placed.of_text_append (first second : String) :
    ofText (first ++ second) = ofText first ++ (ofText second).map
      (Placed.move (first.utf8ByteSize + ·)) := by
  rw [ofText, String.toList_append, of_list_append, Nat.zero_add, ← utf8_size_eq]
  exact congrArg _ (of_list_move first.utf8ByteSize 0 second.toList)

namespace Scanner

variable {vocabulary : Vocabulary} {first second : String} {count : Nat}

theorem of_text_append (vocabulary : Vocabulary) (first second : String) :
    ofText vocabulary (first ++ second) 0 =
      (ofText vocabulary first 0).extend
        ((ofText vocabulary second 0).move (first.utf8ByteSize + ·)).rest
        ((ofText vocabulary second 0).move (first.utf8ByteSize + ·)).stop := by
  have kept : ((Placed.ofText second).map (Placed.move (first.utf8ByteSize + ·))).filter
        (fun placed => decide (placed.char ≠ '\r')) =
      ((Placed.ofText second).filter fun placed => decide (placed.char ≠ '\r')).map
        (Placed.move (first.utf8ByteSize + ·)) := by
    rw [List.filter_map]
    rfl
  simp only [ofText, Placed.of_text_append, List.filter_append, kept, String.utf8ByteSize_append]
  rfl

theorem lined_of_text (ends : ∃ body, first.toList = body ++ ['\n']) :
    Lined (ofText vocabulary first 0).rest := by
  obtain ⟨body, spelled⟩ := ends
  simp only [ofText, Placed.ofText, spelled, of_list_append, List.filter_append]
  exact ⟨_, _, rfl⟩

theorem within_of_text (vocabulary : Vocabulary) (source : String) :
    (ofText vocabulary source 0).Within (fun _ => True) (· ≤ source.utf8ByteSize) where
  based := rfl
  ordered := (ordered_of_text source).of_sublist filter_sublist
  content placed member :=
    ⟨trivial, Nat.le_of_lt ((ordered_of_text source).bounded placed (mem_of_mem_filter member))⟩
  stop := trivial
  whole _ := le_rfl
  pending _ set_aside := by cases set_aside
  faults := forall_mem_nil _

theorem after_move {keeps ends : Nat → Prop} (within : scanner.Within keeps ends) (move : Nat → Nat)
    (count : Nat) :
    (scanner.after count).Within keeps ends ∧
      (scanner.move move).after count = (scanner.after count).move move := by
  induction count with
  | zero => exact ⟨within, rfl⟩
  | succ count ih =>
    obtain ⟨inside, same⟩ := ih
    refine ⟨inside.advance.2, ?_⟩
    have step : (scanner.move move).after (count + 1) =
      ((scanner.move move).after count).advance.2.2 := rfl
    rw [step, same, advance_move move inside]
    rfl

theorem token_move {keeps ends : Nat → Prop} (within : scanner.Within keeps ends) (move : Nat → Nat)
    (count : Nat) : (scanner.move move).token count = (scanner.token count).move move := by
  obtain ⟨inside, same⟩ := after_move within move count
  rw [token, same, advance_move move inside]
  rfl

theorem token_append (endless : vocabulary.Endless) (lined : ∃ body, first.toList = body ++ ['\n'])
    (holds : (ofText vocabulary first 0).Holds count)
    (unnumbered : ¬IsNumber ((ofText vocabulary second 0).token 0).kind) :
    (∀ index < count, (ofText vocabulary (first ++ second) 0).token index =
      (ofText vocabulary first 0).token index) ∧
      (∀ index, (ofText vocabulary (first ++ second) 0).token (count + index) =
        ((ofText vocabulary second 0).token index).move (first.utf8ByteSize + ·)) ∧
      ((ofText vocabulary second 0).Clean → (ofText vocabulary (first ++ second) 0).Clean) := by
  have within := within_of_text vocabulary second
  have lined := @lined_of_text vocabulary first lined
  rw [of_text_append]
  have reached := @after_extend (ofText vocabulary first 0)
    ((ofText vocabulary second 0).move (first.utf8ByteSize + ·)).rest
    ((ofText vocabulary second 0).move (first.utf8ByteSize + ·)).stop count lined holds
  obtain ⟨tokens, scanners⟩ := @after_of_end (ofText vocabulary first 0)
    ((ofText vocabulary second 0).move (first.utf8ByteSize + ·)) count endless lined holds
    ⟨rfl, rfl, rfl, rfl⟩ rfl
    (by rw [token_move within]; exact unnumbered)
  refine ⟨fun index inside => ?_, fun index => (tokens index).trans (token_move within _ index),
    fun clean index => ?_⟩
  · obtain ⟨same, lined⟩ := reached index (Nat.le_of_lt inside)
    have silent : ((ofText vocabulary first 0).after index).advance.2.2.faults =
        ((ofText vocabulary first 0).after index).faults := by
      rw [holds.faults (Nat.le_succ_of_le (Nat.le_of_lt inside))]
      exact holds.faults (Nat.succ_le_succ (Nat.le_of_lt inside))
    rw [token, same, (reaches_advance lined (holds.unfinished index inside) silent).1]
    rfl
  · by_cases inside : index ≤ count
    · rw [(reached index inside).1]
      exact holds.faults (Nat.le_succ_of_le inside)
    · obtain ⟨later, rfl⟩ : ∃ later, index = count + (later + 1) := ⟨index - count - 1, by omega⟩
      rw [scanners, (after_move within _ _).2]
      exact map_eq_nil_iff.mpr (clean _)

theorem after_empty (vocabulary : Vocabulary) (count : Nat) :
    (ofText vocabulary "" 0).after count = ofText vocabulary "" 0 := by
  have stays : (ofText vocabulary "" 0).advance.2.2 = ofText vocabulary "" 0 := by
    rw [advance_eq]
    rfl
  induction count with
  | zero => rfl
  | succ count ih => rw [after_succ, stays, ih]

theorem token_empty (vocabulary : Vocabulary) (index : Nat) :
    (ofText vocabulary "" 0).token index = ⟨.eof, ⟨0, 0⟩, some ""⟩ := by
  rw [token, after_empty, advance_eq]
  rfl

theorem token_of_end (endless : vocabulary.Endless) (lined : ∃ body, first.toList = body ++ ['\n'])
    (holds : (ofText vocabulary first 0).Holds count) :
    (ofText vocabulary first 0).token count = ((ofText vocabulary "" 0).token 0).move
      (first.utf8ByteSize + ·) := by
  have unnumbered : ¬IsNumber ((ofText vocabulary "" 0).token 0).kind := by
    rw [token_empty]
    simp [IsNumber]
  have behind := (token_append endless lined holds unnumbered).2.1 0
  rwa [String.append_empty] at behind

end Scanner

/-! ### Texts of a stream -/

theorem Scanner.Clean.advance (clean : scanner.Clean) : scanner.advance.2.2.Clean := fun count => by
  rw [← Scanner.after_succ]
  exact clean (count + 1)

theorem Lane.clean_fill {lane : Lane} (clean : lane.scanner.Clean) (count : Nat) :
    (lane.fill count).scanner.Clean := by
  rw [Lane.fill]
  generalize count + 1 - lane.ahead.length = rounds
  induction rounds with
  | zero => exact clean
  | succ rounds ih => exact ih.advance

theorem Lane.clean_take {lane : Lane} (clean : lane.scanner.Clean) : lane.take.scanner.Clean := by
  by_cases finished : (lane.sight 0).kind = .eof
  · rw [take_of_finished finished]
    exact clean_fill clean 0
  · obtain ⟨ahead, -, taken⟩ := take_of_unfinished finished
    rw [taken]
    exact clean_fill clean 0

end TriggerScript
