import TriggerScript.Parse
import TriggerScript.Proofs.Token.Extent

/-!
Faults are kept.

Whatever is read, a fault that was noted stays noted, in the text where it was found, in the stream
or with the cursor. A token that could not be read never comes without one: its text has noted why.
-/

namespace TriggerScript

open List

/-! ### Scanners -/

/-- No spelling stands for what cannot be read. -/
def Vocabulary.Plain (vocabulary : Vocabulary) : Prop := .error ∉ Scanner.wordKinds vocabulary

theorem Vocabulary.scripts_plain : Vocabulary.scripts.Plain := by
  unfold Vocabulary.Plain
  decide

namespace Scanner

/-- Reading a token leads from one scanner to another, which has noted no less. -/
structure Reads (before : Scanner) (token : Token) (after : Scanner) : Prop where
  vocabulary_eq : after.vocabulary = before.vocabulary
  keeps : before.faults ≠ [] → after.faults ≠ []
  tells : token.kind = .error → after.faults ≠ []

variable {scanner : Scanner}

theorem reads_next (plain : scanner.vocabulary.Plain) :
    scanner.Reads scanner.next.1 scanner.next.2 := by
  have tells : scanner.scan.1.kind = .error → scanner.scan.2.faults ≠ [] := by
    unfold scan
    split
    · rename_i pending _
      cases pending <;> exact nofun
    · split
      · exact nofun
      · rename_i first rest _
        intro unread
        rcases kind_dispatch scanner first rest with known | noted
        · rw [unread, mem_append] at known
          exact absurd known (not_or.mpr ⟨plain, by decide⟩)
        · exact noted.2
  have scans : scanner.Reads scanner.scan.1 scanner.scan.2 := by
    refine ⟨?_, fun noted => ?_, tells⟩ <;> rw [scan_eq_carry]
    · rfl
    · exact append_ne_nil_of_left_ne_nil noted _
  unfold next
  simp only
  split
  · exact scans
  · exact ⟨scans.vocabulary_eq, scans.keeps, scans.tells⟩

theorem reads_advance (plain : scanner.vocabulary.Plain) :
    scanner.Reads scanner.advance.2.1 scanner.advance.2.2 := by
  induction scanner using advance_induction with
  | reads scanner _ => exact reads_next plain
  | skips scanner _ ih =>
    have reads := reads_next plain
    have rest := ih (reads.vocabulary_eq ▸ plain)
    exact ⟨rest.vocabulary_eq.trans reads.vocabulary_eq,
      fun noted => rest.keeps (reads.keeps noted), rest.tells⟩

end Scanner

/-! ### Streams -/

/-- A token read ahead that could not be read was noted. -/
structure Lane.Honest (lane : Lane) : Prop where
  plain : lane.scanner.vocabulary.Plain
  tells : ∀ token ∈ lane.ahead, token.kind = .error → lane.scanner.faults ≠ []

namespace TokenStream

def Honest (stream : TokenStream) : Prop := ∀ lane ∈ stream.active :: stream.suspended, lane.Honest

/-- Some fault was noted. -/
def Faulty (stream : TokenStream) : Prop :=
  stream.faults ≠ [] ∨ ∃ lane ∈ stream.active :: stream.suspended, lane.scanner.faults ≠ []

/-- A stream stays honest, and its faults stay noted. -/
def Leads (before after : TokenStream) : Prop :=
  before.Honest → after.Honest ∧ (before.Faulty → after.Faulty)

variable {before middle after stream : TokenStream}

theorem Leads.refl (stream : TokenStream) : stream.Leads stream := fun honest => ⟨honest, id⟩

theorem Leads.trans (first : before.Leads middle) (second : middle.Leads after) :
    before.Leads after := by
  intro honest
  obtain ⟨honest, keeps⟩ := first honest
  obtain ⟨honest, keeps'⟩ := second honest
  exact ⟨honest, fun faulty => keeps' (keeps faulty)⟩

theorem leads_of_active {lane : Lane} {comments : List Token}
    (honest : stream.active.Honest → lane.Honest)
    (keeps : stream.active.Honest → stream.active.scanner.faults ≠ [] → lane.scanner.faults ≠ []) :
    stream.Leads { stream with active := lane, comments } := by
  intro all
  obtain ⟨here, around⟩ := forall_mem_cons.mp all
  refine ⟨forall_mem_cons.mpr ⟨honest here, around⟩, fun faulty => ?_⟩
  rcases faulty with noted | ⟨other, member, noted⟩
  · exact .inl noted
  · rcases mem_cons.mp member with rfl | outside
    · exact .inr ⟨lane, mem_cons_self, keeps here noted⟩
    · exact .inr ⟨other, mem_cons_of_mem _ outside, noted⟩

theorem leads_read_ahead (stream : TokenStream) : stream.Leads stream.readAhead := by
  refine leads_of_active (fun honest => ?_) fun honest noted => ?_
  · have reads := Scanner.reads_advance honest.plain
    refine ⟨reads.vocabulary_eq ▸ honest.plain, forall_mem_append.mpr ⟨?_, ?_⟩⟩
    · exact fun token member error => reads.keeps (honest.tells token member error)
    · exact forall_mem_singleton.mpr reads.tells
  · exact (Scanner.reads_advance honest.plain).keeps noted

theorem leads_fill (stream : TokenStream) (count : Nat) : stream.Leads (stream.fill count) := by
  unfold fill
  generalize count + 1 - stream.active.ahead.length = rounds
  induction rounds with
  | zero => exact .refl stream
  | succ rounds ih => exact ih.trans (leads_read_ahead _)

theorem leads_take (stream : TokenStream) : stream.Leads stream.take.2 := by
  refine (leads_fill stream 0).trans ?_
  unfold take
  simp only
  split
  · exact .refl _
  · rename_i token ahead split
    split
    · exact .refl _
    · refine leads_of_active (fun honest => ⟨honest.plain, fun other member => ?_⟩) fun _ noted =>
        noted
      exact honest.tells other (split ▸ mem_cons_of_mem _ member)

theorem leads_enter {scanner : Scanner} (plain : scanner.vocabulary.Plain) (stream : TokenStream) :
    stream.Leads (stream.enter scanner) := by
  intro honest
  refine ⟨forall_mem_cons.mpr ⟨⟨plain, fun _ member => nomatch member⟩, honest⟩, fun faulty => ?_⟩
  rcases faulty with noted | ⟨lane, member, noted⟩
  · exact .inl noted
  · exact .inr ⟨lane, mem_cons_of_mem _ member, noted⟩

theorem leads_leave (stream : TokenStream) : stream.Leads stream.leave.2 := by
  unfold leave
  split
  · exact .refl stream
  · rename_i active suspended around
    intro honest
    obtain ⟨-, outside⟩ := forall_mem_cons.mp honest
    rw [around] at outside
    refine ⟨outside, fun faulty => ?_⟩
    rcases faulty with noted | ⟨lane, member, noted⟩
    · exact .inl (by simp [noted])
    · rcases mem_cons.mp member with rfl | outer
      · exact .inl (by simp [noted])
      · exact .inr ⟨lane, around ▸ outer, noted⟩

theorem faulty_of_lookahead {count : Nat} (honest : stream.Honest)
    (error : (stream.lookahead count).1.kind = .error) : (stream.lookahead count).2.Faulty := by
  obtain ⟨here, -⟩ := forall_mem_cons.mp (leads_fill stream count honest).1
  have member : (stream.lookahead count).1 ∈ (stream.fill count).active.ahead ∨
      (stream.lookahead count).1 = endToken := by
    unfold lookahead
    simp only [getD_eq_getElem?_getD]
    cases found : (stream.fill count).active.ahead[count]? with
    | none => exact .inr rfl
    | some token => exact .inl (mem_of_getElem? found)
  rcases member with held | finished
  · exact .inr ⟨_, mem_cons_self, here.tells _ held error⟩
  · rw [finished] at error
    cases error

end TokenStream

/-! ### Cursors -/

namespace Cursor

def Honest (cursor : Cursor) : Prop := cursor.stream.Honest

/-- Some fault was noted or reported. -/
def Faulty (cursor : Cursor) : Prop := cursor.faults ≠ [] ∨ cursor.stream.Faulty

/-- A cursor stays honest, and its faults are kept. -/
def Leads (before after : Cursor) : Prop :=
  before.Honest → after.Honest ∧ (before.Faulty → after.Faulty)

variable {before middle after cursor : Cursor}

theorem Leads.refl (cursor : Cursor) : cursor.Leads cursor := fun honest => ⟨honest, id⟩

theorem Leads.trans (first : before.Leads middle) (second : middle.Leads after) :
    before.Leads after := by
  intro honest
  obtain ⟨honest, keeps⟩ := first honest
  obtain ⟨honest, keeps'⟩ := second honest
  exact ⟨honest, fun faulty => keeps' (keeps faulty)⟩

theorem leads_of_stream {stream : TokenStream} {range : Span} (leads : cursor.stream.Leads stream) :
    cursor.Leads { cursor with stream, range } := by
  intro honest
  obtain ⟨honest, keeps⟩ := leads honest
  exact ⟨honest, fun faulty => faulty.imp id keeps⟩

theorem leads_of_faults (cursor : Cursor) (more : List Diagnostic) :
    cursor.Leads { cursor with faults := cursor.faults ++ more } :=
  fun honest => ⟨honest, fun faulty => faulty.imp (fun noted => by simp [noted]) id⟩

theorem not_faulty_of_finish (clean : cursor.finish = []) : ¬ cursor.Faulty := by
  have sorted_nil : ∀ faults : List Diagnostic, Diagnostic.sorted faults = [] → faults = [] := by
    intro faults empty
    have perm := mergeSort_perm faults fun left right => left.span.start ≤ right.span.start
    exact Perm.nil_eq (empty ▸ perm) |>.symm
  obtain ⟨within, reported⟩ := append_eq_nil_iff.mp (sorted_nil _ clean)
  have noted := sorted_nil _ within
  simp only [append_eq_nil_iff, flatMap_eq_nil_iff, mem_reverse] at noted
  rintro (here | here | ⟨lane, member, here⟩)
  · exact here reported
  · exact here noted.1.1
  · rcases mem_cons.mp member with rfl | outside
    · exact here noted.1.2
    · exact here (noted.2 lane outside)

end Cursor

end TriggerScript
