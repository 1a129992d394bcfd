import TriggerScript.Proofs.Parsing.Faults
import TriggerScript.Proofs.Parsing.Rounds

/-!
What phrases find.

What is found is shown to be right from what the parts of a phrase find, one rule for each way to
put phrases together; the rules are instances, so that most phrases follow from how they are
written. Where a fault may stand for a part that could not be read, only what is found without
faults has to be right; every phrase keeps the faults noted before it. Ranges only grow while a
phrase is read, so what is around a phrase is around its parts.
-/

namespace TriggerScript

open List

namespace Span

variable {outer middle inner left right : Span}

theorem contains_iff : outer.contains inner = true ↔
    inner.start < inner.stop → outer.start ≤ inner.start ∧ inner.stop ≤ outer.stop := by
  simp [contains, isEmpty]
  omega

theorem contains_refl (span : Span) : span.contains span = true :=
  contains_iff.mpr fun _ => ⟨Nat.le_refl _, Nat.le_refl _⟩

theorem contains_trans (around : outer.contains middle = true)
    (inside : middle.contains inner = true) : outer.contains inner = true := by
  rw [contains_iff] at *
  omega

theorem contains_merge_left (left right : Span) : (left.merge right).contains left = true := by
  rw [contains_iff]
  unfold merge isEmpty
  grind

theorem contains_merge_right (left right : Span) : (left.merge right).contains right = true := by
  rw [contains_iff]
  unfold merge isEmpty
  grind

theorem contains_merge (first : outer.contains left = true) (second : outer.contains right = true) :
    outer.contains (left.merge right) = true := by
  rw [contains_iff] at *
  unfold merge isEmpty
  grind

end Span

/-- On which terms a tree is read: what can be called, whether there may be hooks, and whether there
may be parts that could not be read. -/
structure Terms where
  callable : String → Prop
  hooked : Prop
  lenient : Prop

/-- What is known of the values found before, and the range around the phrase. -/
structure Site where
  given : Prop
  around : Span

/-- What is asked of a value that is read in a range. -/
class Tree (α : Type) where
  fits : Terms → Span → α → Prop

variable {α β : Type} {terms : Terms} {site : Site}

/-- Something is known besides. -/
def Site.knowing (site : Site) (other : Prop) : Site := ⟨site.given ∧ other, site.around⟩

/-- As far as is known the value may be read in the range. -/
class Fits [Tree α] (terms : Terms) (site : Site) (value : α) : Prop where
  fits : site.given → Tree.fits terms site.around value

/-! ### Values -/

section

/-- In general nothing is asked. -/
instance (priority := low) Tree.anything : Tree α := ⟨fun _ _ _ => True⟩

instance (value : α) : @Fits α .anything terms site value :=
  @Fits.mk α .anything _ _ _ fun _ => trivial

/-- What cannot be read is found only where there may be such parts. -/
instance : Tree TokenKind := ⟨fun terms _ kind => kind = .error → terms.lenient⟩

instance : Tree Token := ⟨fun _ around token => around.contains token.span = true⟩

variable [Tree α] [Tree β]

instance {value : α} : Fits terms (site.knowing (Tree.fits terms site.around value)) value :=
  ⟨And.right⟩

instance {value : α} {other : Prop} [here : Fits terms site value] :
    Fits terms (site.knowing other) value :=
  ⟨fun known => here.fits known.1⟩

instance : Tree (List α) :=
  ⟨fun terms around values => ∀ value ∈ values, Tree.fits terms around value⟩

instance : Tree (Option α) :=
  ⟨fun terms around value? => ∀ value ∈ value?, Tree.fits terms around value⟩

instance : Tree (α × β) :=
  ⟨fun terms around pair => Tree.fits terms around pair.1 ∧ Tree.fits terms around pair.2⟩

instance : Tree (α ⊕ β) :=
  ⟨fun terms around => Sum.elim (Tree.fits terms around) (Tree.fits terms around)⟩

instance {left : α} {right : β} :
    Fits terms (site.knowing (Tree.fits terms site.around (left, right))) left :=
  ⟨fun known => known.2.1⟩

instance {left : α} {right : β} :
    Fits terms (site.knowing (Tree.fits terms site.around (left, right))) right :=
  ⟨fun known => known.2.2⟩

instance : Fits terms site ([] : List α) := ⟨fun _ => forall_mem_nil _⟩

instance {first : α} {rest : List α} [here : Fits terms site first] [later : Fits terms site rest] :
    Fits terms site (first :: rest) :=
  ⟨fun known => forall_mem_cons.mpr ⟨here.fits known, later.fits known⟩⟩

instance : Fits terms site (none : Option α) := ⟨fun _ => by simp [Tree.fits]⟩

instance {value : α} [here : Fits terms site value] : Fits terms site (some value) :=
  ⟨fun known _ same => Option.mem_some_iff.mp same ▸ here.fits known⟩

instance {left : α} {right : β} [first : Fits terms site left] [second : Fits terms site right] :
    Fits terms site (left, right) := ⟨fun known => ⟨first.fits known, second.fits known⟩⟩

instance {value : α} [here : Fits terms site value] : Fits terms site (Sum.inl value : α ⊕ β) :=
  ⟨here.fits⟩

instance {value : β} [here : Fits terms site value] : Fits terms site (Sum.inr value : α ⊕ β) :=
  ⟨here.fits⟩

end

/-! ### Phrases -/

/-- If reading is not lenient, tokens that could not be read were noted, and there is no fault at
the end. -/
def Cursor.Clean (terms : Terms) (before after : Cursor) : Prop :=
  ¬terms.lenient → before.Honest ∧ ¬after.Faulty

namespace Parse

variable {phrase : Parse α} {next : α → Parse β}

/-- The phrase keeps the faults that were noted, and the range that was read. What it finds inside
of the range may be read there: in any case if reading is lenient, and else unless there is a
fault. -/
class Finds [Tree α] (terms : Terms) (site : Site) (phrase : Parse α) : Prop where
  leads : ¬terms.lenient → ∀ cursor : Cursor, cursor.Leads (phrase cursor).2
  narrows : ∀ cursor value, (phrase cursor).1 = .found value →
    site.around.contains (phrase cursor).2.range = true → site.around.contains cursor.range = true
  fits : site.given → ∀ cursor value, (phrase cursor).1 = .found value →
    site.around.contains (phrase cursor).2.range = true → cursor.Clean terms (phrase cursor).2 →
      Tree.fits terms site.around value

theorem parts_of_found {cursor : Cursor} {result : β}
    (found : ((phrase >>= next) cursor).1 = .found result) :
    ∃ value, (phrase cursor).1 = .found value ∧
      (phrase >>= next) cursor = next value (phrase cursor).2 := by
  rw [bind_apply] at found ⊢
  rcases ran : phrase cursor with ⟨value | _ | _, behind⟩ <;> rw [ran] at found
  · exact ⟨value, rfl, rfl⟩
  · cases found
  · cases found

theorem found_of_ranged {cursor : Cursor} {result : α × Span}
    (found : (phrase.ranged cursor).1 = .found result) :
    (phrase { cursor with range := Span.empty }).1 = .found result.1 ∧
      result.2 = (phrase { cursor with range := Span.empty }).2.range ∧
      (phrase.ranged cursor).2 = { (phrase { cursor with range := Span.empty }).2 with
        range := cursor.range.merge result.2 } := by
  unfold Parse.ranged at found ⊢
  split at found
  · rename_i value behind ran
    cases found
    rw [ran]
    exact ⟨rfl, rfl, rfl⟩
  · cases found
  · cases found

/-! ### What is found in any case -/

variable {holds : α → Prop} {other : β → Prop}

/-- Whatever the phrase finds has the property. -/
def Only (phrase : Parse α) (holds : α → Prop) : Prop :=
  ∀ cursor value, (phrase cursor).1 = .found value → holds value

theorem only_pure {value : α} (here : holds value) : (pure value : Parse α).Only holds := by
  intro cursor found same
  cases same
  exact here

theorem only_bind (later : ∀ value, (next value).Only other) : (phrase >>= next).Only other := by
  intro cursor result found
  obtain ⟨value, -, rest⟩ := parts_of_found found
  exact later value _ result (rest ▸ found)

theorem Only.bind (first : phrase.Only holds)
    (later : ∀ value, holds value → (next value).Only other) : (phrase >>= next).Only other := by
  intro cursor result found
  obtain ⟨value, here, rest⟩ := parts_of_found found
  exact later value (first cursor value here) _ result (rest ▸ found)

theorem only_reject {fault : GrammarFault} {span : Span} :
    (reject fault span : Parse α).Only holds :=
  fun _ _ found => nomatch found

theorem Only.ranged (only : phrase.Only holds) : phrase.ranged.Only fun result => holds result.1 :=
  fun _ _ found => only _ _ (found_of_ranged found).1

theorem only_separated {phrase : Nat → Parse α} (only : ∀ index, (phrase index).Only holds)
    (index bound : Nat) :
    (separated phrase index bound).Only fun values => ∀ value ∈ values, holds value := by
  induction bound generalizing index with
  | zero => exact fun _ _ found => nomatch found
  | succ bound ih =>
    refine (only index).bind fun first here => only_bind fun more => ?_
    split
    · exact (ih (index + 1)).bind fun rest later => only_pure (forall_mem_cons.mpr ⟨here, later⟩)
    · exact only_pure (forall_mem_singleton.mpr here)

theorem leads_bind {cursor : Cursor} (first : cursor.Leads (phrase cursor).2)
    (later : ∀ value, (phrase cursor).1 = .found value →
      ∀ behind, Cursor.Leads behind (next value behind).2) :
    cursor.Leads ((phrase >>= next) cursor).2 := by
  rw [bind_apply]
  rcases ran : phrase cursor with ⟨value | _ | _, behind⟩ <;> rw [ran] at first later
  · exact first.trans (later value rfl behind)
  · exact first
  · exact first

/-- Where no fault is left at the end, there was none in between. -/
theorem parts_of_clean {cursor : Cursor} {result : β}
    (first : ¬terms.lenient → cursor.Leads (phrase cursor).2)
    (later : ¬terms.lenient → ∀ value, (phrase cursor).1 = .found value →
      ∀ behind, Cursor.Leads behind (next value behind).2)
    (found : ((phrase >>= next) cursor).1 = .found result)
    (clean : cursor.Clean terms ((phrase >>= next) cursor).2) :
    ∃ value, (phrase cursor).1 = .found value ∧
      (phrase >>= next) cursor = next value (phrase cursor).2 ∧
      cursor.Clean terms (phrase cursor).2 ∧
      (phrase cursor).2.Clean terms (next value (phrase cursor).2).2 := by
  obtain ⟨value, here, rest⟩ := parts_of_found found
  rw [rest] at clean
  refine ⟨value, here, rest, fun strict => ⟨(clean strict).1, fun faulty => ?_⟩,
    fun strict => ⟨?_, (clean strict).2⟩⟩
  · have honest := first strict (clean strict).1
    exact (clean strict).2 ((later strict value here _ honest.1).2 faulty)
  · exact (first strict (clean strict).1).1

namespace Finds

variable [Tree α] [Tree β]

instance {value : α} [here : Fits terms site value] : (pure value : Parse α).Finds terms site := by
  refine ⟨fun _ cursor => .refl cursor, fun _ _ _ => id, fun known cursor found same _ _ => ?_⟩
  cases same
  exact here.fits known

theorem bind_only (only : phrase.Only holds) [first : phrase.Finds terms site]
    (later : ∀ value, holds value → (next value).Finds terms
      (site.knowing (Tree.fits terms site.around value))) :
    (phrase >>= next).Finds terms site := by
  have leads strict (cursor : Cursor) : ∀ value, (phrase cursor).1 = .found value → ∀ behind,
      Cursor.Leads behind (next value behind).2 :=
    fun value found => (later value (only cursor value found)).leads strict
  refine ⟨fun strict cursor => leads_bind (first.leads strict cursor) (leads strict cursor),
    fun cursor result found within => ?_, fun known cursor result found within clean => ?_⟩
  · obtain ⟨value, here, rest⟩ := parts_of_found found
    rw [rest] at found within
    exact first.narrows cursor value here
      ((later value (only cursor value here)).narrows _ result found within)
  · obtain ⟨value, here, rest, before, behind⟩ :=
      parts_of_clean (fun strict => first.leads strict cursor)
      (fun strict => leads strict cursor) found clean
    rw [rest] at found within
    have rest := later value (only cursor value here)
    have between := rest.narrows _ result found within
    exact rest.fits ⟨known, first.fits known cursor value here between before⟩ _ result found within
      behind

theorem bind [phrase.Finds terms site]
    (later : ∀ value, (next value).Finds terms (site.knowing (Tree.fits terms site.around value))) :
    (phrase >>= next).Finds terms site :=
  bind_only (fun _ _ _ => trivial : phrase.Only fun _ => True) fun value _ => later value

instance [phrase.Finds terms site]
    [later : ∀ value, (next value).Finds terms (site.knowing (Tree.fits terms site.around value))] :
    (phrase >>= next).Finds terms site := bind later

instance {build : α → β} [phrase.Finds terms site]
    [∀ value, Fits terms (site.knowing (Tree.fits terms site.around value)) (build value)] :
    (build <$> phrase).Finds terms site :=
  inferInstanceAs ((phrase >>= fun value => pure (build value)).Finds terms site)

instance {condition : Prop} [Decidable condition] {first second : Parse α} [first.Finds terms site]
    [second.Finds terms site] : (if condition then first else second).Finds terms site := by
  split <;> infer_instance

instance : (exhaust : Parse α).Finds terms site :=
  ⟨fun _ cursor => .refl cursor, fun _ _ found => (nomatch found), fun _ _ _ found => nomatch found⟩

instance (fault : GrammarFault) (span : Span) : (reject fault span : Parse α).Finds terms site :=
  ⟨fun _ cursor => .refl cursor, fun _ _ found => (nomatch found), fun _ _ _ found => nomatch found⟩

/-- Of a token that is only looked at nothing is known. -/
instance peeked : @Finds Token .anything terms site peek :=
  @Finds.mk _ .anything _ _ _ (fun _ cursor => Cursor.leads_of_stream (cursor.stream.leads_fill 0))
    (fun _ _ _ => id)
    fun _ _ _ _ _ _ => trivial

instance (fault : GrammarFault) : (rejectNext fault : Parse α).Finds terms site :=
  @bind _ _ _ _ peek _ .anything _ peeked fun token =>
    inferInstanceAs ((reject fault token.span).Finds terms _)

instance (diagnostic : Diagnostic) : (note diagnostic).Finds terms site :=
  ⟨fun _ cursor => cursor.leads_of_faults _, fun _ _ _ => id, fun _ _ _ _ _ _ => trivial⟩

instance (fault : GrammarFault) (span : Span) : (report fault span).Finds terms site :=
  inferInstanceAs ((note _).Finds terms site)

/-- What stands for a value that cannot be built comes with a fault. -/
instance (fault : GrammarFault) (span : Span) (standIn : α)
    [stands : Fits terms (site.knowing terms.lenient) standIn] :
    (report fault span >>= fun _ => pure standIn : Parse α).Finds terms site := by
  refine ⟨fun _ cursor => cursor.leads_of_faults _, fun _ _ _ => id,
    fun known cursor _ found _ clean => ?_⟩
  cases found
  refine stands.fits ⟨known, by_contra fun strict => (clean strict).2 (.inl ?_)⟩
  exact append_ne_nil_of_right_ne_nil _ (cons_ne_nil _ _)

instance (value : Except GrammarFault β) (build : β → α) (standIn : α) (span : Span)
    [∀ value, Fits terms site (build value)] [Fits terms (site.knowing terms.lenient) standIn] :
    (orReport value build standIn span).Finds terms site := by
  cases value with
  | ok value => exact inferInstanceAs ((pure (build value) : Parse α).Finds terms site)
  | error fault =>
    exact inferInstanceAs ((report fault span >>= fun _ => pure standIn : Parse α).Finds terms site)

instance (count : Nat) : (kindAhead count).Finds terms site := by
  refine ⟨fun _ cursor => Cursor.leads_of_stream (cursor.stream.leads_fill count),
    fun _ _ _ => id, ?_⟩
  intro _ cursor found same _ clean error
  cases same
  refine by_contra fun strict => (clean strict).2 (.inr ?_)
  exact TokenStream.faulty_of_lookahead (clean strict).1 error

instance : kind.Finds terms site := inferInstanceAs ((kindAhead 0).Finds terms site)

instance : isFinished.Finds terms site :=
  inferInstanceAs ((kind >>= fun found => pure (decide (found = .eof))).Finds terms site)

instance : take.Finds terms site := by
  refine ⟨fun _ cursor => Cursor.leads_of_stream cursor.stream.leads_take, fun _ _ _ within => ?_,
    fun _ _ _ found within _ => ?_⟩
  · exact Span.contains_trans within (Span.contains_merge_left _ _)
  · cases found
    exact Span.contains_trans within (Span.contains_merge_right _ _)

instance : skip.Finds terms site :=
  ⟨fun _ cursor => Cursor.leads_of_stream cursor.stream.leads_take, fun _ _ _ => id,
    fun _ _ _ _ _ _ => trivial⟩

instance (expected : TokenKind) : (expect expected).Finds terms site := by
  unfold expect
  infer_instance

instance (expected : TokenKind) : (accept expected).Finds terms site := by
  unfold accept
  infer_instance

instance {condition : Parse Bool} [∀ site, condition.Finds terms site]
    [∀ site, phrase.Finds terms site] (bound : Nat) :
    (many condition phrase bound).Finds terms site := by
  induction bound generalizing site with
  | zero => exact inferInstanceAs ((exhaust : Parse (List α)).Finds terms site)
  | succ bound ih =>
    unfold many
    infer_instance

instance {phrase : Nat → Parse α} [∀ index site, (phrase index).Finds terms site]
    (index bound : Nat) : (separated phrase index bound).Finds terms site := by
  induction bound generalizing index site with
  | zero => exact inferInstanceAs ((exhaust : Parse (List α)).Finds terms site)
  | succ bound ih =>
    unfold separated
    infer_instance

instance (kinds : List TokenKind) (bound : Nat) : (skipUntil kinds bound).Finds terms site := by
  induction bound generalizing site with
  | zero => exact inferInstanceAs ((exhaust : Parse Unit).Finds terms site)
  | succ bound ih =>
    unfold skipUntil
    infer_instance

end Finds

/-- A phrase is read inside of its own range. -/
theorem Finds.ranged [Tree α] [Tree (α × Span)] [finds : ∀ site, phrase.Finds terms site]
    (fits : ∀ {value : α} {within around : Span}, Tree.fits terms within value →
      around.contains within = true → Tree.fits terms around (value, within)) :
    phrase.ranged.Finds terms site := by
  refine ⟨fun strict cursor => ?_, fun cursor result found within => ?_,
    fun known cursor result found within clean => ?_⟩
  · have leads := (Cursor.leads_of_stream (.refl _)).trans
      ((finds site).leads strict { cursor with range := .empty })
    unfold Parse.ranged
    rcases ran : phrase { cursor with range := .empty } with ⟨_ | _ | _, behind⟩ <;>
      rw [ran] at leads
    · exact leads.trans (Cursor.leads_of_stream (.refl _))
    · exact leads
    · exact leads
  · obtain ⟨-, -, behind⟩ := found_of_ranged found
    rw [behind] at within
    exact Span.contains_trans within (Span.contains_merge_left _ _)
  · obtain ⟨here, range, behind⟩ := found_of_ranged found
    rw [behind] at within clean
    refine fits ?_ (Span.contains_trans within (Span.contains_merge_right _ _))
    refine (finds ⟨site.given, result.2⟩).fits known _ result.1 here ?_ fun strict =>
      ⟨(clean strict).1, (clean strict).2⟩
    rw [← range]
    exact result.2.contains_refl

theorem Finds.embedded [Tree α] [finds : phrase.Finds terms site] {scanner : Scanner}
    (plain : ¬terms.lenient → scanner.vocabulary.Plain) :
    (phrase.embedded scanner).Finds terms site := by
  have enters (strict : ¬terms.lenient)
    (cursor : Cursor) : cursor.Leads { cursor with stream := cursor.stream.enter scanner } :=
    Cursor.leads_of_stream (cursor.stream.leads_enter (plain strict))
  have leaves (cursor : Cursor) : cursor.Leads { cursor with stream := cursor.stream.leave.2 } :=
    Cursor.leads_of_stream cursor.stream.leads_leave
  refine ⟨fun strict cursor => ?_, fun cursor => finds.narrows _,
    fun known cursor value found within clean => ?_⟩
  · exact ((enters strict cursor).trans (finds.leads strict _)).trans (leaves _)
  · refine finds.fits known _ value found within fun strict => ?_
    have inside := enters strict cursor (clean strict).1
    exact ⟨inside.1, fun faulty => (clean strict).2
      ((leaves _ (finds.leads strict _ inside.1).1).2 faulty)⟩

end Parse

end TriggerScript
