import TriggerScript.Config.Declaration
import TriggerScript.Proofs.Parsing.Statements
import TriggerScript.Script.Declaration

/-!
Scripts and configurations read side by side.

A declaration is read alike in texts that correspond. At a border this needs that no annotation
stands before it: an annotation asks for a bracket, which the second text has there and the first
has not.
-/

namespace TriggerScript

open List Cursor Diagnostic Ident Parse Script

variable {link : Link} {grammar grammar' : Grammar} {room bound : Nat × Nat} {α β γ δ : Type}
  {faults : List Diagnostic}

open Link

/-- No annotation stands before a border. -/
def Link.Unannotated (link : Link) : Prop :=
  ∀ {lane other : Lane}, link.border lane other → (lane.sight 0).kind ≠ .hash

theorem Link.refuses_ranged {phrase : Parse α} {build : α × Span → β}
    (refused : ∀ cursor : Cursor, cursor.head.kind ∉ kinds →
      ∃ fault, phrase cursor = (.rejected fault, cursor.fill 0)) :
    Refuses kinds (phrase.ranged >>= fun result => pure (build result)) := by
  intro cursor stops
  obtain ⟨fault, rejected⟩ := refused cursor.fresh stops
  have ended : phrase.ranged cursor = (.rejected fault, cursor.fresh.fill 0) := by
    unfold ranged
    rw [fresh] at rejected
    rw [rejected]
    rfl
  refine ⟨fault, Span.empty, ?_⟩
  rw [bind_apply, ended]
  rfl

namespace Script

variable {kind : TokenKind} {related : α → β → Prop} {next : List Annotation → Parse α}
  {next' : List Annotation → Parse β}

/-! ### Annotations -/

/-- Names that are alike, with the same thing behind them. -/
def Named (value value' : Ident × α) : Prop := value.1.Alike value'.1 ∧ value.2 = value'.2

theorem annotation_body_alike :
    link.Repeats Anywhere .any room Named
    (Ident.parse >>= fun name => Parse.expect .colon >>= fun _ =>
      Parse.expect .integer >>= fun token =>
      match token.int32 with
      | .ok value => pure (name, value)
      | .error fault => reject fault token.span) := by
  refine parse_alike.loose.seq rfl fun name name' named => ?_
  refine .past (by decide) ?_
  refine (Lockstep.expect .integer (by decide)).loose.seq rfl fun token token' tokens => ?_
  rw [tokens.1.denotes.1]
  cases token.int32 with
  | ok value => exact .found ⟨named, rfl⟩
  | error fault => exact (Lockstep.reject tokens.1.places).loose

theorem annotation_alike {value value' : (Ident × Int32) × Span} (named : Named value.1 value'.1) :
    (⟨value.1.1, value.1.2, value.2⟩ : Annotation).unplaced =
      (⟨value'.1.1, value'.1.2, value'.2⟩ : Annotation).unplaced := by
  simp only [named.1, named.2, Annotation.unplaced]

theorem parse_annotation_alike : link.Repeats Anywhere .found room
    (fun value value' => value.unplaced = value'.unplaced) parseAnnotation :=
  ((Lockstep.expect .hash (by decide)).follow rfl fun _ _ _ => annotation_body_alike).ranged.map rfl
    fun _ _ alike => annotation_alike alike.1

theorem parse_annotation_sure : link.Repeats (At .hash) .always (room + 1)
    (fun value value' => value.unplaced = value'.unplaced) parseAnnotation := by
  have body : link.Lockstep (At .hash) .always (room + 1) Named _ _ :=
    Lockstep.expect_ahead (Lockstep.take nofun fun _ _ _ _ => annotation_body_alike)
  exact body.ranged.sure fun _ _ alike => .found (annotation_alike alike.1)

theorem annotations_bind {bound : Nat} (next : List Annotation → Parse α) :
    Parse.many annotationAhead parseAnnotation (bound + 1) >>= next = Parse.kind >>= fun found =>
      if found = .hash then
        parseAnnotation >>= fun first => Parse.many annotationAhead parseAnnotation bound >>=
        fun rest =>
          next (first :: rest) else next [] := by
  rw [Parse.many, annotationAhead, bind_bind, bind_bind]
  congr 1
  funext found
  by_cases hash : found = .hash
  · rw [if_pos hash, decide_eq_true hash]
    refine (bind_bind parseAnnotation _ next).trans ?_
    congr 1
    funext first
    exact bind_bind ..
  · rw [if_neg hash, decide_eq_false hash]
    rfl

theorem unannotated_alike (plain : kind ≠ .hash)
    (steps : link.Lockstep (At kind) pace room related (next []) (next' [])) :
    link.Lockstep (At kind) pace room related
      (Parse.many annotationAhead parseAnnotation (bound.1 + 1) >>= next)
      (Parse.many annotationAhead parseAnnotation (bound.2 + 1) >>= next') := by
  rw [annotations_bind, annotations_bind]
  refine .kind_at ?_
  rw [if_neg plain, if_neg plain]
  exact steps

theorem annotated_alike (fits : room ≤ bound)
    (steps : ∀ annotations annotations', annotations.map Annotation.unplaced =
      annotations'.map Annotation.unplaced →
      link.Lockstep Anywhere .any room related (next annotations) (next' annotations')) :
    link.Lockstep (At .hash) .always (room + 1) related
      (Parse.many annotationAhead parseAnnotation (bound.1 + 1) >>= next)
      (Parse.many annotationAhead parseAnnotation (bound.2 + 1) >>= next') := by
  have ahead : link.Lockstep Anywhere .any room Eq annotationAhead annotationAhead :=
    Lockstep.asks (fun _ => rfl) fun _ => rfl
  rw [annotations_bind, annotations_bind]
  refine .kind_at ?_
  rw [if_pos rfl, if_pos rfl]
  refine parse_annotation_sure.sure fun first first' alike => ?_
  refine (Lockstep.many ahead parse_annotation_alike fits).seq rfl fun rest rest' alike' =>
    steps _ _ ?_
  rw [map_cons, map_cons, alike, map_eq_of_forall₂ alike']

/-! ### Signatures -/

theorem parameter_ahead_alike : link.Repeats heads .any room Eq parameterAhead := by
  have dollar : ∀ kind, kind ≠ .eof → link.Repeats (At kind) .any room Eq
      (kindAhead 1 >>= fun behind => pure (decide (behind = .dollar))) := fun kind unfinished =>
    Lockstep.kind_behind (fun _ _ known => ⟨known.1.trans known.2.symm, known.1 ▸ unfinished⟩)
      (fun _ => .found rfl) (.found rfl)
  refine .kind (fun kind _ => ?_) fun _ _ => .found rfl
  cases kind with
  | type => exact dollar .type nofun
  | arrayType => exact dollar .arrayType nofun
  | _ => exact .found rfl

theorem parse_parameter_alike : link.Repeats heads .found room
    (fun value value' => value.unplaced = value'.unplaced) parseParameter := by
  refine .map rfl (Lockstep.ranged (?_ : link.Repeats heads .found room
    (fun value value' : Prim × Ident => value.1 = value'.1 ∧ value.2.Alike value'.2) _))
    fun value value' alike => ?_
  · have named : link.Repeats Anywhere .found room
        (fun value value' : Prim × Ident => value.1 = value'.1 ∧ value.2.Alike value'.2)
        (Prim.parseMarked .type "" >>= fun marked =>
          if !marked.1.isDeclarable then reject (.illegalParameterType marked.1) marked.2
          else Parse.expect .dollar >>= fun _ => Ident.parse >>= fun name =>
            pure (marked.1, name)) := by
      refine (Prim.parse_marked_alike .type "" (by decide)).follow rfl fun marked marked' alike =>
        ?_
      rw [← alike.1]
      split
      · exact (Lockstep.reject alike.2).loose
      · refine .past (by decide) ?_
        exact parse_alike.loose.map rfl fun name name' named => ⟨rfl, named⟩
    refine .kind (fun kind _ => ?_) fun _ _ => named.anywhere
    split
    · rename_i array
      subst array
      exact .take_within nofun fun _ _ tokens _ => (Lockstep.reject tokens.places).loose
    · exact named.anywhere
  · simp only [Param.unplaced, alike.1.1, alike.1.2]

theorem parse_parameters_alike (fits : room ≤ bound) :
    link.Lockstep Anywhere .any room (fun value value' => value.map Param.unplaced =
      value'.map Param.unplaced)
      (parseParameters bound.1) (parseParameters bound.2) :=
  (Lockstep.separated rfl (fun _ _ _ => trivial) (fun _ => parse_parameter_alike) fits
    0).loose.weaken
    (fun _ _ => id) (fun _ _ => map_eq_of_forall₂) le_rfl

theorem parse_types_alike (fits : room ≤ bound) :
    link.Lockstep Anywhere .any room Eq (parseTypes bound.1) (parseTypes bound.2) := by
  have types : link.Lockstep Anywhere .found room (Forall₂ fun value value' : Prim × Span =>
      value.1 = value'.1 ∧ link.Places value.2 value'.2) _ _ :=
    Lockstep.separated rfl (fun _ _ _ => trivial)
      (fun _ => Prim.parse_marked_alike .type "" (by decide)) fits 0
  refine types.loose.map rfl fun value value' alike => ?_
  rw [map_eq_of_forall₂ (alike.imp fun _ _ => And.left)]

theorem parse_group_alike (steps : link.Lockstep Anywhere .any room related phrase phrase') :
    link.Lockstep Anywhere .any room (Option.Rel related) (parseGroup phrase)
    (parseGroup phrase') := by
  refine .accepts (by decide) (.accepts (by decide) (.found .none) ?_) (.found .none)
  exact steps.seq rfl fun value value' here => .past (by decide) (.found (.some here))

/-- Parameters that are alike, or the same types. -/
inductive Grouped : List Param ⊕ Ty → List Param ⊕ Ty → Prop where
  | params {params params' : List Param}
      (same : params.map Param.unplaced = params'.map Param.unplaced) :
    Grouped (.inl params) (.inl params')
  | returns (ty : Ty) : Grouped (.inr ty) (.inr ty)

theorem parse_signature_alike (fits : room ≤ bound) :
    link.Lockstep Anywhere .any room
      (fun value value' => value.1.map Param.unplaced = value'.1.map Param.unplaced ∧
        value.2 = value'.2)
      (parseSignature bound.1) (parseSignature bound.2) := by
  have parameters : link.Lockstep Anywhere .any room _ _ _ := parse_parameters_alike fits
  have types : link.Lockstep Anywhere .any room _ _ _ := parse_types_alike fits
  have first : link.Lockstep Anywhere .any room Grouped (parameterAhead >>= fun ahead =>
        if ahead then Sum.inl <$> parseParameters bound.1 else Sum.inr <$> parseTypes bound.1)
      (parameterAhead >>= fun ahead =>
        if ahead then Sum.inl <$> parseParameters bound.2 else Sum.inr <$> parseTypes bound.2) := by
    refine parameter_ahead_alike.seq rfl fun ahead _ taken => ?_
    subst taken
    cases ahead with
    | true => exact parameters.map rfl fun _ _ same => .params same
    | false =>
      refine types.map rfl fun returns _ same => ?_
      subst same
      exact .returns returns
  refine (parse_group_alike first).seq rfl fun group group' same => ?_
  have rest : ∀ params params' : List Param,
    params.map Param.unplaced = params'.map Param.unplaced →
      link.Lockstep Anywhere .any room
        (fun value value' => value.1.map Param.unplaced = value'.1.map Param.unplaced ∧
          value.2 = value'.2)
        (parseGroup (parseTypes bound.1) >>= fun returns => pure (params, returns.getD Ty.void))
        (parseGroup (parseTypes bound.2) >>= fun returns =>
          pure (params', returns.getD Ty.void)) := by
    intro params params' same
    refine (parse_group_alike types).map rfl fun returns returns' alike => ⟨same, ?_⟩
    cases alike with
    | none => rfl
    | some here => exact here
  cases same with
  | none => exact rest [] [] rfl
  | some here =>
    cases here with
    | params same => exact rest _ _ same
    | returns ty =>
      refine (parse_group_alike parameters).map rfl fun params params' alike => ⟨?_, rfl⟩
      cases alike with
      | none => rfl
      | some here => exact here

/-! ### Scripts -/

def behindBracket (grammar : Grammar) (bound : Nat) (annotations : List Annotation) :
    Parse (Span → Script) := do
  let trigger ← Ident.parseAny
  let _ ← Parse.expect .comma
  let name ← Ident.parseAny
  let _ ← Parse.expect .rightBracket
  let (params, returns) ← parseSignature bound
  let (body, inner) ← Stmt.parseSequence grammar (Stmt.parse grammar bound) bound
  return fun span => ⟨annotations, trigger, name, params, returns, inner, body, span⟩

def form (grammar : Grammar) (bound : Nat) : Parse (Span → Script) :=
  Parse.many annotationAhead parseAnnotation bound >>= fun annotations =>
    Parse.expect .leftBracket >>= fun _ => behindBracket grammar bound annotations

/-- The same script wherever it stands. -/
def Built (build build' : Span → Script) : Prop := ∀ span span', (build span).Alike (build' span')

section

variable (shared : link.Shares grammar grammar') (unbroken : link.Unbroken)

include shared unbroken

theorem behind_bracket_alike {annotations annotations' : List Annotation}
    (alike : annotations.map Annotation.unplaced = annotations'.map Annotation.unplaced) :
    link.Lockstep Anywhere .any bound Built (behindBracket grammar (bound.1 + 1) annotations)
      (behindBracket grammar' (bound.2 + 1) annotations') := by
  have fits : bound ≤ bound + 1 := le_self_add
  refine parse_any_alike.loose.seq rfl fun trigger trigger' called => ?_
  refine .past (by decide) ?_
  refine parse_any_alike.loose.seq rfl fun name name' named => ?_
  refine .past (by decide) ?_
  refine (parse_signature_alike fits).seq rfl fun signature signature' same => ?_
  refine (Stmt.parse_sequence_alike shared (Stmt.parse_alike shared unbroken le_rfl) fits).map rfl
    fun body body' same' _ _ => ?_
  simp only [Alike, unplaced, alike, called, named, same.1, same.2, same']

variable (unannotated : link.Unannotated)

include unannotated

theorem form_sure (begins : kind ∈ [TokenKind.leftBracket, .hash]) :
    link.Lockstep (At kind) .always (bound + 1) Built (form grammar (bound.1 + 1))
      (form grammar' (bound.2 + 1)) := by
  by_cases hash : kind = .hash
  · subst hash
    by_cases closed : link.IsOpen
    · intro range steady cursor cursor' linked known
      rcases linked.active with ⟨shut, -⟩ | border
      · exact absurd closed shut
      · exact absurd known.1 (unannotated border)
    · refine annotated_alike le_rfl fun annotations annotations' alike => ?_
      refine (Lockstep.expect_of .leftBracket nofun fun is_open => absurd is_open closed).loose.seq
        rfl fun _ _ _ => ?_
      exact behind_bracket_alike shared unbroken alike
  · obtain rfl : kind = .leftBracket := by simpa [hash] using begins
    refine unannotated_alike nofun (Lockstep.expect_ahead (Lockstep.take nofun fun _ _ _ _ => ?_))
    exact behind_bracket_alike shared unbroken rfl

theorem parse_sure (begins : kind ∈ [TokenKind.leftBracket, .hash]) :
    link.Lockstep (At kind) .always (bound + 1) Alike (parse grammar (bound.1 + 1))
      (parse grammar' (bound.2 + 1)) :=
  (form_sure shared unbroken unannotated begins).ranged.sure fun _ _ alike => .found (alike.1 _ _)

theorem parse_alike : link.Lockstep Together .found (bound + 1) Alike (parse grammar (bound.1 + 1))
      (parse grammar' (bound.2 + 1)) := by
  refine .together fun kind => ?_
  by_cases begins : kind ∈ [TokenKind.leftBracket, .hash]
  · exact (parse_sure shared unbroken unannotated begins).at_pace le_rfl (Nat.zero_le _)
  · have hash : kind ≠ .hash := fun same => begins (by simp [same])
    have bracket : kind ≠ .leftBracket := fun same => begins (by simp [same])
    have refused : link.Lockstep (At kind) .found (bound + 1) Built (form grammar (bound.1 + 1))
        (form grammar' (bound.2 + 1)) := unannotated_alike hash (Lockstep.expect_refused bracket)
    exact refused.ranged.map rfl fun _ _ alike => alike.1 _ _

end

/-- Nothing but a bracket or an annotation begins a script. -/
theorem parse_refuses (grammar : Grammar) (bound : Nat) :
    Refuses [.leftBracket, .hash] (parse grammar (bound + 1)) := by
  refine refuses_ranged fun cursor refused => ?_
  have hash : cursor.head.kind ≠ .hash := fun same => refused (by simp [same])
  have bracket : cursor.head.kind ≠ .leftBracket := fun same => refused (by simp [same])
  refine ⟨⟨.grammar (.expectedToken .leftBracket cursor.head.kind), cursor.head.span⟩, ?_⟩
  change form grammar (bound + 1) cursor = _
  rw [form, annotations_bind]
  refine (kind_ahead_bind 0 _).trans ?_
  rw [if_neg (by exact hash), expect_apply, head_fill, if_neg bracket, fill_fill, fill_fill]

end Script

/-! ### Configurations -/

namespace ConfigValue

def Formed (form form' : ValueForm) : Prop := form.unplaced = form'.unplaced

theorem parse_missing_alike : link.Repeats heads .any room Formed parseMissing := by
  have reported : ∀ token token', link.Tokens token token' ∨ link.IsOpen →
    link.Lockstep Anywhere .any room Formed
        (report .expectingPropertyValue token.span >>= fun _ => pure .error)
        (report .expectingPropertyValue token'.span >>= fun _ => pure .error) := by
    intro token token' met
    have fault : link.Faults ⟨.grammar .expectingPropertyValue, token.span⟩
        ⟨.grammar .expectingPropertyValue, token'.span⟩ :=
        met.elim (fun tokens => tokens.places.fault _) .inr
    exact (Lockstep.report fault).map rfl fun _ _ _ => rfl
  refine .kind (fun kind _ => ?_) fun _ _ => Lockstep.peek reported
  cases kind with
  | leftBracket | eof => exact .peek reported
  | _ => exact .take_within nofun fun token token' tokens _ => reported token token' (.inl tokens)

theorem constant_alike :
    link.Repeats (At .caret) .any room Formed (kindAhead 1 >>= fun behind =>
        if behind = .identifier then take >>= fun _ => take >>= fun token =>
          pure (.constant (ofToken token))
        else parseMissing) := by
  intro range steady cursor cursor' linked known light
  obtain ⟨filled, advance⟩ := linked.fill 1
  have light : Light room (cursor.fill 1) (cursor'.fill 1) := light.after advance le_rfl
  have caret : cursor.head.kind ≠ .eof := by
    rw [known.1]
    decide
  have caret' : cursor'.head.kind ≠ .eof := by
    rw [known.2]
    decide
  have goes_on : ∀ before < 1, (cursor.stream.active.sight before).kind ≠ .eof := by
    intro before first
    obtain rfl := Nat.lt_one_iff.mp first
    exact caret
  have behind := linked.active.heads_at goes_on
  rw [kind_ahead_bind, kind_ahead_bind]
  suffices ends : link.Ends range .any Formed (cursor.fill 1) (cursor'.fill 1) _ _ from
    ends.after advance (Nat.zero_le _) (Nat.zero_le _)
  by_cases named : (cursor.stream.active.sight 1).kind = .identifier
  · have second := behind.resolve_right fun apart => by cases named.symm.trans apart.2.1
    have named' := second.kind.trans named
    have tokens : link.Tokens (cursor.fill 1).head (cursor'.fill 1).head := by
      simpa using linked.tokens (known.1.trans known.2.symm)
    obtain ⟨after, further, -⟩ := filled.taken steady tokens (by simpa using caret)
    have ahead : At .identifier (cursor.fill 1).taken.head.kind
      (cursor'.fill 1).taken.head.kind := by
      rw [Cursor.head, Cursor.head, Cursor.sight_taken caret, Cursor.sight_taken caret']
      exact ⟨named, named'⟩
    have constant : link.Repeats (At .identifier) .any room Formed
        (take >>= fun token => pure (.constant (ofToken token))) :=
      Lockstep.take_within (by decide) fun _ _ tokens _ =>
        .found (congrArg ValueForm.constant (alike_of_tokens tokens))
    rw [if_pos named, if_pos named', bind_apply, bind_apply, take_apply, take_apply]
    have ends := constant steady after ahead (light.after further le_self_add)
    exact ends.after further (Nat.zero_le _) (Nat.zero_le _)
  · have named' : (cursor'.stream.active.sight 1).kind ≠ .identifier := by
      rcases behind with tokens | ⟨-, -, bracket⟩
      · rwa [tokens.kind]
      · rw [bracket]
        decide
    have known : At .caret (cursor.fill 1).head.kind (cursor'.fill 1).head.kind := by
      simpa using known
    rw [if_neg named, if_neg named']
    exact parse_missing_alike steady filled known light

theorem parse_form_alike : link.Repeats heads .any room Formed parseForm := by
  refine .kind (fun kind _ => ?_) fun _ _ => parse_missing_alike
  cases kind with
  | string | bool =>
    refine .take_within (by decide) fun token token' tokens _ => ?_
    rw [tokens.text]
    exact .found rfl
  | integer | long | coordgrid | type =>
    refine .take_within (by decide) fun token token' tokens _ => ?_
    obtain ⟨number, long, coordinate, prim⟩ := tokens.denotes
    simp only [number, long, coordinate, prim]
    exact .or_report tokens.places (fun _ => rfl) rfl
  | identifier =>
    refine .take_within (by decide) fun token token' tokens _ => .found ?_
    exact congrArg ValueForm.reference (alike_of_tokens tokens)
  | error => exact .take_within (by decide) fun _ _ _ _ => .found rfl
  | caret => exact constant_alike
  | _ => exact parse_missing_alike

theorem parse_alike :
    link.Repeats heads .any room (fun value value' => value.unplaced = value'.unplaced) parse := by
  refine parse_form_alike.ranged.map rfl fun value value' alike => ?_
  exact congrArg (fun form => (⟨form, Span.empty⟩ : ConfigValue)) alike.1

end ConfigValue

namespace Config

theorem name_ahead_alike : link.Repeats heads .any room Eq nameAhead :=
  Lockstep.asks (fun _ => rfl) fun _ => rfl

theorem parse_name_alike : link.Repeats heads .found room Ident.Alike parseName :=
  spelled_alike ⟨rfl, rfl⟩

variable (fits : room ≤ bound)

include fits

theorem parse_property_alike :
    link.Lockstep heads .found room (fun value value' => value.unplaced = value'.unplaced)
    (parseProperty bound.1)
      (parseProperty bound.2) := by
  refine .map rfl (Lockstep.ranged (parse_name_alike.follow rfl fun key key' named =>
    .past (by decide)
      (?_ : link.Lockstep Anywhere .any room (fun value value' : Ident × List ConfigValue =>
      value.1.Alike value'.1 ∧ value.2.map ConfigValue.unplaced = value'.2.map ConfigValue.unplaced)
        _ _)))
    fun value value' alike => ?_
  · refine (Lockstep.separated rfl (fun _ _ _ => trivial) (fun _ => ConfigValue.parse_alike) fits
      0).map rfl
      fun values values' alike => ⟨named, map_eq_of_forall₂ alike⟩
  · simp only [Property.unplaced, alike.1.1, alike.1.2]

/-- A configuration behind its first bracket. -/
def Headed (value value' : Ident × List Property) : Prop :=
  value.1.Alike value'.1 ∧ value.2.map Property.unplaced = value'.2.map Property.unplaced

theorem behind_bracket_alike :
    link.Lockstep Anywhere .any room Headed
      (parseName >>= fun name => Parse.expect .rightBracket >>= fun _ =>
        Parse.many nameAhead (parseProperty bound.1) bound.1 >>= fun properties =>
          pure (name, properties))
      (parseName >>= fun name => Parse.expect .rightBracket >>= fun _ =>
        Parse.many nameAhead (parseProperty bound.2) bound.2 >>= fun properties =>
          pure (name, properties)) := by
  refine parse_name_alike.loose.seq rfl fun name name' named => ?_
  refine .past (by decide) ?_
  exact (Lockstep.many name_ahead_alike (parse_property_alike fits) fits).map rfl
    fun properties properties' alike => ⟨named, map_eq_of_forall₂ alike⟩

omit fits

theorem parse_sure :
    link.Lockstep (At .leftBracket) .always (bound + 1) Config.Alike (parse (bound.1 + 1))
    (parse (bound.2 + 1)) := by
  have form : link.Lockstep (At .leftBracket) .always (bound + 1) Headed _ _ :=
    Lockstep.expect_ahead (Lockstep.take nofun fun _ _ _ _ =>
      behind_bracket_alike (le_self_add : bound ≤ bound + 1))
  refine form.ranged.sure fun value value' alike => .found ?_
  simp only [Config.Alike, Config.unplaced, alike.1.1, alike.1.2]

theorem parse_alike : link.Lockstep Together .found (bound + 1) Config.Alike (parse (bound.1 + 1))
    (parse (bound.2 + 1)) := by
  refine .together fun kind => ?_
  by_cases begins : kind = .leftBracket
  · subst begins
    exact parse_sure.at_pace le_rfl (Nat.zero_le _)
  · refine .map rfl (Lockstep.ranged
      (?_ : link.Lockstep (At kind) .found (bound + 1) (fun _ _ => False) _ _)) fun _ _ alike =>
      alike.1.elim
    exact .expect_refused begins

theorem parse_refuses (bound : Nat) : Refuses [.leftBracket] (parse bound) := by
  refine refuses_ranged fun cursor refused => ?_
  refine ⟨⟨.grammar (.expectedToken .leftBracket cursor.head.kind), cursor.head.span⟩, ?_⟩
  rw [expect_apply, if_neg (by simpa using refused), fill_fill]

end Config

/-! ### Files -/

theorem weight_lt_rounds (vocabulary : Vocabulary) (source : String) :
    (start (TokenStream.ofText vocabulary source)).weight + 1 < enoughRounds source := by
  have weight : (start (TokenStream.ofText vocabulary source)).weight =
      2 * (source.utf8ByteSize - Placed.offsetOr source.utf8ByteSize
        ((Placed.ofText source).filter fun placed => placed.char ≠ '\r')) := Nat.zero_add _
  rw [weight, enoughRounds]
  omega

theorem Link.unbroken_of_closed (closed : ¬ link.IsOpen) : link.Unbroken := by
  intro lane other linked comma _
  rcases (linked.take (comma ▸ nofun)).heads with tokens | ⟨is_open, -⟩
  · exact tokens.kind.symm
  · exact absurd is_open closed

theorem Link.faults_of_closed (closed : ¬ link.IsOpen) (same : Forall₂ link.Faults faults faults') :
    faults' = faults.map (move link.move) ∧ ∀ fault ∈ faults, link.keeps fault.span.start := by
  induction same with
  | nil => exact ⟨rfl, forall_mem_nil _⟩
  | @cons fault fault' faults faults' here _ ih =>
    obtain ⟨places, cause⟩ := here.resolve_right closed
    obtain ⟨rfl, kept⟩ := ih
    refine ⟨?_, forall_mem_cons.mpr ⟨places.1.1, kept⟩⟩
    obtain ⟨cause', span'⟩ := fault'
    rw [map_cons, move, ← places.2, ← cause]

theorem Diagnostic.sorted_move (relocation : Relocation)
    (kept : ∀ fault ∈ faults, relocation.keeps fault.span.start) :
    sorted (faults.map (move relocation.move)) = (sorted faults).map (move relocation.move) := by
  refine (map_mergeSort fun first left second right => ?_).symm
  refine decide_eq_decide.mpr ⟨relocation.mono (kept first left), fun le => ?_⟩
  by_contra lt
  have := relocation.strict (kept second right) (Nat.lt_of_not_le lt)
  exact Nat.not_le_of_lt this le

theorem Cursor.finish_eq {cursor : Cursor} (alone : cursor.stream.suspended = []) :
    cursor.finish = sorted
      (sorted (cursor.stream.faults ++ cursor.stream.active.scanner.faults) ++ cursor.faults) := by
  simp only [finish, TokenStream.takeFaults, alone, reverse_nil, flatMap_nil, append_nil]

theorem Cursor.finish_move (closed : ¬ link.IsOpen)
    (linked : link.Cursors link.Ranges cursor cursor')
    (advance : link.Advance 0 (start (.ofScanner scanner)) (start (.ofScanner scanner')) cursor
      cursor') :
    cursor'.finish = cursor.finish.map (move link.move) := by
  obtain ⟨new, new', added, added', same⟩ := advance.closed
  obtain ⟨more, more', reported, reported', same'⟩ := advance.reported
  have noted : Forall₂ link.Faults (new ++ cursor.stream.active.scanner.faults)
      (new' ++ cursor'.stream.active.scanner.faults) := rel_append same linked.active.faults
  obtain ⟨moved, kept⟩ := faults_of_closed closed noted
  obtain ⟨moved', kept'⟩ := faults_of_closed closed same'
  have inside : ∀ fault ∈ sorted (new ++ cursor.stream.active.scanner.faults) ++ more,
    link.keeps fault.span.start := by
    refine forall_mem_append.mpr ⟨fun fault member => kept fault ?_, kept'⟩
    exact mem_mergeSort.mp member
  rw [finish_eq advance.left.suspended, finish_eq advance.right.suspended, added, added', reported,
    reported']
  change sorted (sorted (new' ++ _) ++ more') = (sorted (sorted (new ++ _) ++ more)).map _
  rw [moved, moved', sorted_move link.toRelocation kept, ← map_append,
    sorted_move link.toRelocation inside]

/-- Where there is no border, the same scripts are read, and the same faults at other places. -/
theorem Grammar.scripts_alike (closed : ¬ link.IsOpen) (shared : link.Shares grammar grammar')
    (lanes : link.Lanes grammar.start.stream.active grammar'.start.stream.active) :
    grammar'.scripts.1.map Script.unplaced = grammar.scripts.1.map Script.unplaced ∧
      grammar'.scripts.2 = grammar.scripts.2.map (move link.move) := by
  have unbroken : link.Unbroken := unbroken_of_closed closed
  have unannotated : link.Unannotated := fun border => absurd ⟨_, _, border⟩ closed
  have linked : link.Cursors link.Ranges grammar.start grammar'.start := ⟨lanes, ranges_empty⟩
  have enough : Light (enoughRounds grammar.source, enoughRounds grammar'.source) grammar.start
    grammar'.start :=
    ⟨Nat.lt_of_succ_lt (weight_lt_rounds ..), Nat.lt_of_succ_lt (weight_lt_rounds ..)⟩
  obtain ⟨bound, rounds⟩ := enough.exists_eq_add
  have first : enoughRounds grammar.source = bound.1 + 1 := congrArg Prod.fst rounds
  have second : enoughRounds grammar'.source = bound.2 + 1 := congrArg Prod.snd rounds
  rw [rounds] at enough
  obtain ⟨scripts, behind, scripts', behind', left, read, read', alike, ends, advance, finished,
    held, some_left⟩ :=
    declarations_alike (fun kind begins => parse_sure shared unbroken unannotated begins)
      (parse_refuses grammar bound.1) (parse_refuses grammar' bound.2)
      (fun is_open => absurd is_open closed)
      linked enough enough (parse_alike shared unbroken unannotated) enough
  simp only [Prod.fst_add, Prod.snd_add, Prod.fst_one, Prod.snd_one] at read read'
  have finished' : behind'.head.kind = .eof := by
    rcases ends.heads with tokens | ⟨is_open, -⟩
    · exact tokens.kind.trans finished
    · exact absurd is_open closed
  obtain ⟨left, rfl⟩ := Nat.exists_eq_add_one_of_ne_zero (Nat.ne_zero_of_lt some_left)
  rw [declarations_finished finished', held, prepend, append_nil] at read'
  have all : grammar.scripts = (scripts, behind.finish) := by
    rw [Grammar.scripts, first, parseFile, read]
  have all' : grammar'.scripts = (scripts', behind'.finish) := by
    rw [Grammar.scripts, second, parseFile, read']
  rw [all, all']
  exact ⟨(map_eq_of_forall₂ alike).symm, finish_move closed ends advance⟩

end TriggerScript
