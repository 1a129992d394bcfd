import TriggerScript.Compiler.Basic
import TriggerScript.Proofs.Printing.Reading

/-!
Reading what was printed.

An expression that is printed and read again is the same, places apart. Reading goes down the levels
of operators, so the proof does as well: `Operand` says that an operand is read at a level,
`Gathers` that a row of operands of one level is read as far as a certain expression. The second
carries operators that group to the left.
-/

namespace TriggerScript

open List Operator

variable {operator : Operator} {span : Span} {left : List Lexeme} {args : List Expr} {bound : Nat}

/-! ### Numbers -/

namespace Numeral

theorem digits_eq (digits : ∀ char ∈ chars, char.isDigit = true) (value : Nat) :
    digits? 10 decimalDigit? chars value = some (Nat.ofDigitChars 10 chars value) := by
  induction chars generalizing value with
  | nil => rfl
  | cons char chars ih =>
    have first : decimalDigit? char = some (char.toNat - '0'.toNat) :=
      if_pos (digits char mem_cons_self)
    rw [digits?, first, Nat.ofDigitChars_cons]
    exact ih (fun char member => digits char (mem_cons_of_mem _ member)) _

theorem decimal_repr (value : Nat) : decimal? value.repr.toList = some value := by
  rw [decimal?, if_neg (by simp), digits_eq (Word.digits_of_repr value).2, Nat.toList_repr,
    Nat.ofDigitChars_toDigits (by decide) (by decide)]

theorem signed_repr (value : Int) : signed? value.repr.toList = some value := by
  cases value with
  | ofNat value =>
    have digits := (Word.digits_of_repr value).2
    have whole : signed? value.repr.toList = (decimal? value.repr.toList).map fun value =>
      (value : Int) := by
      unfold signed?
      split
      · rename_i split
        rw [split] at digits
        cases digits '-' mem_cons_self
      · rename_i split
        rw [split] at digits
        cases digits '+' mem_cons_self
      · rfl
    exact whole.trans (by rw [decimal_repr]; rfl)
  | negSucc value =>
    have split : (Int.negSucc value).repr.toList = '-' :: (value + 1).repr.toList := by
      simp [Int.repr]
    rw [split, signed?, decimal_repr]
    rfl

theorem not_hexadecimal {value : Int} {mark : Char} (unmarked : mark.isDigit = false) :
    value.repr.toList ≠ '0' :: mark :: digits := by
  intro same
  have sign : Scanner.signStartsNumber .eof = true := rfl
  obtain ⟨first, more, split, numeral⟩ := Word.numeral_of_repr value sign
  obtain ⟨-, rfl⟩ := List.cons.inj (split.symm.trans same)
  have digit := numeral.digits mark mem_cons_self
  rw [unmarked] at digit
  cases digit

end Numeral

theorem int32_repr (value : Int32) : int32? value.toInt.repr.toList = some value := by
  unfold int32?
  split
  · rename_i same
    exact absurd same (Numeral.not_hexadecimal rfl)
  · rename_i same
    exact absurd same (Numeral.not_hexadecimal rfl)
  · have inside :=
      Bool.and_eq_true_iff.mpr ⟨decide_eq_true value.minValue_le_toInt,
        decide_eq_true value.toInt_le⟩
    rw [decimal32?, Numeral.signed_repr, Option.bind_some, if_pos inside, Int32.ofInt_toInt]

theorem int64_repr (value : Int64) : int64? value.toInt.repr.toList = some value := by
  unfold int64?
  split
  · rename_i same
    exact absurd same (Numeral.not_hexadecimal rfl)
  · rename_i same
    exact absurd same (Numeral.not_hexadecimal rfl)
  · have inside :=
      Bool.and_eq_true_iff.mpr ⟨decide_eq_true value.minValue_le_toInt,
        decide_eq_true value.toInt_le⟩
    rw [decimal64?, Numeral.signed_repr, Option.bind_some, if_pos inside, Int64.ofInt_toInt]

/-! ### Levels -/

namespace Operator

theorem level_lt (operator : Operator) : operator.level < levels.length := by
  cases operator <;> decide

theorem token_injective {other : Operator} (same : operator.token = other.token) :
    operator = other := by
  cases operator <;> cases other <;> first | rfl | cases same

theorem drop_levels (lt : tightness < levels.length) :
    levels.drop tightness = levels.getD tightness [] :: levels.drop (tightness + 1) := by
  rw [drop_eq_getElem_cons lt, getD_eq_getElem?_getD, getElem?_eq_getElem lt, Option.getD_some]

theorem level_of_mem (member : operator ∈ levels.getD tightness []) :
    operator.level = tightness := by
  have each : ∀ tightness < levels.length, ∀ operator ∈ levels.getD tightness [],
    operator.level = tightness := by decide
  by_cases lt : tightness < levels.length
  · exact each tightness lt operator member
  · rw [getD_eq_getElem?_getD, getElem?_eq_none (by omega)] at member
    cases member

theorem of_token {inCalc : Bool} (allowed : operator.isArithmetic → inCalc) :
    ofToken? inCalc (levels.getD operator.level []) operator.token = some operator := by
  cases operator <;> cases inCalc <;> first | rfl | cases allowed rfl

end Operator

/-- A token that neither an operator of a level, or of a tighter one, nor an argument begins
with. -/
def Closes (tightness : Nat) (kind : TokenKind) : Prop :=
  kind ≠ .leftParen ∧ ∀ operator : Operator, tightness ≤ operator.level → operator.token ≠ kind

namespace Closes

theorem of_mem (member : kind ∈ [TokenKind.rightParen, .comma, .eof]) : Closes tightness kind := by
  have closing : ∀ kind ∈ [TokenKind.rightParen, .comma, .eof], kind ≠ .leftParen := by decide
  refine ⟨closing kind member, fun operator _ => ?_⟩
  rintro rfl
  cases operator <;> revert member <;> decide

theorem of_operator (looser : operator.level < tightness) : Closes tightness operator.token := by
  refine ⟨by cases operator <;> decide, fun other tight same => ?_⟩
  rw [token_injective same] at tight
  omega

theorem tighter (closes : Closes tightness kind) : Closes (tightness + 1) kind :=
  ⟨closes.1, fun operator tight => closes.2 operator (by omega)⟩

theorem of_token (closes : Closes tightness kind) (inCalc : Bool) :
    ofToken? inCalc (levels.getD tightness []) kind = none := by
  refine find?_eq_none.mpr fun operator member => ?_
  simp [closes.2 operator (Nat.le_of_eq (level_of_mem member).symm)]

end Closes

namespace Expr

/-- The tokens of an expression as an operand of a level. -/
def shown (tightness : Nat) (expr : Expr) : List Lexeme :=
  if expr.level < tightness then parens expr.lexemes else expr.lexemes

/-- Read an expression of a level or of a tighter one. -/
def reader (grammar : Grammar) (inCalc : Bool) (bound tightness : Nat) : Parse Expr :=
  operation inCalc bound (primary grammar (parse grammar bound) inCalc bound)
    (Operator.levels.drop tightness)

theorem parens_append (given left : List Lexeme) :
    parens given ++ left = (.leftParen, "(") :: (given ++ (.rightParen, ")") :: left) := by
  simp [parens]

theorem length_parens (given : List Lexeme) : (parens given).length = given.length + 2 := by
  simp [parens]

section Levels

variable {grammar : Grammar} {inCalc : Bool} {bound tightness : Nat} {expr : Expr}

theorem reader_eq (lt : tightness < levels.length) :
    reader grammar inCalc bound tightness = reader grammar inCalc bound
      (tightness + 1) >>= fun left =>
      operands inCalc (levels.getD tightness [])
        (reader grammar inCalc bound (tightness + 1)) left bound := by
  rw [reader, drop_levels lt]
  rfl

theorem shown_of_le (tight : tightness ≤ expr.level) : expr.shown tightness = expr.lexemes :=
  if_neg (Nat.not_lt.mpr tight)

theorem shown_succ (other : expr.level ≠ tightness) :
    expr.shown (tightness + 1) = expr.shown tightness := by
  have same : expr.level < tightness + 1 ↔ expr.level < tightness := by omega
  simp only [shown, same]

theorem lexemes_binary (note : Note) (operator : Operator) (left right : Expr) :
    (Expr.binary note operator left right).lexemes =
      left.shown operator.level ++ (operator.token, operator.symbol) :: right.shown
        (operator.level + 1) := by
  simp only [lexemes, shown, Nat.lt_succ_iff]

variable (grammar inCalc)

/-- An operand of a level is read where no operator of the level follows. -/
def Operand (tightness : Nat) (expr : Expr) : Prop :=
  ∀ (bound : Nat) (left : List Lexeme), (expr.shown tightness).length ≤ bound →
    Closes tightness (Lexeme.ahead left 0) →
    (reader grammar inCalc bound tightness).Reads (expr.shown tightness ++ left) left fun tree =>
      tree.Alike expr

/-- Reading at a level comes to a point where an operand of the level was read, or a row of
operands. -/
def Gathers (tightness : Nat) (expr : Expr) : Prop :=
  ∀ (bound : Nat) (left : List Lexeme) (cursor : Cursor), (expr.shown tightness).length ≤ bound →
    Closes (tightness + 1) (Lexeme.ahead left 0) → cursor.Shows (expr.shown tightness ++ left) →
    ∃ tree behind used, reader grammar inCalc bound tightness cursor =
        operands inCalc (Operator.levels.getD tightness [])
          (reader grammar inCalc bound (tightness + 1)) tree
          (bound - used) behind ∧
      behind.Shows left ∧ tree.Alike expr ∧ used < (expr.shown tightness).length

variable {grammar inCalc}

theorem Operand.gathers (operand : Operand grammar inCalc (tightness + 1) expr)
    (lt : tightness < levels.length) (other : expr.level ≠ tightness)
    (filled : expr.shown tightness ≠ []) : Gathers grammar inCalc tightness expr := by
  intro bound left cursor enough closes shows
  rw [← shown_succ other] at enough shows
  obtain ⟨tree, behind, ran, shows, alike⟩ := operand bound left enough closes cursor shows
  refine ⟨tree, behind, 0, ?_, shows, alike, length_pos_iff.mpr filled⟩
  rw [reader_eq lt, Parse.bind_apply, ran]
  rfl

theorem Gathers.operand (gathers : Gathers grammar inCalc tightness expr) :
    Operand grammar inCalc tightness expr := by
  intro bound left enough closes cursor shows
  obtain ⟨tree, behind, used, ran, shows, alike, fewer⟩ :=
    gathers bound left cursor enough closes.tighter shows
  obtain ⟨more, rest⟩ : ∃ more, bound - used = more + 1 := ⟨bound - used - 1, by omega⟩
  have ends :
    (operands inCalc (levels.getD tightness []) (reader grammar inCalc bound (tightness + 1)) tree
      (bound - used)).Reads left left fun tree => tree.Alike expr := by
    rw [rest]
    refine .kind_ahead ?_
    rw [closes.of_token]
    exact .found alike
  rw [ran]
  exact ends behind shows

theorem Gathers.binary {left right : Expr} (allowed : operator.isArithmetic → inCalc)
    (first : Gathers grammar inCalc operator.level left)
    (second : Operand grammar inCalc (operator.level + 1) right) :
    Gathers grammar inCalc operator.level (.binary (.ofSpan span) operator left right) := by
  intro bound rest cursor enough closes shows
  have whole :=
    (shown_of_le (Nat.le_refl operator.level)).trans
      (lexemes_binary (.ofSpan span) operator left right)
  rw [whole, length_append, length_cons] at enough ⊢
  rw [whole, append_assoc, cons_append] at shows
  obtain ⟨tree, behind, used, ran, shows, alike, fewer⟩ := first bound _ cursor (by omega)
    (Closes.of_operator (Nat.lt_succ_self _)) shows
  have unfinished : operator.token ≠ .eof := by cases operator <;> decide
  obtain ⟨tree', behind', ran', shows', alike'⟩ := second bound rest (by omega) closes _
    ((shows.fill 0).taken unfinished)
  have rounds : bound - used = bound - (used + 1) + 1 := by omega
  refine ⟨combine operator tree tree', behind', used + 1, ?_, shows', ?_, by omega⟩
  · rw [ran, rounds, operands]
    refine (Parse.kind_ahead_bind 0 _).trans ?_
    rw [shows.kind]
    simp only [Lexeme.ahead, List.getD_cons_zero, Operator.of_token allowed]
    rw [Parse.bind_apply, Parse.take_apply]
    simp only
    rw [Parse.bind_apply, ran']
  · rw [Alike, combine, unplaced, unplaced, alike, alike']
    rfl

theorem shown_ne_nil (filled : expr.lexemes ≠ []) : expr.shown tightness ≠ [] := by
  rw [shown]
  split
  · exact cons_ne_nil _ _
  · exact filled

/-- An operand of a tight level is one of a looser level, unless it is a row of operands between
them. -/
theorem Operand.looser (operand : Operand grammar inCalc tightness expr)
    (filled : expr.lexemes ≠ []) (bounded : tightness ≤ levels.length) (le : loose ≤ tightness)
    (apart : ∀ level, loose ≤ level → level < tightness → expr.level ≠ level) :
    Operand grammar inCalc loose expr := by
  obtain ⟨steps, rfl⟩ := Nat.exists_eq_add_of_le le
  induction steps generalizing loose with
  | zero => exact operand
  | succ steps ih =>
    rw [Nat.add_succ, ← Nat.succ_add] at operand
    have tighter : Operand grammar inCalc (loose + 1) expr :=
      ih operand (by omega) (by omega) fun level above below => apart level (by omega) (by omega)
    exact (tighter.gathers (by omega) (apart loose le_rfl (by omega)) (shown_ne_nil filled)).operand

variable (grammar inCalc)

/-- An expression is read from its tokens. -/
def ReadsBack (expr : Expr) : Prop :=
  ∀ (bound : Nat) (left : List Lexeme), expr.lexemes.length < bound →
    Closes 0 (Lexeme.ahead left 0) → (parse grammar bound inCalc).Reads (expr.lexemes ++ left) left
      fun tree => tree.Alike expr

variable {grammar inCalc}

theorem Operand.reads_back (operand : Operand grammar inCalc 0 expr) :
    ReadsBack grammar inCalc expr := by
  intro bound left enough closes
  obtain ⟨fewer, rfl⟩ : ∃ fewer, bound = fewer + 1 := ⟨bound - 1, by omega⟩
  have read := operand fewer left
  rw [shown_of_le (Nat.zero_le _)] at read
  exact read (by omega) closes

theorem ReadsBack.parenthesized (reads_back : ReadsBack grammar inCalc expr)
    (enough : expr.lexemes.length < bound) :
    (parenthesized (parse grammar bound inCalc)).Reads (parens expr.lexemes ++ left) left
      fun tree => tree.Alike expr := by
  rw [parens_append]
  refine .expect (by decide) fun _ _ => ?_
  refine .bind (reads_back bound _ enough (.of_mem mem_cons_self)) fun tree alike => ?_
  exact .expect (by decide) fun _ _ => .found alike

theorem ReadsBack.enclosed (reads_back : ReadsBack grammar inCalc expr)
    (loose : expr.level < levels.length) : Operand grammar inCalc levels.length expr := by
  intro bound left enough closes
  have shown : expr.shown levels.length = parens expr.lexemes := if_pos loose
  rw [shown, length_parens] at enough
  rw [shown]
  refine .kind_ahead ?_
  exact reads_back.parenthesized (by omega)

variable (grammar inCalc)

/-- An expression is read wherever it stands as an operand. -/
structure Readable (expr : Expr) : Prop where
  operand : ∀ level ≤ Operator.levels.length, Operand grammar inCalc level expr
  gathers : ∀ level < Operator.levels.length, Gathers grammar inCalc level expr

variable {grammar inCalc}

theorem Readable.reads_back (readable : Readable grammar inCalc expr) :
    ReadsBack grammar inCalc expr :=
  (readable.operand 0 (Nat.zero_le _)).reads_back

theorem Readable.of_tightest (tightest : expr.level = levels.length) (filled : expr.lexemes ≠ [])
    (operand : Operand grammar inCalc levels.length expr) : Readable grammar inCalc expr := by
  have each : ∀ level ≤ levels.length, Operand grammar inCalc level expr := fun level le =>
    operand.looser filled le_rfl le fun other _ lt => by omega
  exact ⟨each, fun level lt => (each (level + 1) lt).gathers lt (by omega) (shown_ne_nil filled)⟩

/-- A binary expression is a row of operands at the level of its operator, an operand of looser
levels, and in parentheses one of tighter levels. -/
theorem Readable.binary {left right : Expr} (allowed : operator.isArithmetic → inCalc)
    (first : Readable grammar inCalc left) (second : Readable grammar inCalc right) :
    Readable grammar inCalc (.binary (.ofSpan span) operator left right) := by
  have lt := operator.level_lt
  have row : Gathers grammar inCalc operator.level (.binary (.ofSpan span) operator left right) :=
    .binary allowed (first.gathers _ lt) (second.operand _ lt)
  have filled : (Expr.binary (.ofSpan span) operator left right).lexemes ≠ [] := by
    simp [lexemes_binary]
  have loose : ∀ level ≤ operator.level,
    Operand grammar inCalc level (.binary (.ofSpan span) operator left right) :=
    fun level le => row.operand.looser filled (Nat.le_of_lt lt) le fun other _ below =>
      Nat.ne_of_gt below
  have tightest := ((loose 0 (Nat.zero_le _)).reads_back).enclosed lt
  have tight : ∀ level ≤ levels.length, operator.level < level →
      Operand grammar inCalc level (.binary (.ofSpan span) operator left right) :=
        fun level le above =>
    tightest.looser filled le_rfl le fun other lower _ =>
      Nat.ne_of_lt (Nat.lt_of_lt_of_le above lower)
  have each : ∀ level ≤ levels.length,
      Operand grammar inCalc level (.binary (.ofSpan span) operator left right) := fun level le =>
    (Nat.lt_or_ge operator.level level).elim (tight level le) (loose level)
  refine ⟨each, fun level below => ?_⟩
  by_cases same : operator.level = level
  · exact same ▸ row
  · exact (each (level + 1) below).gathers below same (shown_ne_nil filled)

theorem reads_noted {phrase : Parse (Note → Expr)} {holds : Expr → Prop}
    (reads : phrase.Reads given left fun build => ∀ span, holds (build (.ofSpan span))) :
    (noted phrase).Reads given left holds :=
  .bind reads.ranged fun _ here => .found (here _)

theorem Readable.of_atom (tightest : expr.level = levels.length)
    (split : expr.lexemes = lexeme :: more) (unopened : lexeme.1 ≠ .leftParen)
    (reads : ∀ (bound : Nat) (left : List Lexeme), more.length < bound →
      Lexeme.ahead left 0 ≠ .leftParen →
      (atom grammar (parse grammar bound) inCalc bound).Reads (lexeme :: (more ++ left)) left
        fun build => ∀ span, (build (.ofSpan span)).Alike expr) :
    Readable grammar inCalc expr := by
  refine .of_tightest tightest (by simp [split]) fun bound left enough closes => ?_
  rw [shown_of_le (Nat.le_of_eq tightest.symm), split] at enough ⊢
  refine .kind_ahead ?_
  change Parse.Reads (if lexeme.1 = .leftParen then _ else noted _) _ _ _
  rw [if_neg unopened]
  exact reads_noted (reads bound left enough closes.1)

end Levels

/-! ### Names and arguments -/

section Phrases

variable {grammar : Grammar} {inCalc : Bool} {left : List Lexeme} {name : Ident}

theorem reads_name :
    Ident.parse.Reads ((.identifier, name.text) :: left) left fun found =>
      found.unplaced = name.unplaced :=
  .expect (by simp) fun token text => .found (by rw [Ident.unplaced, Ident.ofToken, text]; rfl)

theorem reads_any_name :
    Ident.parseAny.Reads ((.identifier, name.text) :: left) left fun found =>
      found.unplaced = name.unplaced :=
  .kind_ahead (.take (by simp) fun token _ text =>
    .found (by rw [Ident.unplaced, Ident.ofToken, text]; rfl))

theorem reads_separated (filled : args ≠ [])
    (each : ∀ arg ∈ args, ∀ index left, Closes 0 (Lexeme.ahead left 0) →
      (argument index).Reads (arg.lexemes ++ left) left fun tree => tree.Alike arg)
    (enough : args.length ≤ bound) (index : Nat) :
    (Parse.separated argument index bound).Reads (lexemesAll args ++ (.rightParen, ")") :: left)
      ((.rightParen, ")") :: left) fun trees => unplacedAll trees = unplacedAll args := by
  induction args generalizing bound index with
  | nil => cases filled rfl
  | cons arg rest ih =>
    obtain ⟨fewer, rfl⟩ : ∃ fewer, bound = fewer + 1 :=
      ⟨bound - 1, by rw [length_cons] at enough; omega⟩
    have first := each arg mem_cons_self index
    obtain _ | ⟨next, rest⟩ := rest
    · refine .bind (first _ (.of_mem mem_cons_self)) fun tree alike => ?_
      refine .refuse (by simp [Lexeme.ahead]) (.found ?_)
      rw [unplacedAll, alike]
      rfl
    · have others := ih (cons_ne_nil _ _) (fun arg member => each arg (mem_cons_of_mem _ member))
        (Nat.le_of_succ_le_succ enough) (index + 1)
      rw [lexemesAll, append_assoc, cons_append]
      · refine .bind (first _ (.of_mem (by simp [Lexeme.ahead]))) fun tree alike => ?_
        refine .accept (by decide) ?_
        refine .bind others fun trees alike_rest => .found ?_
        rw [unplacedAll, alike, alike_rest]
        rfl
      · exact cons_ne_nil _ _

theorem reads_arguments (closes : grammar.callTrigger? .rightParen = none)
    (starts : ∀ arg ∈ args, ∃ lexeme more, arg.lexemes = lexeme :: more ∧
      isStart grammar lexeme.1 = true)
    (each : ∀ arg ∈ args, ∀ index left, Closes 0 (Lexeme.ahead left 0) →
      (argument index).Reads (arg.lexemes ++ left) left fun tree => tree.Alike arg)
    (enough : args.length ≤ bound) :
    (arguments grammar argument bound).Reads (parens (lexemesAll args) ++ left) left
      fun trees => unplacedAll trees = unplacedAll args := by
  rw [parens_append]
  refine .accept (by decide) ?_
  have asked : ∀ given, (ahead grammar).Reads given given
    (· = isStart grammar (Lexeme.ahead given 0)) :=
    fun given => .kind_ahead (.found rfl)
  have closed : ∀ trees, unplacedAll trees = unplacedAll args → Parse.Reads (do
      let _ ← Parse.expect .rightParen
      pure trees) ((.rightParen, ")") :: left) left fun trees =>
      unplacedAll trees = unplacedAll args :=
    fun trees alike => .expect (by decide) fun _ _ => .found alike
  refine .bind (asked _) fun _ same => ?_
  subst same
  obtain _ | ⟨arg, rest⟩ := args
  · have none_starts : isStart grammar .rightParen = false := congrArg Option.isSome closes
    have first : Lexeme.ahead (lexemesAll [] ++ (.rightParen, ")") :: left) 0 = .rightParen := rfl
    rw [first, none_starts]
    exact closed [] rfl
  · obtain ⟨lexeme, more, split, start⟩ := starts arg mem_cons_self
    have first : Lexeme.ahead (lexemesAll (arg :: rest) ++ (.rightParen, ")") :: left) 0 =
      lexeme.1 := by
      obtain _ | ⟨next, rest⟩ := rest <;> simp [lexemesAll, split, Lexeme.ahead]
    rw [first, start]
    exact .bind (reads_separated (cons_ne_nil _ _) each enough 0) closed

end Phrases

end Expr

/-- A grammar in which procedures and labels are called and no argument is a hook. -/
structure Grammar.Standard (grammar : Grammar) : Prop where
  calls : ∀ trigger, trigger = "proc" ∨ trigger = "label" →
    grammar.callTrigger? (Expr.callMark trigger).1 = some trigger
  closes : grammar.callTrigger? .rightParen = none
  hookless : ∀ name index, grammar.isHookArgument name index = false

theorem standard_of_tables (source : String) :
    (Grammar.ofTables source .builtin .empty).Standard where
  calls := by
    rintro trigger (rfl | rfl)
    · rfl
    · rfl
  closes := rfl
  hookless name index := rfl

namespace Expr

variable {grammar : Grammar} {inCalc : Bool}

theorem Writable.starts (standard : grammar.Standard) (writable : Writable inCalc expr) :
    ∃ lexeme more, expr.lexemes = lexeme :: more ∧ isStart grammar lexeme.1 = true := by
  induction writable with
  | @command _ _ _ alternative => cases alternative <;> exact ⟨_, _, rfl, rfl⟩
  | call called =>
    have known := congrArg Option.isSome (standard.calls _ called)
    rcases called with rfl | rfl
    · exact ⟨_, _, rfl, known⟩
    · exact ⟨_, _, rfl, known⟩
  | @binary _ _ operator left right _ _ _ first =>
    obtain ⟨lexeme, more, split, start⟩ := first
    rw [lexemes_binary, shown]
    split
    · exact ⟨_, _, rfl, rfl⟩
    · exact ⟨lexeme, _, by rw [split, cons_append], start⟩
  | _ => exact ⟨_, _, rfl, rfl⟩

theorem length_lexemes_all (filled : ∀ arg ∈ args, arg.lexemes ≠ []) :
    args.length ≤ (lexemesAll args).length ∧ ∀ arg ∈ args,
      arg.lexemes.length ≤ (lexemesAll args).length := by
  induction args with
  | nil => exact ⟨le_rfl, fun _ member => nomatch member⟩
  | cons arg rest ih =>
    have first := length_pos_iff.mpr (filled arg mem_cons_self)
    obtain ⟨fewer, each⟩ := ih fun arg member => filled arg (mem_cons_of_mem _ member)
    obtain _ | ⟨next, rest⟩ := rest
    · simp only [lexemesAll, mem_singleton, length_singleton]
      exact ⟨first, fun _ same => same ▸ le_rfl⟩
    · have length : (lexemesAll (arg :: next :: rest)).length =
          arg.lexemes.length + (lexemesAll (next :: rest)).length + 1 := by
        simp [lexemesAll, Nat.add_assoc]
      rw [length, length_cons]
      refine ⟨by omega, fun other member => ?_⟩
      rcases mem_cons.mp member with rfl | member
      · omega
      · have := each other member
        omega

section

variable (standard : grammar.Standard)

include standard

/-- Arguments that can be read, where there are enough rounds for their tokens. -/
theorem reads_readable (writable : ∀ arg ∈ args, Writable inCalc arg)
    (readable : ∀ arg ∈ args, Readable grammar inCalc arg)
    (same : ∀ index, argument index = parse grammar bound inCalc)
    (enough : (lexemesAll args).length < bound) :
    (arguments grammar argument bound).Reads (parens (lexemesAll args) ++ left) left
      fun trees => unplacedAll trees = unplacedAll args := by
  have starts := fun arg member => (writable arg member).starts standard
  have filled : ∀ arg ∈ args, arg.lexemes ≠ [] := fun arg member => by
    obtain ⟨lexeme, more, split, -⟩ := starts arg member
    simp [split]
  obtain ⟨fewer, shorter⟩ := length_lexemes_all filled
  refine reads_arguments standard.closes starts (fun arg member index left closes => ?_) (by omega)
  rw [same]
  exact (readable arg member).reads_back bound left (Nat.lt_of_le_of_lt (shorter arg member) enough)
    closes

theorem Readable.command {name : Ident} {alternative : Bool}
    (writable : ∀ arg ∈ args, Writable inCalc arg)
    (readable : ∀ arg ∈ args, Readable grammar inCalc arg) :
    Readable grammar inCalc (.command (.ofSpan span) name alternative args) := by
  have argument : ∀ (bound : Nat) (name : Ident) (index : Nat),
      commandArgument grammar (parse grammar bound inCalc) bound name index =
      parse grammar bound inCalc := by
    intro bound name index
    rw [commandArgument, standard.hookless]
    rfl
  -- the phrase behind the dot, which is the same where there is none
  have named : ∀ {bound : Nat} {left : List Lexeme}, (lexemesAll args).length < bound →
    Parse.Reads (do
        let name ← Ident.parseAny
        let args ← arguments grammar (commandArgument grammar (parse grammar bound inCalc) bound
          name) bound
        return fun note => Expr.command note name alternative args)
      ((.identifier, name.text) :: (parens (lexemesAll args) ++ left)) left
      fun build => ∀ other, (build (.ofSpan other)).Alike
      (.command (.ofSpan span) name alternative args) := by
    intro bound left enough
    refine .bind reads_any_name fun found same => ?_
    refine .bind (reads_readable standard writable readable (argument bound found) enough)
      fun trees alike => ?_
    refine .found fun other => ?_
    rw [Alike, unplaced, unplaced, same, alike]
    rfl
  cases alternative
  · refine .of_atom rfl rfl (by simp) fun bound left enough apart => ?_
    rw [length_parens] at enough
    refine .kind_ahead (.kind_ahead ?_)
    exact .refuse (by simp [Lexeme.ahead]) (named (by omega))
  · have split : (Expr.command (.ofSpan span) name true args).lexemes =
        (.dot, ".") :: (.identifier, name.text) :: parens (lexemesAll args) := rfl
    refine .of_atom rfl split (by simp) fun bound left enough apart => ?_
    rw [length_cons, length_parens] at enough
    refine .kind_ahead ?_
    exact .accept (by simp) (named (by omega))

theorem Readable.call {trigger : String} {name : Ident}
    (called : trigger = "proc" ∨ trigger = "label") (writable : ∀ arg ∈ args, Writable inCalc arg)
    (readable : ∀ arg ∈ args, Readable grammar inCalc arg) :
    Readable grammar inCalc (.call (.ofSpan span) trigger name args) := by
  have phrase : ∀ {bound : Nat} {left : List Lexeme}, (lexemesAll args).length < bound →
      (callPhrase grammar (parse grammar bound inCalc) bound).Reads
        (callMark trigger :: (.identifier, name.text) :: (parens (lexemesAll args) ++ left)) left
        fun build => ∀ other, (build (.ofSpan other)).Alike
        (.call (.ofSpan span) trigger name args) := by
    intro bound left enough
    refine .take (by rcases called with rfl | rfl <;> decide) fun token kind _ => ?_
    rw [kind, standard.calls trigger called]
    refine .bind reads_any_name fun found same => ?_
    refine .bind (reads_readable standard writable readable (fun _ => rfl) enough)
      fun trees alike => ?_
    refine .found fun other => ?_
    rw [Alike, unplaced, unplaced, same, alike]
    rfl
  refine .of_atom rfl rfl (by rcases called with rfl | rfl <;> decide)
    fun bound left enough apart => ?_
  rw [length_cons, length_parens] at enough
  refine .kind_ahead ?_
  have known : (grammar.callTrigger? (callMark trigger).1).isSome = true := by
    rw [standard.calls trigger called]; rfl
  rcases called with rfl | rfl
  · change Parse.Reads (if (grammar.callTrigger? (callMark "proc").1).isSome =
      true then _ else _) _ _ _
    rw [if_pos known]
    exact phrase (by omega)
  · change Parse.Reads (if (grammar.callTrigger? (callMark "label").1).isSome =
      true then _ else _) _ _ _
    rw [if_pos known]
    exact phrase (by omega)

theorem Writable.readable (writable : Writable inCalc expr) : Readable grammar inCalc expr := by
  induction writable
  case command inner ih => exact .command standard inner ih
  case call called _ inner ih => exact .call standard called inner ih
  case binary allowed _ _ first second => exact .binary allowed first second
  all_goals refine .of_atom rfl rfl (by simp) fun bound left enough apart => ?_
  case bare =>
    refine .kind_ahead (.kind_ahead ?_)
    change Parse.Reads (if Lexeme.ahead left 0 = .leftParen then _ else _) _ _ _
    rw [if_neg apart]
    refine .bind reads_any_name fun name same => .found fun span => ?_
    rw [Alike, unplaced, unplaced, same]
    rfl
  -- the first token says what to read
  all_goals refine .kind_ahead (.take (by simp) fun token kind text => ?_)
  case int value =>
    refine .or_report ?_ fun span => rfl
    rw [Token.int32, text, int32_repr]
    rfl
  case long value =>
    refine .or_report ?_ fun span => rfl
    rw [Token.int64, text, int64_repr]
    rfl
  case text => exact .found fun span => by rw [text]; rfl
  case bool value => exact .found fun span => by rw [text]; cases value <;> rfl
  case null => exact .found fun span => rfl
  case localVar =>
    refine .bind reads_name fun name same => ?_
    refine .refuse apart (.found fun span => ?_)
    rw [Alike, unplaced, unplaced, same]
    rfl
  case arrayElement ih =>
    rw [length_cons, length_parens] at enough
    rw [cons_append, parens_append]
    refine .bind reads_name fun name same => ?_
    refine .accept (by simp) ?_
    refine .bind (ih.reads_back bound _ (by omega) (.of_mem mem_cons_self)) fun tree alike => ?_
    refine .expect (by simp) fun _ _ => .found fun span => ?_
    rw [Alike, unplaced, unplaced, same, alike]
    rfl
  case global | constant =>
    refine .bind reads_name fun name same => .found fun span => ?_
    rw [Alike, unplaced, unplaced, same]
    rfl
  case calculation ih =>
    rw [length_parens] at enough
    refine .bind (ih.reads_back.parenthesized (by omega)) fun tree alike => .found fun span => ?_
    rw [Alike, unplaced, unplaced, alike]
    rfl

end

theorem length_le_size (text : List Char) : text.length ≤ total Char.utf8Size text := by
  induction text with
  | nil => exact le_rfl
  | cons char text ih =>
    have some_byte := char.utf8Size_pos
    rw [length_cons, total_cons]
    omega

theorem shows_of_spelled {text : List Char} {given : List Lexeme}
    (spelled : Spelled .eof text given) :
    (Cursor.start (.ofText .scripts (String.ofList text))).Shows given := by
  have kept : ∀ placed ∈ Placed.ofText (String.ofList text),
    decide (placed.char ≠ '\r') = true := by
    intro placed member
    have written := mem_map_of_mem (f := Placed.char) member
    rw [← Placed.chars, Placed.ofText, Placed.chars_ofList, String.toList_ofList] at written
    refine decide_eq_true fun returns => spelled.unreturned ?_
    rwa [← returns]
  have rest : (Scanner.ofText .scripts (String.ofList text) 0).rest = Placed.ofList 0 text := by
    change List.filter _ (Placed.ofText (String.ofList text)) = _
    rw [filter_eq_self.mpr kept, Placed.ofText, String.toList_ofList]
  obtain ⟨clean, reads⟩ := spelled.reads _ 0 ⟨rfl, rfl, rfl, rfl, rfl⟩ rest
  refine ⟨rfl, ⟨rfl, rfl⟩, clean, fun index => ?_⟩
  have sight := congrFun (Scanner.sight_start (.ofText .scripts (String.ofList text) 0)) index
  exact (congrArg (fun token : Token => (token.kind, token.text)) sight).trans (reads index)

/-- Reading an expression that was printed gives the expression back, places apart, without a fault
and up to the end of the text. -/
theorem parse_print (writable : Writable false expr) :
    ∃ tree behind, parse (.ofTables (String.ofList expr.print) .builtin .empty)
    (enoughRounds (String.ofList expr.print))
        false (Grammar.ofTables (String.ofList expr.print) .builtin .empty).start =
        (.found tree, behind) ∧
      tree.unplaced = expr.unplaced ∧ behind.finish = [] ∧ behind.stream.peek.1.kind = .eof := by
  have spelled : Spelled .eof expr.print expr.lexemes := by
    simpa using writable.spells rfl breaks_nil Spelled.nil
  have standard := standard_of_tables (String.ofList expr.print)
  have enough : expr.lexemes.length < enoughRounds (String.ofList expr.print) := by
    have short := spelled.short
    have bytes := length_le_size expr.print
    rw [enoughRounds, utf8_size_of_list]
    omega
  obtain ⟨tree, behind, ran, shows, alike⟩ :=
    (writable.readable standard).reads_back _ [] enough (.of_mem (by simp [Lexeme.ahead])) _ (by
      rw [List.append_nil]
      exact shows_of_spelled spelled)
  obtain ⟨clean, finished⟩ := shows.finish
  refine ⟨tree, behind, ran, alike, clean, ?_⟩
  rw [TokenStream.peek, TokenStream.token_lookahead]
  exact finished

theorem parse_print_conjunction :
    ∃ expr : Expr, Writable false expr ∧
    String.ofList expr.print = "calc(($x - -5) * 2) < ~f(%g, \"a\\<b\") & (.c() & true)" ∧
    ∃ tree behind, parse (.ofTables (String.ofList expr.print) .builtin .empty)
    (enoughRounds (String.ofList expr.print))
        false (Grammar.ofTables (String.ofList expr.print) .builtin .empty).start =
        (.found tree, behind) ∧
      tree.unplaced = expr.unplaced ∧ behind.finish = [] ∧ behind.stream.peek.1.kind = .eof := by
  let note : Note := .ofSpan .empty
  let left : Expr := .calculation note (.binary note .mul
    (.binary note .sub (.localVar note ⟨"x", .empty⟩ none) (.int note (-5))) (.int note 2))
  let right : Expr := .call note "proc" ⟨"f", .empty⟩ [.global note ⟨"g", .empty⟩, .text note "a<b"]
  let last : Expr := .binary note .and (.command note ⟨"c", .empty⟩ true []) (.bool note true)
  have first : Writable false left := .calculation <| .binary (fun _ => rfl)
    (.binary (fun _ => rfl) (.localVar (by decide +kernel)) .int) .int
  have second : Writable false right :=
    .call (.inl rfl) (by decide +kernel) <| List.forall_mem_cons.mpr
    ⟨.global (by decide +kernel), List.forall_mem_singleton.mpr (.text (by decide))⟩
  have third : Writable false last := .binary nofun (.command (by decide +kernel) nofun) .bool
  have writable : Writable false (.binary note .and (.binary note .lessThan left right) last) :=
    .binary nofun (.binary nofun first second) third
  exact ⟨_, writable, by decide +kernel, parse_print writable⟩

end Expr

end TriggerScript
