import TriggerScript.Proofs.Execution.Heights
import TriggerScript.Proofs.Parsing.Trees
import TriggerScript.Proofs.Typing.Statement

/-!
Types of checked trees.

With sound tables, every value of a script that was checked without a fault is of exactly the type
that is expected where it stands. Fitting is weaker than that: narrow integers of configuration
files fit `int`, and what could not be resolved fits everything. Neither occurs here.
-/

namespace TriggerScript

open List Ty

variable {prim : Prim} {hooked : Prop}

/-- What a table declares lives where its types say. -/
structure SymbolTable.Sound (symbols : SymbolTable) : Prop where
  commands : ∀ {name info}, symbols.command? name = some info →
    ∀ prim ∈ info.args ++ info.returns.flatten, prim.isDeclarable = true
  scripts : ∀ {trigger name info}, symbols.script? trigger name = some info →
    ∀ prim ∈ info.params ++ info.returns.flatten, prim.isDeclarable = true
  globals : ∀ {name info}, symbols.global? name = some info →
    info.prim.stack? = some info.domain.stack
  constants : ∀ {name info stack}, symbols.constant? name = some info →
    info.prim.stack? = some stack → info.value.stack = stack
  configs : ∀ {name info}, symbols.config? name = some info →
    info.prim.isConfig = true ∨ info.prim.stack? = some .int

/-- Values of the type are passed on stacks, those of hooks perhaps on several. -/
def Prim.Passed (hooked : Prop) (prim : Prim) : Prop :=
  prim.isDeclarable = true ∨ hooked ∧ prim = .hook

/-- What a table declares lives where its types say. Commands may perhaps take hooks. -/
structure SymbolTable.SoundWith (symbols : SymbolTable) (hooked : Prop) : Prop where
  args : ∀ {name info}, symbols.command? name = some info → ∀ prim ∈ info.args, prim.Passed hooked
  returns : ∀ {name info}, symbols.command? name = some info →
    ∀ prim ∈ info.returns.flatten, prim.isDeclarable = true
  scripts : ∀ {trigger name info}, symbols.script? trigger name = some info →
    ∀ prim ∈ info.params ++ info.returns.flatten, prim.isDeclarable = true
  globals : ∀ {name info}, symbols.global? name = some info →
    info.prim.stack? = some info.domain.stack
  constants : ∀ {name info stack}, symbols.constant? name = some info →
    info.prim.stack? = some stack → info.value.stack = stack
  configs : ∀ {name info}, symbols.config? name = some info →
    info.prim.isConfig = true ∨ info.prim.stack? = some .int

theorem SymbolTable.Sound.soundWith {symbols : SymbolTable} (sound : symbols.Sound) :
    symbols.SoundWith False where
  args found prim member := .inl (sound.commands found prim (mem_append_left _ member))
  returns found prim member := sound.commands found prim (mem_append_right _ member)
  scripts := sound.scripts
  globals := sound.globals
  constants := sound.constants
  configs := sound.configs

theorem SymbolTable.command_name {symbols : SymbolTable}
    (found : symbols.command? name = some info) :
    info.name = name := by
  obtain ⟨layer, -, held⟩ := exists_of_findSome?_eq_some found
  simpa using find?_some held

/-! ### Types that fit -/

namespace Prim

/-- Values of the type can be written in scripts. -/
def Expressible (prim : Prim) : Prop :=
  prim.isDeclarable = true ∨ prim.isConfig = true ∨ prim = .hook

instance (prim : Prim) : Decidable prim.Expressible := inferInstanceAs (Decidable (_ ∨ _ ∨ _))

theorem widened_of_expressible (expressible : prim.Expressible) : prim.widened = prim := by
  cases prim <;> first | rfl | exact absurd expressible (by decide)

theorem Passed.expressible (passed : prim.Passed hooked) : prim.Expressible := by
  rcases passed with declarable | ⟨-, hook⟩
  · exact .inl declarable
  · exact .inr (.inr hook)

theorem eq_of_agrees {expected actual : Prim} (known : expected.Expressible)
    (expressible : actual.Expressible) (agrees : expected.agrees actual = true) :
    actual = expected := by
  rw [Prim.agrees, decide_eq_true_eq, widened_of_expressible known,
    widened_of_expressible expressible] at agrees
  exact agrees.symm

theorem agrees_comm (left right : Prim) : left.agrees right = right.agrees left := by
  simp only [agrees, @eq_comm _ left.widened]

theorem config_lives (config : prim.isConfig = true ∨ prim.stack? = some .int)
    (declarable : prim.isDeclarable = true) : prim.stack? = some .int := by
  rcases config with config | lives
  · revert config declarable
    cases prim <;> decide
  · exact lives

end Prim

namespace Ty

theorem mem_flatten_single (valued : prim ≠ .void) : prim ∈ (Ty.single prim).flatten := by
  cases prim <;> first | exact List.mem_singleton_self _ | exact absurd rfl valued

theorem flatten_single (expressible : prim.Expressible) : (Ty.single prim).flatten = [prim] := by
  cases prim <;> first | rfl | exact absurd expressible (by decide)

theorem live_of_flatten {ty : Ty} {lives : Prim → Prop} (flat : ty.flatten = [prim])
    (here : lives prim) : ∀ prim ∈ ty.flatten, lives prim := by
  rw [flat]
  exact List.forall_mem_singleton.mpr here

theorem expressible_single (expressible : prim.Expressible) :
    ∀ other ∈ (Ty.single prim).flatten, other.Expressible := by
  rw [flatten_single expressible]
  exact List.forall_mem_singleton.mpr expressible

theorem list_eq_of_agrees (known : ∀ prim ∈ expected, prim.Expressible)
    (expressible : ∀ prim ∈ actual, prim.Expressible) (agrees : listAgrees expected actual = true) :
    actual = expected := by
  induction expected generalizing actual with
  | nil => simpa [listAgrees, eq_comm] using agrees
  | cons first rest ih =>
    cases actual with
    | nil => simp [listAgrees] at agrees
    | cons given others =>
      rw [forall_mem_cons] at known expressible
      simp only [listAgrees, length_cons, zip_cons_cons, all_cons, Bool.and_eq_true,
        decide_eq_true_eq, Nat.add_right_cancel_iff] at agrees
      obtain ⟨length, head, tail⟩ := agrees
      have same := Prim.eq_of_agrees known.1 expressible.1 head
      have later : listAgrees rest others = true := by simp [listAgrees, length, tail]
      rw [same, ih known.2 expressible.2 later]

theorem flatten_of_fits {expected : Prim} {actual : Ty} (declarable : expected.isDeclarable = true)
    (expressible : ∀ prim ∈ actual.flatten, prim.Expressible)
    (fits : (Ty.single expected).fits actual = true) : actual.flatten = [expected] := by
  simp only [Ty.fits, Bool.or_eq_true] at fits
  have flat := flatten_single (.inl declarable)
  rcases fits with (unknown | unknown) | agrees
  · have undefined : expected = .undefined := by simpa [isUndefined, Ty.undefined] using unknown
    rw [undefined] at declarable
    cases declarable
  · rw [of_decide_eq_true unknown] at expressible
    exact absurd (expressible .undefined (List.mem_singleton_self _)) (by decide)
  · rw [← flat]
    exact list_eq_of_agrees (expressible_single (.inl declarable)) expressible agrees

end Ty

namespace Expr

variable {operator : Operator}

/-- The types of the values that expressions leave together. -/
def leaves (values : List Expr) : List Prim := values.flatMap fun value => value.ty.flatten

@[simp] theorem leaves_nil : leaves [] = [] := rfl

@[simp] theorem leaves_cons (value : Expr) (rest : List Expr) :
    leaves (value :: rest) = value.ty.flatten ++ leaves rest := flatMap_cons

theorem leaves_singleton (value : Expr) : leaves [value] = value.ty.flatten := flatMap_singleton ..

theorem leaves_texts {parts : List Expr} (texts : ∀ part ∈ parts, part.ty.flatten = [.string]) :
    leaves parts = replicate parts.length .string := by
  induction parts with
  | nil => rfl
  | cons part rest ih =>
    rw [forall_mem_cons] at texts
    rw [leaves_cons, texts.1, ih texts.2]
    rfl

theorem mem_leaves {values : List Expr} (member : value ∈ values) (held : prim ∈ value.ty.flatten) :
    prim ∈ leaves values :=
  mem_flatMap.mpr ⟨value, member, held⟩

theorem Fit.leaves_eq {values : List Expr} (fit : Fit expected values)
    (known : ∀ prim ∈ expected, prim.Expressible)
    (expressible : ∀ value ∈ values, ∀ prim ∈ value.ty.flatten, prim.Expressible) :
    leaves values = expected := by
  refine list_eq_of_agrees known (fun prim member => ?_) (fit _ ?_)
  · obtain ⟨value, listed, held⟩ := mem_flatMap.mp member
    exact expressible value listed prim held
  · unfold leftTypes?
    rw [if_neg, leaves]
    intro unknown
    obtain ⟨value, member, undefined⟩ := any_eq_true.mp unknown
    have here : Prim.undefined ∈ value.ty.flatten := by
      rw [of_decide_eq_true undefined]
      exact List.mem_singleton_self _
    exact absurd (expressible value member _ here) (by decide)

variable {symbols : SymbolTable} {expr : Expr}

theorem Elaborates.expressible (elaborated : Elaborates names source expr)
    (legal : names.Legal symbols) (sound : symbols.SoundWith hooked)
    (readable : source.Read callable hooked False) :
    ∀ prim ∈ expr.ty.flatten, prim.Expressible := by
  obtain rfl := legal.same
  cases elaborated with
  | int | long | text | bool | coordgrid | concat | calculation | arithmetic | logical
  | comparison =>
    exact expressible_single (.inl rfl)
  | null declarable | constant _ declarable => exact expressible_single (.inl declarable)
  | localVar found =>
    exact expressible_single (.inl (legal.declarable _ (Scope.mem_of_lookup found)))
  | arrayElement _ _ found =>
    exact expressible_single (.inl (Option.isSome_of_eq_some (legal.array_lives found)))
  | global found =>
    exact expressible_single (.inl (Option.isSome_of_eq_some (sound.globals found)))
  | config found =>
    refine expressible_single ?_
    rcases sound.configs found with config | lives
    · exact .inr (.inl config)
    · exact .inl (Option.isSome_of_eq_some lives)
  | bare found | command found =>
    intro prim member
    exact .inl (sound.returns found prim member)
  | call found =>
    intro prim member
    exact .inl (sound.scripts found prim (mem_append_right _ member))
  | emptyHook | hook => exact expressible_single (.inr (.inr rfl))
  | error => exact readable.elim

/-- The parts of an expression leave what it is made from, and the expression leaves values that
live on stacks. -/
def Typed (symbols : SymbolTable) (hooked : Prop) : Expr → Prop
  | .int note _ => note.ty.flatten = [.int]
  | .long note _ => note.ty.flatten = [.long]
  | .text note _ => note.ty.flatten = [.string]
  | .bool note _ => note.ty.flatten = [.boolean]
  | .coordgrid note _ => note.ty.flatten = [.coordgrid]
  | .null note => ∃ prim, note.ty.flatten = [prim] ∧ prim.isDeclarable = true
  | .localVar note _ target =>
    ∃ found, target = some found ∧ note.ty.flatten = [found.prim] ∧ found.prim.isDeclarable = true
  | .arrayElement note _ index _ =>
    index.ty.flatten = [.int] ∧ ∃ prim, note.ty.flatten = [prim] ∧ prim.stack? = some .int
  | .global note name =>
    ∃ info, symbols.global? name.text = some info ∧ note.ty.flatten = [info.prim]
  | .constant note name =>
    ∃ info, symbols.constant? name.text = some info ∧ note.ty.flatten = [info.prim] ∧
      info.prim.isDeclarable = true
  | .bare note _ (some _) => ∃ prim, note.ty.flatten = [prim] ∧ prim.stack? = some .int
  | .bare note name none =>
    ∃ info, symbols.command? name.text = some info ∧ info.args = [] ∧ note.ty = info.returns
  | .command note name _ args =>
    ∃ info, symbols.command? name.text = some info ∧ leaves args = info.args ∧
      note.ty = info.returns
  | .call note trigger name args =>
    ∃ info, symbols.script? trigger name.text = some info ∧ leaves args = info.params ∧
      note.ty = info.returns
  | .concat note parts => note.ty.flatten = [.string] ∧ ∀ part ∈ parts, part.ty.flatten = [.string]
  | .calculation note inner => note.ty.flatten = [.int] ∧ inner.ty.flatten = [.int]
  | .binary note operator left right =>
    if operator.isArithmetic then
      note.ty.flatten = [.int] ∧ left.ty.flatten = [.int] ∧ right.ty.flatten = [.int]
    else if operator.isLogical then
      note.ty.flatten = [.boolean] ∧ left.ty.flatten = [.boolean] ∧ right.ty.flatten = [.boolean]
    else
      note.ty.flatten = [.boolean] ∧ ∃ prim stack, left.ty = .single prim ∧
      right.ty = .single prim ∧
        prim.stack? = some stack ∧ stack ≠ .string
  | .emptyHook note => hooked ∧ note.ty.flatten = [.hook]
  | .hook note name args => hooked ∧ note.ty.flatten = [.hook] ∧
    ∃ info, symbols.script? hookTrigger name.text = some info ∧ leaves args = info.params
  | .error _ => False

theorem Typed.parts_passed (typed : expr.Typed symbols hooked) (sound : symbols.SoundWith hooked) :
    ∀ part ∈ expr.parts, ∀ prim ∈ part.ty.flatten, prim.Passed hooked := by
  cases expr with
  | int | long | text | bool | coordgrid | null | localVar | global | constant | bare | emptyHook =>
    exact forall_mem_nil _
  | arrayElement => exact List.forall_mem_singleton.mpr (live_of_flatten typed.1 (.inl rfl))
  | command =>
    obtain ⟨info, found, same, -⟩ := typed
    intro part member prim held
    refine sound.args found prim ?_
    rw [← same]
    exact mem_leaves member held
  | call =>
    obtain ⟨info, found, same, -⟩ := typed
    intro part member prim held
    refine .inl (sound.scripts found prim (mem_append_left _ ?_))
    rw [← same]
    exact mem_leaves member held
  | hook =>
    obtain ⟨-, -, info, found, same⟩ := typed
    intro part member prim held
    refine .inl (sound.scripts found prim (mem_append_left _ ?_))
    rw [← same]
    exact mem_leaves member held
  | concat => exact fun part member => live_of_flatten (typed.2 part member) (.inl rfl)
  | calculation => exact List.forall_mem_singleton.mpr (live_of_flatten typed.2 (.inl rfl))
  | binary note operator left right =>
    rw [Typed] at typed
    refine forall_mem_cons.mpr ?_
    rw [forall_mem_singleton]
    split_ifs at typed
    · exact ⟨live_of_flatten typed.2.1 (.inl rfl), live_of_flatten typed.2.2 (.inl rfl)⟩
    · exact ⟨live_of_flatten typed.2.1 (.inl rfl), live_of_flatten typed.2.2 (.inl rfl)⟩
    · obtain ⟨-, prim, stack, left, right, lives, -⟩ := typed
      have declarable : prim.isDeclarable = true := Option.isSome_of_eq_some lives
      have flat := flatten_single (.inl declarable)
      exact ⟨live_of_flatten (left ▸ flat) (.inl declarable),
        live_of_flatten (right ▸ flat) (.inl declarable)⟩
  | error => exact typed.elim

theorem comparable_valued (compared : comparable operator first second = true) :
    first ≠ .void ∧ second ≠ .void := by
  unfold comparable at compared
  constructor
  · rintro rfl
    split at compared <;> simp [Prim.agrees, Prim.widened, Prim.stack?] at compared
  · rintro rfl
    split at compared
    · simp [Prim.agrees, Prim.widened] at compared
    · cases first <;> cases compared

theorem comparable_cases {first second : Prim} (known : first.Expressible)
    (known' : second.Expressible) (compared : comparable operator first second = true) :
    second = first ∧ ∃ stack, first.stack? = some stack ∧ stack ≠ .string := by
  unfold comparable at compared
  split at compared
  · simp only [Bool.or_eq_true, Bool.and_eq_true, decide_eq_true_eq] at compared
    rcases compared with ⟨left, right⟩ | ⟨rfl, rfl⟩
    · rw [Prim.agrees_comm] at left right
      obtain rfl := Prim.eq_of_agrees (.inl rfl) known left
      obtain rfl := Prim.eq_of_agrees (.inl rfl) known' right
      exact ⟨rfl, .int, rfl, nofun⟩
    · exact ⟨rfl, .long, rfl, nofun⟩
  · simp only [Bool.and_eq_true, Bool.or_eq_true, decide_eq_true_eq] at compared
    obtain ⟨agrees, lives⟩ := compared
    rcases lives with lives | lives
    · exact ⟨Prim.eq_of_agrees (.inl (Option.isSome_of_eq_some lives)) known' agrees, .int, lives,
        nofun⟩
    · exact ⟨Prim.eq_of_agrees (.inl (Option.isSome_of_eq_some lives)) known' agrees, .long, lives,
        nofun⟩

/-- Operands that an operator compares are of one type, which is not that of texts. -/
theorem Compares.single (compares : Compares operator left right)
    (known : ∀ prim ∈ left.ty.flatten, prim.Expressible)
    (known' : ∀ prim ∈ right.ty.flatten, prim.Expressible) :
    ∃ prim stack, left.ty = .single prim ∧ right.ty = .single prim ∧ prim.stack? = some stack ∧
      stack ≠ .string := by
  have defined : ∀ {ty : Ty}, (∀ prim ∈ ty.flatten, prim.Expressible) → ty.isUndefined ≠ true := by
    intro ty known undefined
    rw [of_decide_eq_true undefined] at known
    exact absurd (known .undefined (List.mem_singleton_self _)) (by decide)
  have of_prim : ∀ {ty : Ty} {prim : Prim}, ty.prim? = some prim → ty = .single prim := by
    intro ty prim same
    cases ty <;> cases same
    rfl
  rcases compares with unknown | unknown | ⟨first, second, left_is, right_is, compared⟩
  · exact absurd unknown (defined known)
  · exact absurd unknown (defined known')
  · obtain ⟨valued, valued'⟩ := comparable_valued compared
    have left_is := of_prim left_is
    have right_is := of_prim right_is
    rw [left_is] at known
    rw [right_is] at known'
    obtain ⟨rfl, stack, lives, no_text⟩ := comparable_cases (known _ (mem_flatten_single valued))
      (known' _ (mem_flatten_single valued')) compared
    exact ⟨_, stack, left_is, right_is, lives, no_text⟩

theorem Elaborates.typed (elaborated : Elaborates names source expr)
    (legal : names.Legal symbols) (sound : symbols.SoundWith hooked)
    (readable : source.Read callable hooked False)
    (expressible : ∀ part ∈ expr.parts, ∀ prim ∈ part.ty.flatten, prim.Expressible)
    (lives : ∀ prim ∈ expr.ty.flatten, prim.Passed hooked) : expr.Typed symbols hooked := by
  obtain rfl := legal.same
  cases elaborated with
  | int | long | text | bool | coordgrid => rfl
  | null declarable => exact ⟨_, flatten_single (.inl declarable), declarable⟩
  | localVar found =>
    have declarable := legal.declarable _ (Scope.mem_of_lookup found)
    exact ⟨_, rfl, flatten_single (.inl declarable), declarable⟩
  | arrayElement _ fits found =>
    have lives := legal.array_lives found
    refine ⟨flatten_of_fits rfl (expressible _ (List.mem_singleton_self _)) fits, _, ?_, lives⟩
    exact flatten_single (.inl (Option.isSome_of_eq_some lives))
  | global found =>
    exact ⟨_, found, flatten_single (.inl (Option.isSome_of_eq_some (sound.globals found)))⟩
  | constant found declarable =>
    exact ⟨_, found, flatten_single (.inl declarable), declarable⟩
  | @config info _ _ _ found =>
    have config := sound.configs found
    have valued : info.prim ≠ .void := by
      intro void
      rw [void] at config
      exact absurd config (by decide)
    have declarable : info.prim.isDeclarable = true := by
      rcases lives info.prim (mem_flatten_single valued) with declarable | ⟨-, hook⟩
      · exact declarable
      · rw [hook] at config
        exact absurd config (by decide)
    exact ⟨_, flatten_single (.inl declarable), Prim.config_lives config declarable⟩
  | bare found alone =>
    obtain rfl := readable
    exact ⟨_, found, alone, rfl⟩
  | command found _ fit =>
    refine ⟨_, found, fit.leaves_eq (fun prim member => ?_) expressible, rfl⟩
    exact (sound.args found prim member).expressible
  | call found _ fit =>
    refine ⟨_, found, fit.leaves_eq (fun prim member => ?_) expressible, rfl⟩
    exact .inl (sound.scripts found prim (mem_append_left _ member))
  | emptyHook => exact ⟨readable, rfl⟩
  | hook found _ fit =>
    refine ⟨readable, rfl, _, found, fit.leaves_eq (fun prim member => ?_) expressible⟩
    exact .inl (sound.scripts found prim (mem_append_left _ member))
  | concat _ fit =>
    exact ⟨rfl, fun part member => flatten_of_fits rfl (expressible part member) (fit part member)⟩
  | calculation _ fits =>
    exact ⟨rfl, flatten_of_fits rfl (expressible _ (List.mem_singleton_self _)) fits⟩
  | arithmetic computes _ _ fits fits' =>
    obtain ⟨left, right⟩ := forall_mem_cons.mp expressible
    rw [Typed, if_pos computes]
    exact ⟨rfl, flatten_of_fits rfl left fits,
      flatten_of_fits rfl (forall_mem_singleton.mp right) fits'⟩
  | logical computes joins _ _ fits fits' =>
    obtain ⟨left, right⟩ := forall_mem_cons.mp expressible
    rw [Typed, if_neg (by simp [computes]), if_pos joins]
    exact ⟨rfl, flatten_of_fits rfl left fits,
      flatten_of_fits rfl (forall_mem_singleton.mp right) fits'⟩
  | comparison computes joins _ _ compares =>
    obtain ⟨left, right⟩ := forall_mem_cons.mp expressible
    rw [Typed, if_neg (by simp [computes]), if_neg (by simp [joins])]
    exact ⟨rfl, compares.single left (forall_mem_singleton.mp right)⟩
  | error => exact readable.elim

theorem Elaborates.every_typed (elaborated : Elaborates names source expr)
    (legal : names.Legal symbols) (sound : symbols.SoundWith hooked)
    (readable : source.Every (Expr.Read callable hooked False))
    (lives : ∀ prim ∈ expr.ty.flatten, prim.Passed hooked) : expr.Every (Typed symbols hooked) := by
  induction readable generalizing expr with
  | intro here within ih =>
    have expressible := each_of_elaborates elaborated.parts fun source held expr elaborated =>
      elaborated.expressible legal sound (within source held).here
    have typed := elaborated.typed legal sound here expressible lives
    refine .intro typed fun part member => ?_
    exact each_of_elaborates elaborated.parts
      (fun source held expr elaborated => ih source held elaborated)
      part member (typed.parts_passed sound part member)

end Expr

end TriggerScript
