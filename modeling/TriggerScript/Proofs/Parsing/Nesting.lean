import TriggerScript.Config.Declaration
import TriggerScript.Proofs.Parsing.Trees

/-!
Trees are nested.

The range of everything that is read holds the ranges of its parts: in scripts, whatever their
grammar is, and in configurations and constants. A hook is read from its own text, whose tokens
count for the range of the hook.
-/

namespace TriggerScript

open List Parse

variable {terms : Terms} {site : Site} {bound : Nat}

/-! ### Configurations and constants -/

instance : Noded ConfigValue := ⟨.value⟩

instance : Noded Property := ⟨.property⟩

instance : Noded Config := ⟨.config⟩

instance : Noded Constant := ⟨.constant⟩

instance : Tree ValueForm :=
  ⟨fun terms around form => (form = .error → terms.lenient) ∧ Tree.fits terms around form.name?⟩

namespace ConfigValue

theorem fits_form (name? : Option Ident) [named : Fits terms site name?] {form : ValueForm}
    (shape : form.name? = name?) (told : site.given → form = .error → terms.lenient) :
    Fits terms site form :=
  ⟨fun known => ⟨told known, shape ▸ named.fits known⟩⟩

instance {value : String} : Fits terms site (ValueForm.text value) := fits_form none rfl (by simp)

instance {value : Int32} : Fits terms site (ValueForm.int value) := fits_form none rfl (by simp)

instance {value : Int64} : Fits terms site (ValueForm.long value) := fits_form none rfl (by simp)

instance {value : Bool} : Fits terms site (ValueForm.bool value) := fits_form none rfl (by simp)

instance {value : Prim} : Fits terms site (ValueForm.type value) := fits_form none rfl (by simp)

instance {value : Int32} : Fits terms site (ValueForm.coordgrid value) :=
  fits_form none rfl (by simp)

instance {name : Ident} [Fits terms site name] : Fits terms site (ValueForm.constant name) :=
  fits_form (some name) rfl (by simp)

instance {name : Ident} [Fits terms site name] : Fits terms site (ValueForm.reference name) :=
  fits_form (some name) rfl (by simp)

instance : Fits terms (site.knowing terms.lenient) ValueForm.error :=
  fits_form none rfl fun known _ => known.2

instance :
    Fits terms (site.knowing (Tree.fits terms site.around TokenKind.error)) ValueForm.error :=
  fits_form none rfl fun known _ => known.2 rfl

instance : parseMissing.Finds terms site := by
  have reported (site : Site) (token : Token) :
    (report .expectingPropertyValue token.span >>= fun _ =>
      pure ValueForm.error).Finds terms site := inferInstance
  refine Finds.bind fun kind => ?_
  split
  · exact @Finds.bind _ _ _ _ _ _ .anything _ .peeked fun token => reported _ token
  · exact @Finds.bind _ _ _ _ _ _ .anything _ .peeked fun token => reported _ token
  · exact .bind fun token => reported _ token

instance : parseForm.Finds terms site := by
  refine Finds.bind fun kind => ?_
  split <;> infer_instance

instance : ConfigValue.parse.Finds terms site := by
  refine .built inferInstance (fun (form : ValueForm) span => ConfigValue.mk form span)
    fun within form here => ?_
  exact .intro rfl here.1 (forall_mem_map.mpr fun name held =>
    here.2 name (Option.mem_toList.mp held))

end ConfigValue

namespace Config

instance : nameAhead.Finds terms site := by
  unfold nameAhead
  infer_instance

instance : parseName.Finds terms site := by
  unfold parseName
  infer_instance

instance : (parseProperty bound).Finds terms site := by
  refine .built inferInstance (fun (read : Ident × List ConfigValue) span =>
    Property.mk read.1 read.2 span) ?_
  exact fun within read here =>
    .intro rfl trivial (forall_mem_cons.mpr ⟨here.1, forall_mem_map.mpr here.2⟩)

instance : (parse bound).Finds terms site := by
  refine .built inferInstance (fun (read : Ident × List Property) span =>
    Config.mk read.1 read.2 span) ?_
  exact fun within read here =>
    .intro rfl trivial (forall_mem_cons.mpr ⟨here.1, forall_mem_map.mpr here.2⟩)

end Config

namespace Constant

instance : Constant.parse.Finds terms site := by
  refine .built inferInstance (fun (read : Ident × ConfigValue) span =>
    Constant.mk read.1 read.2 span) ?_
  exact fun within read here =>
    .intro rfl trivial (forall_mem_cons.mpr ⟨here.1, forall_mem_singleton.mpr here.2⟩)

instance : (recover bound).Finds terms site := by
  unfold recover
  infer_instance

end Constant

theorem Vocabulary.configs_plain : Vocabulary.configs.Plain := by
  unfold Vocabulary.Plain
  decide

/-- The declarations of a text: in any case leniently, and strictly if no fault was found. -/
theorem declarations_sound {α : Type} [Noded α] {phrase : Nat → Parse α}
    {recover : Nat → Parse Unit} [∀ bound site, (phrase bound).Finds terms site]
    [∀ bound site, (recover bound).Finds terms site] (source : String)
    (clean : terms.lenient ∨ (readDeclarations source fun bound =>
      declarations (phrase bound) (recover bound) bound).2 = []) :
    ∀ value ∈ (readDeclarations source fun bound =>
      declarations (phrase bound) (recover bound) bound).1, (Noded.node value).Sound terms := by
  simp only [readDeclarations] at clean ⊢
  split
  · rename_i found
    rw [found] at clean
    refine sound_of_declarations (fun strict => ?_) found clean
    exact forall_mem_singleton.mpr ⟨Vocabulary.configs_plain, fun _ held => absurd held not_mem_nil⟩
  · exact forall_mem_nil _

/-! ### All trees -/

/-- Trees are nested: below every script, configuration and constant that is read, the range of a
node holds the ranges of the nodes directly in it. -/
theorem trees_nest (grammar : Grammar) (source : String) :
    (∀ script ∈ grammar.scripts.1, ∀ node, (Node.script script).Below node → node.Nests) ∧
      (∀ config ∈ (readDeclarations source Config.parseFile).1, ∀ node, (Node.config config).Below
        node → node.Nests) ∧
      ∀ constant ∈ (readDeclarations source Constant.parseFile).1, ∀ node,
        (Node.constant constant).Below node → node.Nests := by
  have free : grammar.Admits ⟨fun _ => True, True, True⟩ :=
    ⟨fun strict => absurd trivial strict, by simp, by simp⟩
  have nests {root node : Node} (sound : root.Sound ⟨fun _ => True, True, True⟩)
    (below : root.Below node) :
      node.Nests := (Node.below_of_throughout sound below).2
  refine ⟨fun script member node => ?_, fun config member node => ?_,
    fun constant member node => ?_⟩
  · exact nests (Grammar.scripts_sound member (.inl trivial))
  · exact nests (declarations_sound source (.inl trivial) config member)
  · exact nests (declarations_sound source (.inl trivial) constant member)

end TriggerScript
