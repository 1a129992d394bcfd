import TriggerScript.Proofs.Data.Checked
import TriggerScript.Token.Coordinate

/-!
Packed coordinates.

The second square may take eight bits, and six lie between its shift and that of the first. Its two
upper bits fall onto the lowest two of the first square. Everything else can be read off a packed
coordinate.
-/

namespace TriggerScript

namespace Coordinate

variable {literal literal' : String} {word word' : Int32} {value other : CoordComponent → Nat}

/-- A literal is accepted with these components. -/
def IsWritten (value : CoordComponent → Nat) (literal : String) : Prop :=
  ∃ piece : CoordComponent → List Char, splitAt '_' literal.toList =
    [piece .level, piece .squareX, piece .squareY, piece .tileX, piece .tileY] ∧
    ∀ field, component literal field (piece field) = .ok (value field)

def packed (value : CoordComponent → Nat) : Int32 :=
  pack (value .level) (value .squareX) (value .squareY) (value .tileX) (value .tileY)

/-- Coordinates that differ in nothing but bits of the squares that fall onto each other. -/
def Overlay (value other : CoordComponent → Nat) : Prop :=
  value .level = other .level ∧ value .tileX = other .tileX ∧ value .tileY = other .tileY ∧
    value .squareY % 64 = other .squareY % 64 ∧
    value .squareX ||| value .squareY / 64 = other .squareX ||| other .squareY / 64

theorem IsWritten.le_limit (written : IsWritten value literal) (field : CoordComponent) :
    value field ≤ field.limit := by
  obtain ⟨piece, -, read⟩ := written
  have accepted := read field
  unfold component at accepted
  split at accepted
  · cases accepted
  · split at accepted
    · rename_i number _ inside
      rw [← Except.ok.inj accepted]
      simp only [Bool.and_eq_true, decide_eq_true_eq] at inside
      omega
    · cases accepted

theorem of_literal_eq_ok (accepted : ofLiteral literal = .ok word) :
    ∃ value, IsWritten value literal ∧ word = packed value := by
  unfold ofLiteral at accepted
  split at accepted
  · rename_i first second third fourth fifth pieces
    obtain ⟨level, at_level, accepted⟩ := bind_eq_ok.mp accepted
    obtain ⟨squareX, at_squareX, accepted⟩ := bind_eq_ok.mp accepted
    obtain ⟨squareY, at_squareY, accepted⟩ := bind_eq_ok.mp accepted
    obtain ⟨tileX, at_tileX, accepted⟩ := bind_eq_ok.mp accepted
    obtain ⟨tileY, at_tileY, accepted⟩ := bind_eq_ok.mp accepted
    cases accepted
    refine ⟨@CoordComponent.rec (fun _ => Nat) level squareX squareY tileX tileY,
      ⟨@CoordComponent.rec (fun _ => List Char) first second third fourth fifth, pieces,
        fun field => ?_⟩, rfl⟩
    cases field <;> assumption
  · cases accepted

theorem or_eq_add (high : Nat) {low shift : Nat} (fits : low < 2 ^ shift) :
    high <<< shift ||| low = high * 2 ^ shift + low := by
  rw [← Nat.shiftLeft_add_eq_or_of_lt fits, Nat.shiftLeft_eq]

/-- A packed coordinate as a number of five digits; one of them holds bits of both squares. -/
theorem packed_eq (written : IsWritten value literal) :
    ∃ digit < 256, digit = value .squareX ||| value .squareY / 64 ∧
      packed value = Int32.ofNat (value .level * 2 ^ 28 + digit * 2 ^ 20 +
        value .squareY % 64 * 2 ^ 14 + value .tileX * 2 ^ 6 + value .tileY) := by
  have squareX : value .squareX ≤ 127 := written.le_limit .squareX
  have squareY : value .squareY ≤ 255 := written.le_limit .squareY
  have tileX : value .tileX ≤ 63 := written.le_limit .tileX
  have tileY : value .tileY ≤ 63 := written.le_limit .tileY
  have digit : value .squareX ||| value .squareY / 64 < 2 ^ 8 :=
    Nat.or_lt_two_pow (by omega) (by omega)
  refine ⟨_, digit, rfl, congrArg Int32.ofNat ?_⟩
  have halves : value .squareY <<< 14 =
      (value .squareY / 64) <<< 20 ||| (value .squareY % 64) <<< 14 := by
    rw [or_eq_add _ (by rw [Nat.shiftLeft_eq]; omega)]
    simp only [Nat.shiftLeft_eq]
    omega
  simp only [halves, Nat.or_assoc]
  rw [← Nat.or_assoc (value .squareX <<< 20), ← Nat.shiftLeft_or_distrib,
    or_eq_add (value .tileX) (by omega), or_eq_add (value .squareY % 64) (by omega),
    or_eq_add (value .squareX ||| _) (by omega), or_eq_add _ (by omega)]
  omega

theorem packed_inj_iff (written : IsWritten value literal) (written' : IsWritten other literal') :
    packed value = packed other ↔ Overlay value other := by
  obtain ⟨digit, small, digit_eq, sum⟩ := packed_eq written
  obtain ⟨digit', small', digit_eq', sum'⟩ := packed_eq written'
  have limits : ∀ {value literal}, IsWritten value literal →
      value .level ≤ 3 ∧ value .tileX ≤ 63 ∧ value .tileY ≤ 63 :=
    fun written => ⟨written.le_limit .level, written.le_limit .tileX, written.le_limit .tileY⟩
  have first := limits written
  have second := limits written'
  rw [Overlay, ← digit_eq, ← digit_eq', sum, sum', ← Int32.toInt_inj,
    Int32.toInt_ofNat_of_lt (by omega), Int32.toInt_ofNat_of_lt (by omega)]
  omega

/-- Two accepted literals are packed into one word just if their coordinates overlay each other.
This tells all coordinates apart whose second square takes six bits. -/
theorem packed_alike_iff (accepted : ofLiteral literal = .ok word)
    (accepted' : ofLiteral literal' = .ok word') :
    ∃ value other, IsWritten value literal ∧ IsWritten other literal' ∧
      (word = word' ↔ Overlay value other) ∧
      (value .squareY < 64 → other .squareY < 64 → word = word' → value = other) := by
  obtain ⟨value, written, rfl⟩ := of_literal_eq_ok accepted
  obtain ⟨other, written', rfl⟩ := of_literal_eq_ok accepted'
  refine ⟨value, other, written, written', packed_inj_iff written written',
    fun low low' alike => ?_⟩
  obtain ⟨level, tileX, tileY, squareY, squareX⟩ := (packed_inj_iff written written').mp alike
  rw [Nat.div_eq_of_lt low, Nat.div_eq_of_lt low', Nat.or_zero, Nat.or_zero] at squareX
  rw [Nat.mod_eq_of_lt low, Nat.mod_eq_of_lt low'] at squareY
  funext field
  cases field <;> assumption

theorem corners_apart :
    ∃ value other, IsWritten value "3_127_63_63_63" ∧ IsWritten other "3_127_63_63_62" ∧
    ¬ Overlay value other := by
  have first : ofLiteral "3_127_63_63_63" = .ok 939511807 := by decide +kernel
  have second : ofLiteral "3_127_63_63_62" = .ok 939511806 := by decide +kernel
  obtain ⟨value, other, written, written', same, -⟩ := packed_alike_iff first second
  exact ⟨value, other, written, written', fun alike => absurd (same.mpr alike) (by decide)⟩

/-- Two places that the packed word does not tell apart. -/
theorem squares_overlap :
    ofLiteral "0_0_64_0_0" = .ok 1048576 ∧ ofLiteral "0_1_0_0_0" = .ok 1048576 := by
  decide +kernel

end Coordinate

end TriggerScript
