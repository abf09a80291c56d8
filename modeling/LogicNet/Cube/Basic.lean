import LogicNet.Pattern

/-!
Cubes: partial assignments to the places of a pattern. The mask holds the places that a cube cares
about and the bits hold what it demands there; bits outside the mask are kept but demand nothing.
A cube matches a pattern iff the two agree on the masked places.
-/

namespace LogicNet

/-- A partial assignment to the 32 places of a pattern. -/
structure Cube where
  bits : Pattern
  mask : Pattern
  deriving DecidableEq

namespace Cube

/-- The cube with the given mask and no bits outside it. -/
def masked (bits mask : Pattern) : Cube := ⟨bits &&& mask, mask⟩

/-- The cube that cares about nothing and so matches every pattern. -/
def wildcard : Cube := ⟨0, 0⟩

/-- The cube that fixes the low `width` places to those of `pattern`. -/
def minterm (pattern : Pattern) (width : Nat) : Cube := masked pattern (Pattern.low width)

/-- Whether the cube demands no one outside its mask. -/
def Tidy (cube : Cube) : Prop := cube.bits &&& ~~~cube.mask = 0

instance (cube : Cube) : Decidable cube.Tidy := inferInstanceAs (Decidable (_ = _))

/-- Whether the cube agrees with `pattern` at every place that it cares about. -/
def accepts (cube : Cube) (pattern : Pattern) : Bool :=
  pattern &&& cube.mask == cube.bits &&& cube.mask

/-- The number of places that the cube cares about. -/
def literalCount (cube : Cube) : Nat := cube.mask.ones

/-- The text of a cube where a message names it. -/
def label (cube : Cube) : String :=
  s!"Cube \x7b bits: {cube.bits.toNat}, mask: {cube.mask.toNat} \x7d"

theorem masked_tidy (bits mask : Pattern) : (masked bits mask).Tidy := by
  simp only [Tidy, masked, BitVec.and_assoc]
  ext i hi
  simp

theorem accepts_iff (cube : Cube) (pattern : Pattern) :
    cube.accepts pattern = true ↔
      ∀ i < 32, cube.mask.getLsbD i = true → pattern.getLsbD i = cube.bits.getLsbD i := by
  simp only [accepts, beq_iff_eq]
  constructor
  · intro h i _ hm
    have := congrArg (fun p : Pattern => p.getLsbD i) h
    simpa [hm] using this
  · intro h
    apply BitVec.eq_of_getLsbD_eq
    intro i hi
    have := h i hi
    simp only [BitVec.getLsbD_and]
    cases hm : cube.mask.getLsbD i <;> simp_all

theorem wildcard_accepts (pattern : Pattern) : wildcard.accepts pattern = true := by
  simp [accepts, wildcard]

end Cube

end LogicNet
