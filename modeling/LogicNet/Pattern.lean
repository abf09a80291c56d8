/-!
Patterns: the values of up to 32 inputs packed into one word, the first input in the most
significant place. A node with `k` fanins uses the low `k` places, so position `k - 1` belongs to
its first fanin and position `0` to its last.
-/

namespace LogicNet

/-- The most fanins a node can have, which is also the number of places of a pattern. -/
def maxFanin : Nat := 32

/-- The most variables of a truth table. -/
def maxTableVars : Nat := 16

/-- One assignment to at most 32 inputs. -/
abbrev Pattern := BitVec 32

/-- Sixty-four assignments to one signal, one in each lane; lane `p` is bit `p`. -/
abbrev Word := BitVec 64

namespace Pattern

/-- The pattern whose low `width` places are one and whose other places are zero; every place is
one from width 32 on. -/
def low (width : Nat) : Pattern := BitVec.allOnes 32 >>> (32 - width)

/-- Packs values into a pattern: each further value moves the earlier ones up by one place. -/
def ofBits (values : List Bool) : Pattern :=
  values.foldl (fun packed value => (packed <<< 1) ||| (BitVec.ofBool value).setWidth 32) 0

/-- The number of places that hold a one. -/
def ones (p : Pattern) : Nat := (List.range 32).countP p.getLsbD

/-- The number of places up to and including the highest one, and `0` for the zero pattern. -/
def bitLength (p : Pattern) : Nat := if p = 0 then 0 else p.toNat.log2 + 1

/-- The pattern in base two, with the marker `0b` and no leading zeros. -/
def text (p : Pattern) : String := "0b" ++ String.ofList (Nat.toDigits 2 p.toNat)

@[simp] theorem ofBits_nil : ofBits [] = 0 := rfl

theorem ofBits_append_singleton (values : List Bool) (value : Bool) :
    ofBits (values ++ [value]) = (ofBits values <<< 1) ||| (BitVec.ofBool value).setWidth 32 := by
  simp [ofBits, List.foldl_append]

theorem low_getLsbD (width i : Nat) : (low width).getLsbD i = decide (i < min width 32) := by
  simp only [low, BitVec.getLsbD_ushiftRight, BitVec.getLsbD_allOnes]
  congr 1
  simp only [eq_iff_iff]
  omega

end Pattern
end LogicNet
