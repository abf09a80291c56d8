import LogicNet.Cube.Basic

/-!
Covers: a list of cubes with a polarity. A cover takes its polarity on the patterns that some cube
accepts and the complement elsewhere, so a cover of positive polarity lists the patterns on which it
is true and one of negative polarity those on which it is false.
-/

namespace LogicNet

/-- A function of a pattern, in two levels. -/
structure Cover where
  cubes : List Cube
  polarity : Bool
  deriving DecidableEq

namespace Cover

/-- The cover that lists the patterns on which it is true. -/
def onSet (cubes : List Cube) : Cover := ⟨cubes, true⟩

/-- The cover that lists the patterns on which it is false. -/
def offSet (cubes : List Cube) : Cover := ⟨cubes, false⟩

/-- The cover that has one value everywhere: one wildcard cube, of that polarity. -/
def constant (value : Bool) : Cover := ⟨[Cube.wildcard], value⟩

/-- The cover that every input carries: it names the input itself. -/
def identity : Cover := onSet [Cube.minterm 1 1]

/-- The value of the function on `pattern`. -/
def evaluate (cover : Cover) (pattern : Pattern) : Bool :=
  if cover.cubes.any (·.accepts pattern) then cover.polarity else !cover.polarity

/-- The first cube that accepts `pattern`, with its position. -/
def firstMatch? (cover : Cover) (pattern : Pattern) : Option (Cube × Nat) :=
  cover.cubes.zipIdx.find? fun entry => entry.1.accepts pattern

/-- The first cube that demands a one outside its mask. -/
def firstStray? (cover : Cover) : Option Cube :=
  cover.cubes.find? fun cube => decide ¬cube.Tidy

theorem constant_evaluate (value : Bool) (pattern : Pattern) :
    (constant value).evaluate pattern = value := by
  simp [evaluate, constant, Cube.wildcard_accepts]

theorem firstStray?_eq_none_iff (cover : Cover) :
    cover.firstStray? = none ↔ ∀ cube ∈ cover.cubes, cube.Tidy := by
  simp [firstStray?]

end Cover
end LogicNet
