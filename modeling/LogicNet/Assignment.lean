import LogicNet.Fault

/-!
Assignments to a list of variables, in the order of the numbers that they spell in base two with
the first variable as the most significant digit.
-/

namespace LogicNet.Assignment

/-- Assignment number `index` to `numVars` variables. -/
def ofIndex (numVars index : Nat) : List Bool :=
  (List.range numVars).map fun position => index.testBit (numVars - 1 - position)

/-- The assignments numbered below `count`, of all those to `numVars` variables. -/
def first (numVars count : Nat) : List (List Bool) :=
  (List.range (min count (1 <<< numVars))).map (ofIndex numVars)

/-- All assignments to `numVars` variables. -/
def all (numVars : Nat) : List (List Bool) := (List.range (1 <<< numVars)).map (ofIndex numVars)

/-- Refuses numbers of variables whose assignments are too many to enumerate. -/
def check (numVars : Nat) : Except Fault Unit :=
  if numVars < 32 then .ok () else .error (.tooManyVariables numVars)

@[simp] theorem ofIndex_length (numVars index : Nat) : (ofIndex numVars index).length = numVars := by
  simp [ofIndex]

@[simp] theorem all_length (numVars : Nat) : (all numVars).length = 1 <<< numVars := by simp [all]

theorem first_eq_take (numVars count : Nat) : first numVars count = (all numVars).take count := by
  simp [first, all, ← List.map_take, List.take_range]

end LogicNet.Assignment
