import LogicNet.Cover.Basic
import LogicNet.Fault

/-!
Dense truth tables. Row `i` of a table holds the value of the function on the assignment whose
packed pattern is `i`, so the first variable is the most significant bit of a row's number. The
cover of a table lists the rows of one value, whichever value has fewer of them.
-/

namespace LogicNet

/-- The values of a function of `numVars` variables, one for each assignment to them. -/
structure TruthTable where
  numVars : Nat
  rows : Array Bool
  size_rows : rows.size = 1 <<< numVars
  numVars_le : numVars ≤ maxTableVars
  deriving DecidableEq

namespace TruthTable

/-- The table of `value`. Tables over too many variables are refused. -/
def ofFn (numVars : Nat) (value : Pattern → Bool) : Except Fault TruthTable :=
  if h : numVars ≤ maxTableVars then
    .ok ⟨numVars, Array.ofFn fun row : Fin (1 <<< numVars) => value (BitVec.ofNat 32 row),
      Array.size_ofFn, h⟩
  else .error (.tableTooWide numVars)

/-- The table that is false everywhere. -/
def zeros (numVars : Nat) : Except Fault TruthTable := ofFn numVars fun _ => false

/-- The number of rows. -/
def size (table : TruthTable) : Nat := table.rows.size

/-- The value in a row. -/
def get (table : TruthTable) (row : Nat) : Except Fault Bool :=
  match table.rows[row]? with
  | some value => .ok value
  | none => .error (.rowOutOfBounds row table.size)

/-- The table with one row changed. -/
def set (table : TruthTable) (row : Nat) (value : Bool) : Except Fault TruthTable :=
  if row < table.size then
    .ok { table with
      rows := table.rows.setIfInBounds row value
      size_rows := by rw [Array.size_setIfInBounds]; exact table.size_rows }
  else .error (.rowOutOfBounds row table.size)

/-- The number of rows that are true. -/
def ones (table : TruthTable) : Nat := table.rows.count true

/-- The number of rows that are false. -/
def zeroCount (table : TruthTable) : Nat := table.rows.count false

/-- Whether the function is false everywhere. -/
def isZero (table : TruthTable) : Bool := table.rows.all (!·)

/-- The numbers of the rows with the given value, in increasing order. -/
def rowsWith (table : TruthTable) (value : Bool) : List Nat :=
  (table.rows.toList.zipIdx.filter (·.1 == value)).map (·.2)

/-- The cover of the function: one minterm for each row of the rarer value, and for each true row
if both values are equally common. -/
def toCover (table : TruthTable) : Cover :=
  let polarity := decide (table.ones ≤ table.zeroCount)
  ⟨(table.rowsWith polarity).map fun row => Cube.minterm (BitVec.ofNat 32 row) table.numVars,
    polarity⟩

theorem size_eq (table : TruthTable) : table.size = 1 <<< table.numVars := table.size_rows

theorem get_eq_ok_iff (table : TruthTable) (row : Nat) (value : Bool) :
    table.get row = .ok value ↔ table.rows[row]? = some value := by
  unfold get
  split <;> simp_all

theorem isZero_iff (table : TruthTable) : table.isZero = true ↔ table.ones = 0 := by
  simp only [isZero, ones, Array.all_eq_true_iff_forall_mem, Array.count_eq_zero]
  constructor
  · intro h hmem
    simpa using h true hmem
  · intro h value hmem
    cases value
    · rfl
    · exact absurd hmem h

end TruthTable
end LogicNet
