import LogicNet.ParseError
import LogicNet.TruthTable.Basic

/-!
The text of a truth table: one digit for each row, the last row first, so that conjunction over two
variables is written `1000`.
-/

namespace LogicNet.TruthTable

/-- The text of a table. -/
def render (table : TruthTable) : String :=
  String.ofList (table.rows.toList.reverse.map fun value => if value then '1' else '0')

/-- The number of variables of a table with `count` rows. It has to exist, and only then has to be
small enough. -/
def varsOfSize (count : Nat) :
    Except ParseError { numVars : Nat // count = 1 <<< numVars ∧ numVars ≤ maxTableVars } :=
  let numVars := count.log2
  if hcount : count = 1 <<< numVars then
    if hvars : numVars ≤ maxTableVars then .ok ⟨numVars, hcount, hvars⟩
    else .error (.tableTooWide numVars)
  else .error (.tableLength count)

/-- Reads the text of a table. The number of characters is judged first, then the first character
that is no digit. -/
def parse (text : String) : Except ParseError TruthTable := do
  let chars := text.toList
  let ⟨numVars, hsize, hvars⟩ ← varsOfSize chars.length
  match chars.find? fun char => char != '0' && char != '1' with
  | some char => .error (.invalidTableChar text char)
  | none =>
    .ok ⟨numVars, (chars.reverse.map (· == '1')).toArray, by simpa using hsize, hvars⟩

end LogicNet.TruthTable
