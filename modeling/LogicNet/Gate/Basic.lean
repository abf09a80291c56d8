/-!
The primitive gates: their names and how many operands each takes. What they compute is given by
their covers.
-/

namespace LogicNet

/-- The kinds of primitive gate. `lt`, `le`, `gt` and `ge` compare single bits. -/
inductive Gate where
  | not | and | nand | or | nor | lt | le | gt | ge | xor | xnor | maj3 | ite | xor3
  deriving DecidableEq

namespace Gate

/-- The number of operands of a gate. -/
def arity : Gate → Nat
  | not => 1
  | maj3 | ite | xor3 => 3
  | _ => 2

/-- The gate's name in messages. -/
def name : Gate → String
  | not => "Not"
  | and => "And"
  | nand => "Nand"
  | or => "Or"
  | nor => "Nor"
  | lt => "Lt"
  | le => "Le"
  | gt => "Gt"
  | ge => "Ge"
  | xor => "Xor"
  | xnor => "Xnor"
  | maj3 => "Maj3"
  | ite => "Ite"
  | xor3 => "Xor3"

/-- Every gate, in the order of their declaration. -/
def all : List Gate :=
  [not, and, nand, or, nor, lt, le, gt, ge, xor, xnor, maj3, ite, xor3]

theorem mem_all (gate : Gate) : gate ∈ all := by cases gate <;> decide

theorem arity_pos (gate : Gate) : 0 < gate.arity := by cases gate <;> decide

theorem arity_le_three (gate : Gate) : gate.arity ≤ 3 := by cases gate <;> decide

/-- Finds a gate by its name. -/
def ofName? (text : String) : Option Gate := all.find? (·.name = text)

end Gate
end LogicNet
