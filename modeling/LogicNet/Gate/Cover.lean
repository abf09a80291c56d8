import LogicNet.Cover.Basic
import LogicNet.Gate.Basic

/-!
The cover of each primitive gate. The first operand is the most significant place, so `0b10` is the
pattern in which the first of two operands is true and the second is false.
-/

namespace LogicNet.Gate

/-- The patterns over `width` places that are listed, as cubes. -/
def minterms (width : Nat) (patterns : List Pattern) : List Cube :=
  patterns.map (Cube.minterm · width)

/-- The function of a gate, as the shortest of its two lists. -/
def cover : Gate → Cover
  | not => .onSet (minterms 1 [0b0])
  | and => .onSet (minterms 2 [0b11])
  | nand => .offSet (minterms 2 [0b11])
  | or => .offSet (minterms 2 [0b00])
  | nor => .onSet (minterms 2 [0b00])
  | lt => .onSet (minterms 2 [0b01])
  | le => .offSet (minterms 2 [0b10])
  | gt => .onSet (minterms 2 [0b10])
  | ge => .offSet (minterms 2 [0b01])
  | xor => .onSet (minterms 2 [0b01, 0b10])
  | xnor => .onSet (minterms 2 [0b00, 0b11])
  | maj3 => .onSet (minterms 3 [0b011, 0b101, 0b110, 0b111])
  | ite => .onSet [.masked 0b110 0b110, .masked 0b001 0b101]
  | xor3 => .onSet (minterms 3 [0b001, 0b010, 0b100, 0b111])

/-- The value of the gate on operands in order, the first one first. -/
def apply (gate : Gate) (operands : List Bool) : Bool :=
  gate.cover.evaluate (Pattern.ofBits operands)

theorem cover_tidy (gate : Gate) : ∀ cube ∈ gate.cover.cubes, cube.Tidy := by
  cases gate <;> decide

theorem not_apply (a : Bool) : not.apply [a] = !a := by cases a <;> decide

theorem and_apply (a b : Bool) : and.apply [a, b] = (a && b) := by
  cases a <;> cases b <;> decide

theorem or_apply (a b : Bool) : or.apply [a, b] = (a || b) := by
  cases a <;> cases b <;> decide

theorem xor_apply (a b : Bool) : xor.apply [a, b] = (a ^^ b) := by
  cases a <;> cases b <;> decide

theorem lt_apply (a b : Bool) : lt.apply [a, b] = (!a && b) := by
  cases a <;> cases b <;> decide

theorem maj3_apply (a b c : Bool) :
    maj3.apply [a, b, c] = ((a && b) || (a && c) || (b && c)) := by
  cases a <;> cases b <;> cases c <;> decide

theorem ite_apply (a b c : Bool) : ite.apply [a, b, c] = bif a then b else c := by
  cases a <;> cases b <;> cases c <;> decide

theorem xor3_apply (a b c : Bool) : xor3.apply [a, b, c] = (a ^^ b ^^ c) := by
  cases a <;> cases b <;> cases c <;> decide

end LogicNet.Gate
