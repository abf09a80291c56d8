import LogicNet.Gate.Cover
import LogicNet.TruthTable.Basic
import Mathlib.Algebra.Group.Nat.Defs
import Mathlib.Data.List.Basic
import Mathlib.Data.List.Induction

/-!
The Boolean functions that are asked for: that of a cover, of a kind of gate, and of a truth table.
Values are packed with the first one most significant, so the packed values of the variables of a
table spell the number of the row that holds the value of the table there.
-/

namespace LogicNet

/-- The number that values spell in base two, the first one as the most significant digit. -/
def Assignment.index (values : List Bool) : Nat :=
  values.foldl (fun index value => 2 * index + value.toNat) 0

@[simp] theorem Assignment.index_append_singleton (values : List Bool) (value : Bool) :
    index (values ++ [value]) = 2 * index values + value.toNat := by
  simp [index, List.foldl_append]

theorem Assignment.index_lt (values : List Bool) : index values < 2 ^ values.length := by
  induction values using List.reverseRecOn with
  | nil => decide
  | append_singleton values value ih =>
      have := value.toNat_lt
      rw [index_append_singleton, List.length_append, List.length_singleton, Nat.pow_succ]
      omega

/-- Packed values are their number, as long as they have room. -/
theorem Pattern.ofBits_toNat (values : List Bool) (h : values.length ≤ 32) :
    (ofBits values).toNat = Assignment.index values := by
  induction values using List.reverseRecOn with
  | nil => rfl
  | append_singleton values value ih =>
      rw [List.length_append, List.length_singleton] at h
      have hlt := Assignment.index_lt values
      have hpow : 2 ^ values.length ≤ 2 ^ 31 := Nat.pow_le_pow_right (by decide) (by omega)
      have hvalue := value.toNat_lt
      have hshift : (ofBits values <<< 1).toNat = Assignment.index values <<< 1 := by
        rw [BitVec.toNat_shiftLeft, ih (by omega), Nat.shiftLeft_eq]
        exact Nat.mod_eq_of_lt (by omega)
      have hbit : ((BitVec.ofBool value).setWidth 32).toNat = value.toNat := by
        cases value <;> rfl
      rw [ofBits_append_singleton, BitVec.toNat_or, hshift, hbit,
        ← Nat.shiftLeft_add_eq_or_of_lt (by omega), Nat.shiftLeft_eq,
        Assignment.index_append_singleton]
      omega

/-- The value of a cover on values in order. Without any it has its polarity. -/
def Cover.onValues (cover : Cover) (values : List Bool) : Bool :=
  if values = [] then cover.polarity else cover.evaluate (Pattern.ofBits values)

theorem Cover.onValues_of_ne_nil (cover : Cover) {values : List Bool} (h : values ≠ []) :
    cover.onValues values = cover.evaluate (Pattern.ofBits values) := if_neg h

/-- The function of a kind of gate. -/
def Gate.onValues : Gate → List Bool → Bool
  | not, [a] => !a
  | and, [a, b] => a && b
  | nand, [a, b] => !(a && b)
  | or, [a, b] => a || b
  | nor, [a, b] => !(a || b)
  | lt, [a, b] => decide (a < b)
  | le, [a, b] => decide (a ≤ b)
  | gt, [a, b] => decide (b < a)
  | ge, [a, b] => decide (b ≤ a)
  | xor, [a, b] => a != b
  | xnor, [a, b] => a == b
  | maj3, [a, b, c] => decide (2 ≤ a.toNat + b.toNat + c.toNat)
  | ite, [a, b, c] => if a then b else c
  | xor3, [a, b, c] => decide ((a.toNat + b.toNat + c.toNat) % 2 = 1)
  | _, _ => false

/-- The function of a truth table: the value in the row that the values spell. -/
def TruthTable.onValues (table : TruthTable) (values : List Bool) : Bool :=
  table.rows.getD (Assignment.index values) false

/-- The cover of a kind of gate has its function. -/
theorem Gate.cover_evaluate (gate : Gate) {values : List Bool} (h : values.length = gate.arity) :
    gate.cover.evaluate (Pattern.ofBits values) = gate.onValues values := by
  cases gate with
  | not =>
      obtain ⟨a, rfl⟩ := List.length_eq_one_iff.1 h
      cases a <;> decide
  | maj3 | ite | xor3 =>
      obtain ⟨a, b, c, rfl⟩ := List.length_eq_three.1 h
      cases a <;> cases b <;> cases c <;> decide
  | _ =>
      obtain ⟨a, b, rfl⟩ := List.length_eq_two.1 h
      cases a <;> cases b <;> decide

theorem TruthTable.mem_rowsWith_iff (table : TruthTable) (value : Bool) (row : Nat) :
    row ∈ table.rowsWith value ↔ table.rows[row]? = some value := by
  simp only [rowsWith, List.mem_map, List.mem_filter, beq_iff_eq, Prod.exists]
  constructor
  · rintro ⟨other, position, ⟨hmem, rfl⟩, rfl⟩
    simpa using List.mem_zipIdx_iff_getElem?.1 hmem
  · intro hrow
    exact ⟨value, row, ⟨List.mem_zipIdx_iff_getElem?.2 (by simpa using hrow), rfl⟩, rfl⟩

/-- The low places together hold the largest number of as many digits. -/
theorem Pattern.toNat_low {width : Nat} (h : width ≤ 32) : (low width).toNat = 2 ^ width - 1 := by
  apply Nat.eq_of_testBit_eq
  intro place
  rw [← BitVec.getLsbD, low_getLsbD, Nat.min_eq_left h, Nat.testBit_two_pow_sub_one]

theorem Pattern.toNat_and_low (pattern : Pattern) {width : Nat} (h : width ≤ 32) :
    (pattern &&& low width).toNat = pattern.toNat % 2 ^ width := by
  rw [BitVec.toNat_and, toNat_low h, Nat.and_two_pow_sub_one_eq_mod]

/-- A minterm accepts the patterns that agree with its own in the low places, whatever stands above
them. -/
theorem Cube.minterm_accepts_iff {pattern other : Pattern} {width : Nat} (h : width ≤ 32) :
    (minterm pattern width).accepts other = true ↔
      other.toNat % 2 ^ width = pattern.toNat % 2 ^ width := by
  rw [accepts, minterm, masked, beq_iff_eq, BitVec.and_assoc, BitVec.and_self, ← BitVec.toNat_inj,
    Pattern.toNat_and_low other h, Pattern.toNat_and_low pattern h]

theorem TruthTable.size_rows_eq_pow (table : TruthTable) : table.rows.size = 2 ^ table.numVars := by
  rw [table.size_rows, Nat.one_shiftLeft]

theorem TruthTable.pow_numVars_le (table : TruthTable) : 2 ^ table.numVars ≤ 2 ^ 16 :=
  Nat.pow_le_pow_right (by decide) table.numVars_le

/-- The cover of a table has at a pattern the value in the row that the low places spell. -/
theorem TruthTable.toCover_evaluate_eq (table : TruthTable) {pattern : Pattern} {value : Bool}
    (hrow : table.rows[pattern.toNat % 2 ^ table.numVars]? = some value) :
    table.toCover.evaluate pattern = value := by
  have hvars : table.numVars ≤ 16 := table.numVars_le
  have hpow := table.pow_numVars_le
  have haccepts : table.toCover.cubes.any (·.accepts pattern) = true ↔
      value = table.toCover.polarity := by
    have hminterm : ∀ {row : Nat}, row < 2 ^ table.numVars →
        ((Cube.minterm (BitVec.ofNat 32 row) table.numVars).accepts pattern = true ↔
          pattern.toNat % 2 ^ table.numVars = row) := by
      intro row hlt
      have hnumber : (BitVec.ofNat 32 row).toNat = row := Nat.mod_eq_of_lt (by omega)
      rw [Cube.minterm_accepts_iff (by omega), hnumber, Nat.mod_eq_of_lt hlt]
    simp only [toCover, List.any_map, List.any_eq_true, Function.comp_apply, mem_rowsWith_iff]
    constructor
    · rintro ⟨row, hmem, haccept⟩
      have hlt := (Array.getElem?_eq_some_iff.1 hmem).1
      rw [table.size_rows_eq_pow] at hlt
      rw [← (hminterm hlt).1 haccept, hrow] at hmem
      exact Option.some.inj hmem
    · rintro rfl
      exact ⟨_, hrow, (hminterm (Nat.mod_lt _ (Nat.two_pow_pos _))).2 rfl⟩
  rw [Cover.evaluate]
  by_cases hpolarity : value = table.toCover.polarity
  · rw [if_pos (haccepts.2 hpolarity), hpolarity]
  · rw [if_neg (fun hany => hpolarity (haccepts.1 hany))]
    exact (Bool.eq_not_of_ne hpolarity).symm

/-- The cover of a table has its function. -/
theorem TruthTable.toCover_evaluate (table : TruthTable) {values : List Bool}
    (h : values.length = table.numVars) :
    table.toCover.evaluate (Pattern.ofBits values) = table.onValues values := by
  have hvars : table.numVars ≤ 16 := table.numVars_le
  have hindex := Assignment.index_lt values
  rw [h] at hindex
  have hrow : table.rows[Assignment.index values]? = some (table.onValues values) := by
    rw [onValues, Array.getD_eq_getD_getElem?,
      Array.getElem?_eq_getElem (by rw [table.size_rows_eq_pow]; exact hindex), Option.getD_some]
  apply table.toCover_evaluate_eq
  rw [Pattern.ofBits_toNat values (by omega), Nat.mod_eq_of_lt hindex, hrow]

theorem Gate.cover_onValues (gate : Gate) {values : List Bool} (h : values.length = gate.arity) :
    gate.cover.onValues values = gate.onValues values := by
  have hne : values ≠ [] := by
    rintro rfl
    exact Nat.ne_of_lt gate.arity_pos h
  rw [gate.cover.onValues_of_ne_nil hne, gate.cover_evaluate h]

theorem TruthTable.toCover_onValues (table : TruthTable) {values : List Bool}
    (h : values.length = table.numVars) (hne : values ≠ []) :
    table.toCover.onValues values = table.onValues values := by
  rw [table.toCover.onValues_of_ne_nil hne, table.toCover_evaluate h]

/-- A table without variables has one row. -/
theorem TruthTable.onValues_nil (table : TruthTable) (h : table.numVars = 0) :
    table.onValues [] = !table.isZero := by
  obtain ⟨value, hrows⟩ := Array.size_eq_one_iff.1 (by rw [table.size_rows, h]; rfl)
  simp [onValues, isZero, hrows, Assignment.index]

end LogicNet
