import LogicNet.Graph.Terminals
import LogicNet.Graph.Uses
import Mathlib.Data.List.Nodup

/-!
The lists of terminals and what is kept beside them. All inputs stand in one list, and a table leads
from each of them to its position; all outputs stand in one list, and those behind the primary ones
have reset values in a list of their own. An input is added at the end of its list and under a name
that is new, so the table stays that of the list, and as long as no register terminal has been added
the count of the primary ones is the length of the list.
-/

namespace LogicNet

namespace Inputs

/-- The list is long enough for its count, and the table of positions is that of the list. -/
structure Indexed (terminals : Inputs) : Prop where
  primary_le : terminals.primaryInputCount ≤ terminals.inputs.length
  position : ∀ (n : NodeId) (i : Nat),
    terminals.inputPositions[n]? = some i ↔ terminals.inputs[i]? = some n

variable {terminals : Inputs} {n : NodeId}

namespace Indexed

theorem none : Inputs.none.Indexed where
  primary_le := Nat.le_refl _
  position n i := by simp [Inputs.none]

theorem contains_iff (h : terminals.Indexed) :
    terminals.inputPositions.contains n = true ↔ n ∈ terminals.inputs := by
  rw [← Std.ExtTreeMap.isSome_getElem?_eq_contains, Option.isSome_iff_exists,
    List.mem_iff_getElem?]
  exact exists_congr fun i => h.position n i

theorem position_eq_none_iff (h : terminals.Indexed) :
    terminals.inputPositions[n]? = .none ↔ n ∉ terminals.inputs := by
  rw [← h.contains_iff, ← Std.ExtTreeMap.isSome_getElem?_eq_contains]
  simp

/-- One name has one position. -/
theorem nodup (h : terminals.Indexed) : terminals.inputs.Nodup := by
  refine List.nodup_iff_getElem?_ne_getElem?.2 fun i j hij hj hsame => ?_
  obtain ⟨n, hn⟩ : ∃ n, terminals.inputs[j]? = some n := ⟨_, List.getElem?_eq_getElem hj⟩
  have hi := (h.position n i).2 (hsame.trans hn)
  rw [(h.position n j).2 hn] at hi
  exact Nat.ne_of_gt hij (Option.some.inj hi)

theorem first_iff (h : terminals.Indexed) : terminals.registerOutputs = [] ↔
    terminals.inputs.length = terminals.primaryInputCount := by
  rw [registerOutputs, List.drop_eq_nil_iff]
  exact ⟨fun hle => Nat.le_antisymm hle h.primary_le, Nat.le_of_eq⟩

/-- The new input has the last position, and every other one keeps its own. -/
theorem push (h : terminals.Indexed) (hnew : n ∉ terminals.inputs) :
    (terminals.push n).Indexed where
  primary_le := by
    rw [Inputs.push, List.length_append]
    exact Nat.le_add_right_of_le h.primary_le
  position m i := by
    have hlist : (terminals.inputs ++ [n])[i]? = some m ↔
        terminals.inputs[i]? = some m ∨ i = terminals.inputs.length ∧ n = m := by
      rcases Nat.lt_trichotomy i terminals.inputs.length with hlt | rfl | hgt
      · rw [List.getElem?_append_left hlt]
        simp [Nat.ne_of_lt hlt]
      · simp
      · rw [List.getElem?_eq_none (by rw [List.length_append]; exact hgt)]
        simp [Nat.ne_of_gt hgt, Nat.le_of_lt hgt]
    rw [Inputs.push, Std.ExtTreeMap.getElem?_insert, hlist, ← h.position m i]
    by_cases hsame : n = m
    · subst hsame
      simp [h.position_eq_none_iff.2 hnew, eq_comm]
    · simp [hsame]

/-- A first input may be counted as a primary one. -/
theorem pushPrimary (h : terminals.Indexed) (hnew : n ∉ terminals.inputs) :
    (terminals.pushPrimary n).Indexed where
  primary_le := by
    rw [Inputs.pushPrimary, Inputs.push, List.length_append]
    exact Nat.succ_le_succ h.primary_le
  position := (h.push hnew).position

end Indexed

theorem registerOutputs_push (h : terminals.primaryInputCount ≤ terminals.inputs.length) :
    (terminals.push n).registerOutputs = terminals.registerOutputs ++ [n] :=
  List.drop_append_of_le_length h

theorem primaryInputs_push (h : terminals.primaryInputCount ≤ terminals.inputs.length) :
    (terminals.push n).primaryInputs = terminals.primaryInputs :=
  List.take_append_of_le_length h

/-- As long as all inputs are primary, so is a primary input that is added. -/
theorem first_pushPrimary (h : terminals.inputs.length = terminals.primaryInputCount) :
    (terminals.pushPrimary n).inputs.length = (terminals.pushPrimary n).primaryInputCount := by
  rw [pushPrimary, push, List.length_append, h]
  rfl

theorem primaryInputs_of_first (h : terminals.inputs.length = terminals.primaryInputCount) :
    terminals.primaryInputs = terminals.inputs :=
  List.take_of_length_le (Nat.le_of_eq h)

theorem registerOutputs_of_first (h : terminals.inputs.length = terminals.primaryInputCount) :
    terminals.registerOutputs = [] :=
  List.drop_eq_nil_of_le (Nat.le_of_eq h)

theorem primaryInputs_pushPrimary (h : terminals.inputs.length = terminals.primaryInputCount) :
    (terminals.pushPrimary n).primaryInputs = terminals.primaryInputs ++ [n] := by
  rw [primaryInputs_of_first (first_pushPrimary h), primaryInputs_of_first h]
  rfl

theorem registerOutputs_pushPrimary (h : terminals.inputs.length = terminals.primaryInputCount) :
    (terminals.pushPrimary n).registerOutputs = [] :=
  registerOutputs_of_first (first_pushPrimary h)

end Inputs

namespace Outputs

/-- Every output behind the primary ones has a reset value. -/
def Matched (terminals : Outputs) : Prop :=
  terminals.outputs.length = terminals.primaryOutputCount + terminals.resets.length

variable {terminals : Outputs} {signal : NodeId} {reset : Reset}

theorem primaryOutputs_of_first (h : terminals.outputs.length = terminals.primaryOutputCount) :
    terminals.primaryOutputs = terminals.outputs :=
  List.take_of_length_le (Nat.le_of_eq h)

theorem registerInputs_of_first (h : terminals.outputs.length = terminals.primaryOutputCount) :
    terminals.registerInputs = [] :=
  List.drop_eq_nil_of_le (Nat.le_of_eq h)

theorem first_pushPrimary (h : terminals.outputs.length = terminals.primaryOutputCount) :
    (terminals.pushPrimary signal).outputs.length =
      (terminals.pushPrimary signal).primaryOutputCount := by
  rw [pushPrimary, List.length_append, h]
  rfl

theorem primaryOutputs_pushPrimary (h : terminals.outputs.length = terminals.primaryOutputCount) :
    (terminals.pushPrimary signal).primaryOutputs = terminals.primaryOutputs ++ [signal] := by
  rw [primaryOutputs_of_first (first_pushPrimary h), primaryOutputs_of_first h]
  rfl

theorem registerInputs_pushPrimary (h : terminals.outputs.length = terminals.primaryOutputCount) :
    (terminals.pushPrimary signal).registerInputs = [] :=
  registerInputs_of_first (first_pushPrimary h)

namespace Matched

theorem primary_le (h : terminals.Matched) :
    terminals.primaryOutputCount ≤ terminals.outputs.length :=
  h ▸ Nat.le_add_right _ _

theorem first_iff (h : terminals.Matched) :
    terminals.resets = [] ↔ terminals.outputs.length = terminals.primaryOutputCount := by
  rw [h, Nat.add_eq_left, List.length_eq_zero_iff]

theorem registerInputs_length (h : terminals.Matched) :
    terminals.registerInputs.length = terminals.resets.length := by
  rw [Outputs.registerInputs_length, h, Nat.add_sub_cancel_left]

theorem nextStates_length (h : terminals.Matched) :
    terminals.nextStates.length = terminals.resets.length := by
  rw [nextStates, List.length_zipWith, h.registerInputs_length, Nat.min_self]

theorem outputs_length (h : terminals.Matched) :
    terminals.primaryOutputs.length + terminals.nextStates.length = terminals.outputs.length := by
  rw [h.nextStates_length, ← h.registerInputs_length, ← List.length_append, primaryOutputs_append]

theorem signals (h : terminals.Matched) :
    terminals.nextStates.map (·.signal) = terminals.registerInputs := by
  rw [nextStates, ← List.map_uncurry_zip_eq_zipWith, List.map_map]
  exact List.map_fst_zip (Nat.le_of_eq h.registerInputs_length)

theorem resets (h : terminals.Matched) :
    terminals.nextStates.map (·.reset) = terminals.resets := by
  rw [nextStates, ← List.map_uncurry_zip_eq_zipWith, List.map_map]
  exact List.map_snd_zip (Nat.le_of_eq h.registerInputs_length.symm)

theorem pushPrimary (h : terminals.Matched) : (terminals.pushPrimary signal).Matched := by
  rw [Matched, Outputs.pushPrimary, List.length_append, h]
  exact Nat.add_right_comm _ _ _

theorem pushRegister (h : terminals.Matched) : (terminals.pushRegister signal reset).Matched := by
  rw [Matched, Outputs.pushRegister, List.length_append, h, List.length_append, Nat.add_assoc]
  rfl

theorem primaryOutputs_pushRegister (h : terminals.Matched) :
    (terminals.pushRegister signal reset).primaryOutputs = terminals.primaryOutputs :=
  List.take_append_of_le_length h.primary_le

theorem registerInputs_pushRegister (h : terminals.Matched) :
    (terminals.pushRegister signal reset).registerInputs = terminals.registerInputs ++ [signal] :=
  List.drop_append_of_le_length h.primary_le

end Matched
end Outputs
end LogicNet
