import LogicNet.Proofs.RoundTrip
import Mathlib.Data.Nat.Digits.Lemmas

/-!
Assignments by their numbers. Values in order are the digits of a number in base two, the first one
the most significant, and a pattern has room for thirty-two of them. So packing tells values of one
length apart, and the enumeration of assignments, in which each has the place of its number, lists
all of them and none twice.
-/

namespace LogicNet

namespace Assignment

variable {numVars : Nat} {values others : List Bool}

/-- The digits of a number in base two are listed from the least significant on. -/
theorem index_eq_ofDigits (values : List Bool) :
    index values = Nat.ofDigits 2 (values.reverse.map Bool.toNat) := by
  induction values using List.reverseRecOn with
  | nil => rfl
  | append_singleton values value ih =>
      calc index (values ++ [value])
          = value.toNat + 2 * index values := by rw [index_append_singleton, Nat.add_comm]
        _ = value.toNat + 2 * Nat.ofDigits 2 (values.reverse.map Bool.toNat) := by rw [ih]
        _ = Nat.ofDigits 2 ((values ++ [value]).reverse.map Bool.toNat) := by
            rw [List.reverse_append, List.reverse_singleton, List.singleton_append, List.map_cons,
              Nat.ofDigits_cons]

/-- Values of one length are told by their number. -/
theorem eq_of_index_eq (hlength : values.length = others.length)
    (h : index values = index others) : values = others := by
  have hdigit : ∀ values : List Bool, ∀ digit ∈ values.reverse.map Bool.toNat, digit < 2 := by
    intro values digit hmem
    obtain ⟨value, _, rfl⟩ := List.mem_map.1 hmem
    exact value.toNat_lt
  rw [index_eq_ofDigits, index_eq_ofDigits] at h
  have hdigits : values.reverse.map Bool.toNat = others.reverse.map Bool.toNat := by
    refine Nat.ofDigits_inj_of_len_eq one_lt_two ?_ (hdigit values) (hdigit others) h
    rw [List.length_map, List.length_map, List.length_reverse, List.length_reverse, hlength]
  have hvalue : Function.Injective Bool.toNat := by decide
  apply List.reverse_injective
  exact List.map_injective_iff.2 hvalue hdigits

theorem ofIndex_index (h : values.length = numVars) : ofIndex numVars (index values) = values := by
  apply eq_of_index_eq
  · rw [ofIndex_length, h]
  · exact index_ofIndex (h ▸ index_lt values)

theorem mem_all_iff : values ∈ all numVars ↔ values.length = numVars := by
  constructor
  · intro hmem
    obtain ⟨i, _, rfl⟩ := List.mem_map.1 hmem
    exact ofIndex_length numVars i
  · intro hlength
    refine List.mem_map.2 ⟨index values, ?_, ofIndex_index hlength⟩
    rw [Nat.one_shiftLeft, List.mem_range, ← hlength]
    exact index_lt values

theorem nodup_all (numVars : Nat) : (all numVars).Nodup := by
  refine List.nodup_range.map_on fun i hi j hj hsame => ?_
  rw [Nat.one_shiftLeft, List.mem_range] at hi hj
  rw [← index_ofIndex hi, hsame, index_ofIndex hj]

end Assignment

/-- Packing loses nothing of up to thirty-two values. -/
theorem Pattern.eq_of_ofBits_eq {values others : List Bool} (hroom : values.length ≤ 32)
    (hlength : values.length = others.length) (h : ofBits values = ofBits others) :
    values = others := by
  apply Assignment.eq_of_index_eq hlength
  rw [← ofBits_toNat values hroom, ← ofBits_toNat others (hlength ▸ hroom), h]

/-- The assignments to so many variables are enumerated: each is listed once, with a value for each
variable, at the place of the number that its packed values are. -/
structure Assignment.Enumerated (numVars : Nat) : Prop where
  allowed : check numVars = .ok ()
  length : (all numVars).length = 2 ^ numVars
  width : ∀ row ∈ all numVars, row.length = numVars
  place : ∀ i < 2 ^ numVars, ∃ row, (all numVars)[i]? = some row ∧ (Pattern.ofBits row).toNat = i
  once : ∀ values : List Bool, values.length = numVars → (all numVars).count values = 1

theorem Assignment.enumerated {numVars : Nat} (h : numVars < 32) : Enumerated numVars where
  allowed := if_pos h
  length := by rw [all_length, Nat.one_shiftLeft]
  width _ := mem_all_iff.1
  place i hi := by
    have hwidth := ofIndex_length numVars i
    refine ⟨ofIndex numVars i, getElem?_all hi, ?_⟩
    rw [Pattern.ofBits_toNat _ (hwidth.trans_le h.le), index_ofIndex hi]
  once values hlength := List.count_eq_one_of_mem (nodup_all numVars) (mem_all_iff.2 hlength)

/-- Packing and enumeration agree on the order of digits. The assignments to fewer than thirty-two
variables are enumerated by their packed values, up to thirty-two values are packed into the number
of which they are the digits, and so no two lists of them of one length into the same. -/
theorem assignments_numbered :
    (∀ numVars < 32, Assignment.Enumerated numVars) ∧
    (∀ values : List Bool, values.length ≤ 32 →
      (Pattern.ofBits values).toNat = Nat.ofDigits 2 (values.reverse.map Bool.toNat)) ∧
    ∀ values others : List Bool, values.length ≤ 32 → values.length = others.length →
      Pattern.ofBits values = Pattern.ofBits others → values = others := by
  refine ⟨fun _ => Assignment.enumerated, fun values hroom => ?_,
    fun _ _ => Pattern.eq_of_ofBits_eq⟩
  rw [Pattern.ofBits_toNat values hroom, Assignment.index_eq_ofDigits]

/-- A thirty-third value moves the first one out of the pattern. -/
example : Pattern.ofBits (true :: List.replicate 32 false) = 0 := by decide

/-- The numbers are right at both ends: without variables there is one assignment, and thirty-two
values reach the highest place. -/
theorem assignments_numbered_ends :
    (Assignment.all 0).count [] = 1 ∧
    (∃ row, (Assignment.all 31)[2 ^ 31 - 2]? = some row ∧
      (Pattern.ofBits row).toNat = 2 ^ 31 - 2) ∧
    (Pattern.ofBits (true :: List.replicate 31 false)).toNat = 2 ^ 31 ∧
    Assignment.ofIndex 3 6 = [true, true, false] := by
  obtain ⟨henumerated, hnumber, hinjective⟩ := assignments_numbered
  have hhighest := hnumber (true :: List.replicate 31 false) (by decide)
  exact ⟨(henumerated 0 (by decide)).once [] rfl,
    (henumerated 31 (by decide)).place (2 ^ 31 - 2) (by decide),
    hhighest.trans (by decide +kernel),
    hinjective _ [true, true, false] (by decide) (by decide) (by decide)⟩

end LogicNet
