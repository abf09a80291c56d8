import LogicNet.Cover.Lanes
import Mathlib.Data.List.Induction

/-!
Lanes. A pattern holds packed values with the last one in the lowest place, and each lane of the
words of a cover is the value of the cover on the pattern of that lane. A place beyond those of the
inputs holds zero in every lane, which the words settle before they look at any lane at all.
-/

namespace LogicNet

/-- The pattern holds the values, the first one in the most significant of their places, and zero in
the places above. -/
def Pattern.Holds (pattern : Pattern) (values : List Bool) : Prop :=
  ∀ place, pattern.getLsbD place = values.reverse[place]?.getD false

/-- Packed values are held by their pattern, as long as they have room. -/
theorem Pattern.ofBits_holds {values : List Bool} (h : values.length ≤ 32) :
    (ofBits values).Holds values := by
  induction values using List.reverseRecOn with
  | nil =>
      intro place
      simp
  | append_singleton values value ih =>
      rw [List.length_append, List.length_singleton] at h
      intro place
      rw [ofBits_append_singleton, List.reverse_append, List.reverse_singleton,
        List.singleton_append]
      cases place with
      | zero => cases value <;> simp
      | succ place =>
          have hshift : (ofBits values <<< 1).getLsbD (place + 1) =
              (decide (place + 1 < 32) && (ofBits values).getLsbD place) := by
            simp [BitVec.getLsbD_shiftLeft]
          have hbit : ((BitVec.ofBool value).setWidth 32).getLsbD (place + 1) = false := by
            simp
          rw [BitVec.getLsbD_or, hshift, hbit, Bool.or_false, ih (by omega), List.getElem?_cons_succ]
          by_cases hroom : place + 1 < 32
          · rw [decide_eq_true hroom, Bool.true_and]
          · have hshort : values.reverse[place]? = none := by
              rw [List.getElem?_eq_none_iff, List.length_reverse]
              omega
            rw [decide_eq_false hroom, hshort]
            rfl

/-- No two patterns hold the same values. -/
theorem Pattern.Holds.eq {pattern other : Pattern} {values : List Bool} (h : pattern.Holds values)
    (h' : other.Holds values) : pattern = other :=
  BitVec.eq_of_getLsbD_eq fun place _ => (h place).trans (h' place).symm

/-- The place of a value: the last one is in place zero. -/
theorem Pattern.Holds.getLsbD_value {pattern : Pattern} {values : List Bool} {value : Bool}
    {position : Nat} (h : pattern.Holds values) (hvalue : values[position]? = some value) :
    pattern.getLsbD (values.length - 1 - position) = value := by
  have hlt := (List.getElem?_eq_some_iff.1 hvalue).1
  have hback : values.length - 1 - (values.length - 1 - position) = position := by omega
  rw [h, List.getElem?_reverse (by omega), hback, hvalue]
  rfl

theorem Pattern.Holds.getLsbD_above {pattern : Pattern} {values : List Bool} {place : Nat}
    (h : pattern.Holds values) (hplace : values.length ≤ place) :
    pattern.getLsbD place = false := by
  have hnone : values.reverse[place]? = none := by
    rwa [List.getElem?_eq_none_iff, List.length_reverse]
  rw [h, hnone]
  rfl

theorem foldl_and_getLsbD {α : Type} (f : α → Word) (items : List α) (start : Word) (p : Nat) :
    (items.foldl (fun lanes item => lanes &&& f item) start).getLsbD p =
      (start.getLsbD p && items.all fun item => (f item).getLsbD p) := by
  induction items generalizing start with
  | nil => simp
  | cons item rest ih => rw [List.foldl_cons, ih, BitVec.getLsbD_and, List.all_cons, Bool.and_assoc]

section Lanes

variable {words : List Word} {p : Nat}

theorem Cube.literalLanes_getLsbD (cube : Cube) (place : Nat) (word : Word) (hp : p < 64) :
    (cube.literalLanes place word).getLsbD p = true ↔
      (cube.mask.getLsbD place = true → word.getLsbD p = cube.bits.getLsbD place) := by
  unfold literalLanes
  cases cube.mask.getLsbD place with
  | false =>
      rw [if_neg Bool.false_ne_true, BitVec.getLsbD_allOnes]
      simp [hp]
  | true =>
      rw [if_pos rfl]
      cases cube.bits.getLsbD place with
      | false =>
          rw [if_neg Bool.false_ne_true, BitVec.getLsbD_not]
          simp [hp]
      | true => simp

/-- A pattern has no place of its own beside another one if it holds zero wherever the other does. -/
theorem Pattern.and_not_eq_zero_iff (pattern other : Pattern) : pattern &&& ~~~other = 0 ↔
    ∀ place < 32, other.getLsbD place = false → pattern.getLsbD place = false := by
  constructor
  · intro h place hplace hother
    have hzero := congrArg (fun pattern : Pattern => pattern.getLsbD place) h
    simp only [BitVec.getLsbD_and, BitVec.getLsbD_not, hother, hplace] at hzero
    simpa using hzero
  · intro h
    apply BitVec.eq_of_getLsbD_eq
    intro place hplace
    have hbit := h place hplace
    cases hother : other.getLsbD place <;> simp_all

theorem Pattern.and_not_low_eq_zero_iff (pattern : Pattern) (width : Nat) :
    pattern &&& ~~~low width = 0 ↔
      ∀ place < 32, width ≤ place → pattern.getLsbD place = false := by
  rw [and_not_eq_zero_iff]
  refine forall₂_congr fun place hplace => ?_
  rw [low_getLsbD, decide_eq_false_iff_not, Nat.lt_min, and_iff_left hplace, Nat.not_lt]

/-- A cube demands no one above the places of `width` values exactly if it has no literal there that
a zero would fail. -/
theorem Cube.demands_above_iff (cube : Cube) (width : Nat) :
    cube.bits &&& cube.mask &&& ~~~Pattern.low width = 0 ↔
      ∀ place < 32, width ≤ place → cube.mask.getLsbD place = true →
        cube.bits.getLsbD place = false := by
  rw [Pattern.and_not_low_eq_zero_iff]
  refine forall₃_congr fun place _ _ => ?_
  rw [BitVec.getLsbD_and, Bool.and_eq_false_imp]
  cases cube.bits.getLsbD place <;> cases cube.mask.getLsbD place <;> decide

/-- A cube accepts packed values if each of its literals holds of the value at its place and it
demands no one above the places of the values. -/
theorem Cube.accepts_iff_of_holds (cube : Cube) {pattern : Pattern} {values : List Bool}
    (h : pattern.Holds values) (hlength : values.length ≤ 32) :
    cube.accepts pattern = true ↔
      (∀ place < 32, values.length ≤ place → cube.mask.getLsbD place = true →
        cube.bits.getLsbD place = false) ∧
      ∀ position value, values[position]? = some value →
        cube.mask.getLsbD (values.length - 1 - position) = true →
        value = cube.bits.getLsbD (values.length - 1 - position) := by
  rw [accepts_iff]
  constructor
  · intro haccepts
    refine ⟨fun place hplace hwidth hmask => ?_, fun position value hvalue hmask => ?_⟩
    · rw [← haccepts place hplace hmask, h.getLsbD_above hwidth]
    · have hlt := (List.getElem?_eq_some_iff.1 hvalue).1
      rw [← haccepts _ (by omega) hmask, h.getLsbD_value hvalue]
  · rintro ⟨habove, hliterals⟩ place hplace hmask
    by_cases hwidth : values.length ≤ place
    · rw [h.getLsbD_above hwidth, habove place hplace hwidth hmask]
    · have hlt : values.length - 1 - place < values.length := by omega
      have hback : values.length - 1 - (values.length - 1 - place) = place := by omega
      have hvalue := List.getElem?_eq_getElem hlt
      have hplaced := h.getLsbD_value hvalue
      have hliteral := hliterals _ _ hvalue
      rw [hback] at hplaced hliteral
      rw [hplaced, hliteral hmask]

/-- The lane of a cube says whether the cube accepts the values in that lane. -/
theorem Cube.lanes_getLsbD (cube : Cube) (hwords : words.length ≤ 32) (hp : p < 64) :
    (cube.lanes words).getLsbD p = cube.accepts (Pattern.ofBits (words.map (·.getLsbD p))) := by
  have hlength : (words.map (·.getLsbD p)).length = words.length := List.length_map _
  have hheld := Pattern.ofBits_holds (hlength.symm ▸ hwords)
  rw [Bool.eq_iff_iff, cube.accepts_iff_of_holds hheld (hlength.symm ▸ hwords), hlength]
  unfold lanes
  split
  · next habove =>
      rw [foldl_and_getLsbD, BitVec.getLsbD_allOnes, decide_eq_true hp, Bool.true_and,
        List.all_eq_true, and_iff_right ((cube.demands_above_iff _).1 habove)]
      constructor
      · intro hliterals position value hvalue
        rw [List.getElem?_map, Option.map_eq_some_iff] at hvalue
        obtain ⟨word, hword, rfl⟩ := hvalue
        have hliteral := hliterals (word, position) (List.mem_zipIdx_iff_getElem?.2 hword)
        exact (cube.literalLanes_getLsbD _ word hp).1 hliteral
      · rintro hliterals ⟨word, position⟩ hentry
        have hword := List.mem_zipIdx_iff_getElem?.1 hentry
        refine (cube.literalLanes_getLsbD _ word hp).2 (hliterals position _ ?_)
        rw [List.getElem?_map, hword, Option.map_some]
  · next habove =>
      exact iff_of_false (by simp) fun hall => habove ((cube.demands_above_iff _).2 hall.1)

/-- What has been accepted stays so, and a cube more accepts the lanes that are its own. -/
theorem Cover.acceptedLanes_getLsbD (hwords : words.length ≤ 32) (hp : p < 64) (accepted : Word)
    (cubes : List Cube) :
    (acceptedLanes words accepted cubes).getLsbD p =
      (accepted.getLsbD p || cubes.any (·.accepts (Pattern.ofBits (words.map (·.getLsbD p))))) := by
  induction cubes generalizing accepted with
  | nil => simp [acceptedLanes]
  | cons cube rest ih =>
      have hcube : (accepted ||| cube.lanes words).getLsbD p = (accepted.getLsbD p ||
          cube.accepts (Pattern.ofBits (words.map (·.getLsbD p)))) := by
        rw [BitVec.getLsbD_or, cube.lanes_getLsbD hwords hp]
      rw [acceptedLanes, List.any_cons, ← Bool.or_assoc, ← hcube]
      split
      · next hall =>
          have hlane : (accepted ||| cube.lanes words).getLsbD p = true := by
            rw [hall, BitVec.getLsbD_allOnes, decide_eq_true hp]
          rw [hlane, Bool.true_or]
      · exact ih _

/-- The lane of a cover is the value of the cover on the values in that lane. -/
theorem Cover.lanes_getLsbD (cover : Cover) (hwords : words.length ≤ 32) (hp : p < 64) :
    (cover.lanes words).getLsbD p =
      cover.evaluate (Pattern.ofBits (words.map (·.getLsbD p))) := by
  have haccepted := acceptedLanes_getLsbD hwords hp 0 cover.cubes
  rw [BitVec.ofNat_eq_ofNat, BitVec.getLsbD_zero, Bool.false_or] at haccepted
  unfold lanes evaluate
  rw [← haccepted]
  cases cover.polarity with
  | true => simp
  | false => simp [hp]

end Lanes
end LogicNet
