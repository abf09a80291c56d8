import LogicNet.Proofs.Depth
import LogicNet.Proofs.Listing
import LogicNet.Proofs.Reading

/-!
Texts there and back. Over a given number of inputs, cubes that keep to the places of the inputs and
texts with a character for each input stand for each other, although a text is read from the first
input on and a cube is numbered from the last. So a cover is read back from its text, as long as the
texts of its cubes are not empty. Over its own width a cover shows every place that some cube cares
about, and it can be read back exactly if it has no cubes, or has a cube with a literal: a cover of
nothing but wildcards shows as many empty texts.
-/

namespace LogicNet

namespace Pattern

/-- All ones of a pattern stand below its length. -/
theorem getLsbD_of_bitLength_le {pattern : Pattern} {place : Nat}
    (h : pattern.bitLength ≤ place) : pattern.getLsbD place = false := by
  unfold bitLength at h
  split at h
  · next hzero => rw [hzero]; exact BitVec.getLsbD_zero
  · exact Nat.testBit_lt_two_pow (Nat.lt_log2_self.trans_le (Nat.pow_le_pow_right two_pos h))

theorem bitLength_le (pattern : Pattern) : pattern.bitLength ≤ 32 := by
  unfold bitLength
  split
  · exact Nat.zero_le 32
  · next hne =>
      have hnat : pattern.toNat ≠ 0 := fun hzero => hne (BitVec.eq_of_toNat_eq hzero)
      exact (Nat.log2_lt hnat).2 pattern.isLt

theorem bitLength_eq_zero_iff {pattern : Pattern} : pattern.bitLength = 0 ↔ pattern = 0 := by
  unfold bitLength
  split <;> simp_all

theorem ones_eq_zero_iff {pattern : Pattern} : pattern.ones = 0 ↔ pattern = 0 := by
  rw [ones, List.countP_eq_zero]
  constructor
  · intro h
    apply BitVec.eq_of_getLsbD_eq
    intro place hplace
    rw [Bool.eq_false_iff.2 (h place (List.mem_range.2 hplace))]
    exact BitVec.getLsbD_zero.symm
  · rintro rfl place _
    simp

end Pattern

namespace Cube

variable {cube cube' : Cube} {width : Nat}

/-- The cube keeps to the low `width` places, and demands no one where it does not care. -/
def Within (cube : Cube) (width : Nat) : Prop :=
  cube.mask &&& ~~~Pattern.low width = 0 ∧ cube.Tidy

instance (cube : Cube) (width : Nat) : Decidable (cube.Within width) :=
  inferInstanceAs (Decidable (_ ∧ _))

theorem literalAt_eq_free_iff {place : Nat} :
    cube.literalAt place = .free ↔ cube.mask.getLsbD place = false := by
  unfold literalAt
  cases cube.mask.getLsbD place <;> cases cube.bits.getLsbD place <;> decide

/-- The places from the width on are free. -/
theorem Within.literalAt (h : cube.Within width) {place : Nat} (hplace : width ≤ place) :
    cube.literalAt place = .free := by
  rw [literalAt_eq_free_iff]
  by_cases hroom : place < 32
  · exact (Pattern.and_not_low_eq_zero_iff _ _).1 h.1 place hroom hplace
  · exact BitVec.getLsbD_of_ge _ _ (Nat.le_of_not_lt hroom)

/-- A tidy cube demands a one only where its literal says so. -/
theorem literalAt_eq_one_iff (h : cube.Tidy) {place : Nat} (hplace : place < 32) :
    cube.literalAt place = .one ↔ cube.bits.getLsbD place = true := by
  unfold Cube.literalAt
  cases hmask : cube.mask.getLsbD place with
  | true => cases cube.bits.getLsbD place <;> decide
  | false =>
      rw [(tidy_iff cube).1 h place hplace hmask]
      decide

/-- Tidy cubes are told by their literals. -/
theorem eq_of_literalAt (h : cube.Tidy) (h' : cube'.Tidy)
    (hliterals : ∀ place < 32, cube.literalAt place = cube'.literalAt place) : cube = cube' := by
  have hbits : cube.bits = cube'.bits := by
    apply BitVec.eq_of_getLsbD_eq
    intro place hplace
    rw [Bool.eq_iff_iff, ← literalAt_eq_one_iff h hplace, ← literalAt_eq_one_iff h' hplace,
      hliterals place hplace]
  have hmask : cube.mask = cube'.mask := by
    apply BitVec.eq_of_getLsbD_eq
    intro place hplace
    rw [Bool.eq_iff_iff, ← Bool.not_eq_false, ← Bool.not_eq_false, ← literalAt_eq_free_iff,
      ← literalAt_eq_free_iff, hliterals place hplace]
  cases cube
  cases hbits
  cases hmask
  rfl

/-- A cube is put together again from its literals. -/
theorem ofLiterals_literals (h : cube.Within width) (hwidth : width ≤ 32) :
    ofLiterals (cube.literals width) = cube := by
  refine eq_of_literalAt (ofLiterals_tidy _) h.2 fun place _ => ?_
  -- The literals are listed from the highest place down, so in reverse each is at its place.
  rw [literalAt_ofLiterals (by rwa [literals_length]), literals, ← List.map_reverse,
    List.reverse_reverse, List.getElem?_map]
  by_cases hplace : place < width
  · rw [List.getElem?_range hplace]
    rfl
  · have hwide : width ≤ place := Nat.le_of_not_lt hplace
    rw [List.getElem?_eq_none (by rwa [List.length_range]), h.literalAt hwide]
    rfl

theorem ofLiterals_within {literals : List Literal} (h : literals.length ≤ 32) :
    (ofLiterals literals).Within literals.length := by
  refine ⟨(Pattern.and_not_low_eq_zero_iff _ _).2 fun place _ hplace => ?_, ofLiterals_tidy _⟩
  rw [← literalAt_eq_free_iff, literalAt_ofLiterals h,
    List.getElem?_eq_none (by rwa [List.length_reverse])]
  rfl

end Cube

/-- The text has one character for each of so many inputs. -/
def Spells (text : String) (width : Nat) : Prop :=
  text.length = width ∧ ∀ char ∈ text.toList, char ∈ ['0', '1', '-']

namespace Cube

variable {cube : Cube} {width : Nat}

theorem render_spells (cube : Cube) (width : Nat) : Spells (cube.render width) width := by
  refine ⟨?_, fun char hchar => ?_⟩
  · rw [← String.length_toList, toList_render, cubeText, List.length_map, literals_length]
  · rw [toList_render] at hchar
    obtain ⟨literal, _, rfl⟩ := List.mem_map.1 hchar
    exact Literal.mem_chars_iff.2 ⟨literal, rfl⟩

theorem renderChecked_eq_ok (h : width ≤ 32) :
    cube.renderChecked width = .ok (cube.render width) :=
  if_pos h

theorem parse_render (h : cube.Within width) (hwidth : width ≤ 32) :
    parse (cube.render width) = .ok cube :=
  parse_eq_ok_iff.2 ⟨cube.literals width, by rwa [literals_length], toList_render cube width,
    (ofLiterals_literals h hwidth).symm⟩

/-- A text that is read is the text of what is read, over as many inputs as it has characters. -/
theorem render_of_parse {text : String} (h : parse text = .ok cube) :
    cube.Within text.length ∧ cube.render text.length = text := by
  obtain ⟨literals, hlength, htext, rfl⟩ := parse_eq_ok_iff.1 h
  have hwidth : text.length = literals.length := by
    rw [← String.length_toList, htext, List.length_map]
  refine ⟨hwidth ▸ ofLiterals_within hlength, ?_⟩
  rw [← String.toList_inj, toList_render, hwidth, literals_ofLiterals hlength, htext, cubeText]

end Cube

/-- The words of a text: what stands between its blanks and is not empty. -/
def words (text : List Char) : List String :=
  ((text.splitOn ' ').map String.ofList).filter (· ≠ "")

/-- The words of texts that are written with blanks between them are the texts, apart from the empty
ones. -/
theorem words_intercalate {texts : List String} (h : ∀ text ∈ texts, ' ' ∉ text.toList) :
    words (" ".toList.intercalate (texts.map String.toList)) = texts.filter (· ≠ "") := by
  by_cases hnil : texts = []
  · subst hnil
    rfl
  · have hblank : ∀ chars ∈ texts.map String.toList, ' ' ∉ chars := List.forall_mem_map.2 h
    have hsplit : (" ".toList.intercalate (texts.map String.toList)).splitOn ' ' =
        texts.map String.toList :=
      List.splitOn_intercalate ' ' hblank (by simpa using hnil)
    rw [words, hsplit, List.map_map]
    simp [Function.comp_def]

namespace Cover

/-- Reads the cubes of a cover, each from a word, as far as the closing bracket. -/
def readCubes? (polarity : Bool) (rest : List Char) : Option Cover :=
  if rest.getLast? = some ']' then (parse (words rest.dropLast) polarity).toOption else none

/-- Reads the text of a cover. -/
def read? (text : String) : Option Cover :=
  match text.toList with
  | 'o' :: 'n' :: '[' :: rest => readCubes? true rest
  | 'o' :: 'f' :: 'f' :: '[' :: rest => readCubes? false rest
  | _ => none

variable {cover : Cover} {width : Nat}

/-- From the text of a cover the texts of its cubes are read, apart from empty ones. -/
theorem read?_render_eq (cover : Cover) (width : Nat) : read? (cover.render width) =
    (parse ((cover.cubes.map (·.render width)).filter (· ≠ "")) cover.polarity).toOption := by
  have hblank : ∀ text ∈ cover.cubes.map (·.render width), ' ' ∉ text.toList := by
    intro text htext hmem
    obtain ⟨cube, _, rfl⟩ := List.mem_map.1 htext
    exact absurd ((cube.render_spells width).2 ' ' hmem) (by decide)
  have htexts : (cover.cubes.map (·.literals width)).map cubeText =
      (cover.cubes.map (·.render width)).map String.toList := by
    simp [Cube.toList_render, Function.comp_def]
  have hcubes : ∀ polarity, readCubes? polarity
      (" ".toList.intercalate ((cover.cubes.map (·.render width)).map String.toList) ++ [']']) =
        (parse ((cover.cubes.map (·.render width)).filter (· ≠ "")) polarity).toOption := by
    intro polarity
    rw [readCubes?, if_pos List.getLast?_concat, List.dropLast_concat, words_intercalate hblank]
  rw [read?, toList_render, htexts]
  cases cover.polarity with
  | true => exact hcubes true
  | false => exact hcubes false

/-- A cover is read back from its text, over one input at least. -/
theorem read?_render (h : ∀ cube ∈ cover.cubes, cube.Within width) (hpos : 1 ≤ width)
    (hwidth : width ≤ 32) : read? (cover.render width) = some cover := by
  have hkept : (cover.cubes.map (·.render width)).filter (· ≠ "") =
      cover.cubes.map (·.render width) := by
    refine List.filter_eq_self.2 (List.forall_mem_map.2 fun cube _ => ?_)
    have hlength := (cube.render_spells width).1
    refine decide_eq_true fun hempty => ?_
    rw [hempty, String.length_empty] at hlength
    omega
  have hread : parse (cover.cubes.map (·.render width)) cover.polarity = .ok cover := by
    refine parse_eq_ok_iff.2 ⟨rfl, ?_⟩
    rw [List.forall₂_map_left_iff, List.forall₂_same]
    exact fun cube hcube => Cube.parse_render (h cube hcube) hwidth
  rw [read?_render_eq, hkept, hread]
  rfl

/-- Over no inputs no cube is seen. -/
theorem read?_render_zero (cover : Cover) :
    read? (cover.render 0) = some ⟨[], cover.polarity⟩ := by
  have hempty : (cover.cubes.map (·.render 0)).filter (· ≠ "") = [] := by
    refine List.filter_eq_nil_iff.2 (List.forall_mem_map.2 fun cube _ => ?_)
    simp [Cube.render, Cube.literals]
  rw [read?_render_eq, hempty]
  rfl

theorem width_eq_sup (cover : Cover) :
    cover.width = cover.cubes.toFinset.sup fun cube => cube.mask.bitLength := by
  rw [← foldl_max_eq_sup, List.foldl_map]
  rfl

theorem width_le (cover : Cover) : cover.width ≤ 32 := by
  rw [width_eq_sup]
  exact Finset.sup_le fun cube _ => cube.mask.bitLength_le

/-- A cover has a width exactly if one of its cubes has a literal. -/
theorem width_pos_iff : 1 ≤ cover.width ↔ ∃ cube ∈ cover.cubes, 0 < cube.literalCount := by
  simp only [width_eq_sup, Nat.one_le_iff_ne_zero, Nat.pos_iff_ne_zero, Cube.literalCount, ne_eq,
    Pattern.ones_eq_zero_iff, ← Pattern.bitLength_eq_zero_iff, Finset.sup_eq_zero]
  simp

/-- The cubes of a cover keep to its width. -/
theorem within_width (h : ∀ cube ∈ cover.cubes, cube.Tidy) :
    ∀ cube ∈ cover.cubes, cube.Within cover.width := by
  intro cube hcube
  refine ⟨(Pattern.and_not_low_eq_zero_iff _ _).2 fun place _ hplace => ?_, h cube hcube⟩
  have hle : cube.mask.bitLength ≤ cover.width := by
    rw [width_eq_sup]
    exact Finset.le_sup (f := fun cube : Cube => cube.mask.bitLength) (List.mem_toFinset.2 hcube)
  exact Pattern.getLsbD_of_bitLength_le (hle.trans hplace)

/-- What is displayed is read back exactly if there is no cube to show or a literal that shows. -/
theorem read?_display_iff (h : ∀ cube ∈ cover.cubes, cube.Tidy) :
    read? cover.display = some cover ↔
      cover.cubes = [] ∨ ∃ cube ∈ cover.cubes, 0 < cube.literalCount := by
  rw [← width_pos_iff, display]
  by_cases hpos : 1 ≤ cover.width
  · exact iff_of_true (read?_render (within_width h) hpos cover.width_le) (.inr hpos)
  · -- Every cube is a wildcard and shows as an empty text, which is no word.
    have hzero : cover.width = 0 := by omega
    rw [hzero, read?_render_zero]
    obtain ⟨cubes, polarity⟩ := cover
    simp [eq_comm]

end Cover

/-- How the texts over so many inputs are read back: cubes and texts stand for each other, and what
is read from the text of a cover is the cover. -/
structure TextCodec (width : Nat) : Prop where
  cube : ∀ cube : Cube, cube.Within width → ∃ text,
    cube.renderChecked width = .ok text ∧ Spells text width ∧ Cube.parse text = .ok cube
  text : ∀ text, Spells text width → ∃ cube : Cube,
    Cube.parse text = .ok cube ∧ cube.Within width ∧ cube.renderChecked width = .ok text
  cover : 1 ≤ width → ∀ cover : Cover, (∀ cube ∈ cover.cubes, cube.Within width) → ∃ text,
    cover.renderChecked width = .ok text ∧ Cover.read? text = some cover

theorem textCodec {width : Nat} (hwidth : width ≤ 32) : TextCodec width where
  cube cube h := ⟨cube.render width, Cube.renderChecked_eq_ok hwidth, cube.render_spells width,
    Cube.parse_render h hwidth⟩
  text text h := by
    obtain ⟨rfl, hchars⟩ := h
    obtain ⟨cube, hcube⟩ := Cube.exists_parse_iff.2 ⟨hwidth, hchars⟩
    obtain ⟨hwithin, hrender⟩ := Cube.render_of_parse hcube
    refine ⟨cube, hcube, hwithin, ?_⟩
    rw [Cube.renderChecked_eq_ok hwidth, hrender]
  cover hpos cover h :=
    ⟨cover.render width, if_pos (.inl hwidth), Cover.read?_render h hpos hwidth⟩

/-- The texts of cubes and covers are read back. Over up to 32 inputs cubes and texts stand for each
other, and a cover has a text from which it is read, over one input at least. A cover is also read
from what is displayed of it, if one of its cubes has a literal. -/
theorem texts_read_back : (∀ width ≤ 32, TextCodec width) ∧
    ∀ cover : Cover, (∀ cube ∈ cover.cubes, cube.Tidy) →
      (∃ cube ∈ cover.cubes, 0 < cube.literalCount) →
      cover.renderChecked cover.width = .ok cover.display ∧
        Cover.read? cover.display = some cover :=
  ⟨fun _ hwidth => textCodec hwidth, fun cover htidy hliteral =>
    ⟨if_pos (.inl cover.width_le), (Cover.read?_display_iff htidy).2 (.inr hliteral)⟩⟩

/-- A cover whose first input shows over two inputs, but is not displayed, and one without cubes. -/
theorem dashes_read_back :
    Cube.parse "1-0" = .ok ⟨4, 5⟩ ∧ Cube.renderChecked ⟨4, 5⟩ 3 = .ok "1-0" ∧
    Cover.read? "on[-1 --]" = some (.onSet [⟨1, 1⟩, .wildcard]) ∧
    Cover.read? "on[1 -]" = some (.onSet [⟨1, 1⟩, .wildcard]) ∧
    Cover.read? "off[]" = some (.offSet []) := by
  obtain ⟨hcodec, hdisplay⟩ := texts_read_back
  have hsame : Cube.parse "1-0" = .ok ⟨4, 5⟩ := by decide +kernel
  have hspells : Spells "1-0" 3 := ⟨by decide +kernel, (Cube.exists_parse_iff.1 ⟨_, hsame⟩).2⟩
  obtain ⟨cube, hcube, _, hrender⟩ := (hcodec 3 (by decide)).text "1-0" hspells
  obtain ⟨wide, hwide, hread⟩ := (hcodec 2 (by decide)).cover (by decide)
    (.onSet [⟨1, 1⟩, .wildcard]) (by decide +kernel)
  obtain ⟨bare, hbare, hread'⟩ := (hcodec 3 (by decide)).cover (by decide) (.offSet [])
    (by decide +kernel)
  have hshown := (hdisplay (.onSet [⟨1, 1⟩, .wildcard]) (by decide +kernel) (by decide +kernel)).2
  have hwide' : (Cover.onSet [⟨1, 1⟩, .wildcard]).renderChecked 2 = .ok "on[-1 --]" := by
    decide +kernel
  have hbare' : (Cover.offSet []).renderChecked 3 = .ok "off[]" := by decide +kernel
  have hshown' : (Cover.onSet [⟨1, 1⟩, .wildcard]).display = "on[1 -]" := by decide +kernel
  rw [hsame] at hcube
  rw [hwide'] at hwide
  rw [hbare'] at hbare
  rw [hshown'] at hshown
  cases hcube
  cases hwide
  cases hbare
  exact ⟨hsame, hrender, hread, hshown, hread'⟩

end LogicNet
