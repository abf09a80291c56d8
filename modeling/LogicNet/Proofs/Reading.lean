import LogicNet.Cover.Text
import LogicNet.Proofs.Resemblance
import LogicNet.Proofs.RoundTrip
import Mathlib.Data.Set.List

/-!
The meaning of the texts of cubes. A text is read exactly if it is not too long and its characters
are those of literals, and what is read are the literals that are written, the first input at the
most significant of their places. So a row of a cover means what it shows: a dash at a position asks
nothing of the value there, a digit that the value is this digit, for values one by one and in the
lanes of words.
-/

namespace LogicNet

open Network

namespace Literal

theorem ofChar?_eq_some_iff {char : Char} {literal : Literal} :
    ofChar? char = some literal ↔ char = literal.toChar := by
  constructor
  · intro h
    unfold ofChar? at h
    split at h <;> cases h <;> rfl
  · rintro rfl
    exact ofChar?_toChar literal

theorem mem_chars_iff {char : Char} :
    char ∈ ['0', '1', '-'] ↔ ∃ literal : Literal, char = literal.toChar := by
  constructor
  · intro h
    simp only [List.mem_cons, List.not_mem_nil, or_false] at h
    rcases h with rfl | rfl | rfl
    · exact ⟨zero, rfl⟩
    · exact ⟨one, rfl⟩
    · exact ⟨free, rfl⟩
  · rintro ⟨literal, rfl⟩
    cases literal <;> decide

/-- Reads one character of a text. -/
def read (text : String) (char : Char) : Except ParseError Literal :=
  match ofChar? char with
  | some literal => .ok literal
  | none => .error (.invalidCubeChar text char)

theorem read_eq_ok_iff {text : String} {char : Char} {literal : Literal} :
    read text char = .ok literal ↔ char = literal.toChar := by
  rw [← ofChar?_eq_some_iff, read]
  split <;> simp_all

theorem read_eq_error {text : String} {char : Char} (h : char ∉ ['0', '1', '-']) :
    read text char = .error (.invalidCubeChar text char) := by
  have hnone : ofChar? char = none := by
    cases hread : ofChar? char with
    | none => rfl
    | some literal => exact absurd (mem_chars_iff.2 ⟨literal, ofChar?_eq_some_iff.1 hread⟩) h
  rw [read, hnone]

theorem exists_read_iff {text : String} {char : Char} :
    (∃ literal, read text char = .ok literal) ↔ char ∈ ['0', '1', '-'] := by
  simp only [read_eq_ok_iff, mem_chars_iff]

end Literal

namespace Cube

theorem parse_eq (text : String) : parse text =
    if maxFanin < text.length then .error (.cubeTooWide text.length)
    else (text.toList.mapM (Literal.read text)).map ofLiterals := by
  unfold parse
  dsimp only
  rw [String.length_toList]
  by_cases hwide : maxFanin < text.length
  · rw [if_pos hwide, if_pos hwide]
    rfl
  · rw [if_neg hwide, if_neg hwide]
    show (text.toList.mapM (Literal.read text) >>= fun literals => .ok (ofLiterals literals)) = _
    cases text.toList.mapM (Literal.read text) <;> rfl

/-- The texts that are read are those of literals, and of not too many. -/
theorem parse_eq_ok_iff {text : String} {cube : Cube} : parse text = .ok cube ↔
    ∃ literals : List Literal, literals.length ≤ maxFanin ∧
      text.toList = literals.map Literal.toChar ∧ cube = ofLiterals literals := by
  have hread : ∀ literals : List Literal, text.toList.mapM (Literal.read text) = .ok literals ↔
      text.toList = literals.map Literal.toChar := fun literals => by
    simp only [mapM_except_eq_ok_iff, Literal.read_eq_ok_iff, ← List.forall₂_map_right_iff,
      List.forall₂_eq_eq_eq]
  rw [parse_eq, ← String.length_toList]
  split
  · next hwide =>
      refine iff_of_false nofun fun ⟨literals, hlength, htext, _⟩ => ?_
      rw [htext, List.length_map] at hwide
      exact Nat.not_le.2 hwide hlength
  · next hwide =>
      cases hliterals : text.toList.mapM (Literal.read text) with
      | error error =>
          refine iff_of_false nofun fun ⟨literals, _, htext, _⟩ => ?_
          rw [(hread literals).2 htext] at hliterals
          cases hliterals
      | ok literals =>
          have htext := (hread literals).1 hliterals
          rw [htext, List.length_map] at hwide
          constructor
          · intro hcube
            cases hcube
            exact ⟨literals, Nat.le_of_not_lt hwide, htext, rfl⟩
          · rintro ⟨others, _, hothers, rfl⟩
            rw [(hread others).2 hothers] at hliterals
            cases hliterals
            rfl

/-- A text is read exactly if it has at most 32 characters, all of them those of literals. -/
theorem exists_parse_iff {text : String} : (∃ cube, parse text = .ok cube) ↔
    text.length ≤ 32 ∧ ∀ char ∈ text.toList, char ∈ ['0', '1', '-'] := by
  constructor
  · rintro ⟨cube, hcube⟩
    obtain ⟨literals, hlength, htext, _⟩ := parse_eq_ok_iff.1 hcube
    refine ⟨by rwa [← String.length_toList, htext, List.length_map], fun char hchar => ?_⟩
    rw [htext] at hchar
    obtain ⟨literal, _, rfl⟩ := List.mem_map.1 hchar
    exact Literal.mem_chars_iff.2 ⟨literal, rfl⟩
  · rintro ⟨hlength, hchars⟩
    obtain ⟨literals, hliterals⟩ : text.toList ∈ Set.range (List.map Literal.toChar) := by
      rw [Set.range_list_map]
      intro char hchar
      obtain ⟨literal, hliteral⟩ := Literal.mem_chars_iff.1 (hchars char hchar)
      exact ⟨literal, hliteral.symm⟩
    refine ⟨ofLiterals literals, parse_eq_ok_iff.2 ⟨literals, ?_, hliterals.symm, rfl⟩⟩
    rwa [← List.length_map Literal.toChar, hliterals, String.length_toList]

theorem parse_tooWide {text : String} (h : 32 < text.length) :
    parse text = .error (.cubeTooWide text.length) := by
  rw [parse_eq]
  exact if_pos h

/-- The first character that is none of a literal decides the error. -/
theorem parse_offending {text : String} (hlength : text.length ≤ 32) {before after : List Char}
    {char : Char} (htext : text.toList = before ++ char :: after)
    (hbefore : ∀ earlier ∈ before, earlier ∈ ['0', '1', '-']) (hchar : char ∉ ['0', '1', '-']) :
    parse text = .error (.invalidCubeChar text char) := by
  have hrefused : text.toList.mapM (Literal.read text) = .error (.invalidCubeChar text char) := by
    rw [htext]
    exact mapM_except_eq_error (fun earlier hmem => Literal.exists_read_iff.2 (hbefore earlier hmem))
      (Literal.read_eq_error hchar)
  have hfits : ¬ maxFanin < text.length := Nat.not_lt.2 hlength
  rw [parse_eq, if_neg hfits, hrefused]
  rfl

/-- A cube is tidy exactly if it demands no one where it does not care. -/
theorem tidy_iff (cube : Cube) : cube.Tidy ↔
    ∀ place < 32, cube.mask.getLsbD place = false → cube.bits.getLsbD place = false :=
  Pattern.and_not_eq_zero_iff cube.bits cube.mask

theorem shiftLeft_one_getLsbD_succ (pattern : Pattern) (place : Nat) :
    (pattern <<< 1).getLsbD (place + 1) =
      (decide (place + 1 < 32) && pattern.getLsbD place) := by
  simp [BitVec.getLsbD_shiftLeft]

section Push

variable (cube : Cube) (literal : Literal) (place : Nat)

theorem push_mask_succ : (cube.push literal).mask.getLsbD (place + 1) =
    (decide (place + 1 < 32) && cube.mask.getLsbD place) := by
  have hone : (1 : Pattern).getLsbD (place + 1) = false := by simp
  cases literal <;> simp only [push, BitVec.getLsbD_or, shiftLeft_one_getLsbD_succ, hone,
    Bool.or_false]

theorem push_bits_succ : (cube.push literal).bits.getLsbD (place + 1) =
    (decide (place + 1 < 32) && cube.bits.getLsbD place) := by
  have hone : (1 : Pattern).getLsbD (place + 1) = false := by simp
  cases literal <;> simp only [push, BitVec.getLsbD_or, shiftLeft_one_getLsbD_succ, hone,
    Bool.or_false]

/-- The literal that is added last stands in the lowest place. -/
theorem literalAt_push_zero : (cube.push literal).literalAt 0 = literal := by
  cases literal <;> simp [push, literalAt]

/-- The other literals move up by one place, as long as there is one. -/
theorem literalAt_push_succ : (cube.push literal).literalAt (place + 1) =
    if place + 1 < 32 then cube.literalAt place else .free := by
  unfold literalAt
  rw [push_mask_succ, push_bits_succ]
  by_cases hroom : place + 1 < 32 <;> simp [hroom]

end Push

theorem push_tidy {cube : Cube} (h : cube.Tidy) (literal : Literal) :
    (cube.push literal).Tidy := by
  rw [tidy_iff] at h ⊢
  intro place hplace hmask
  cases place with
  | zero => cases literal <;> simp_all [push]
  | succ place =>
      rw [push_mask_succ, decide_eq_true hplace, Bool.true_and] at hmask
      rw [push_bits_succ, h place (by omega) hmask, Bool.and_false]

theorem ofLiterals_snoc (literals : List Literal) (literal : Literal) :
    ofLiterals (literals ++ [literal]) = (ofLiterals literals).push literal := by
  simp [ofLiterals, List.foldl_append]

theorem ofLiterals_tidy (literals : List Literal) : (ofLiterals literals).Tidy := by
  induction literals using List.reverseRecOn with
  | nil => decide
  | append_singleton literals literal ih =>
      rw [ofLiterals_snoc]
      exact push_tidy ih literal

/-- The last literal stands in the lowest place, and the places above the first one are free. -/
theorem literalAt_ofLiterals {literals : List Literal} (h : literals.length ≤ 32) (place : Nat) :
    (ofLiterals literals).literalAt place = literals.reverse[place]?.getD .free := by
  induction literals using List.reverseRecOn generalizing place with
  | nil => simp [ofLiterals, wildcard, literalAt]
  | append_singleton literals literal ih =>
      rw [List.length_append, List.length_singleton] at h
      rw [ofLiterals_snoc, List.reverse_append, List.reverse_singleton, List.singleton_append]
      cases place with
      | zero => rw [literalAt_push_zero]; rfl
      | succ place =>
          rw [literalAt_push_succ, ih (by omega), List.getElem?_cons_succ]
          by_cases hroom : place + 1 < 32
          · rw [if_pos hroom]
          · have hshort : literals.reverse[place]? = none := by
              rw [List.getElem?_eq_none_iff, List.length_reverse]
              omega
            rw [if_neg hroom, hshort]
            rfl

/-- The literals that were read stand in the cube, in their order. -/
theorem literals_ofLiterals {literals : List Literal} (h : literals.length ≤ 32) :
    (ofLiterals literals).literals literals.length = literals := by
  apply List.ext_getElem (literals_length _ _)
  intro position hposition hlt
  have hback : literals.length - 1 - (literals.length - 1 - position) = position := by omega
  apply Option.some.inj
  rw [← List.getElem?_eq_getElem hposition, literals_getElem? _ hlt, literalAt_ofLiterals h,
    List.getElem?_reverse (by omega), hback, List.getElem?_eq_getElem hlt, Option.getD_some]

/-- Nothing is demanded in front of the literals that were read. -/
theorem ofLiterals_shown {literals : List Literal} (h : literals.length ≤ 32) :
    (ofLiterals literals).Shown literals.length := by
  refine (demands_above_iff _ _).2 fun place _ hplace hmask => ?_
  have hfree := literalAt_ofLiterals h place
  rw [List.getElem?_eq_none (by rwa [List.length_reverse]), Option.getD_none, literalAt,
    if_pos hmask] at hfree
  cases hbits : (ofLiterals literals).bits.getLsbD place with
  | false => rfl
  | true => rw [hbits, if_pos rfl] at hfree; cases hfree

/-- A cube that has been read accepts the values that its literals admit, one by one. -/
theorem accepts_ofLiterals_iff {literals : List Literal} {values : List Bool}
    (hlength : values.length = literals.length) (h : values.length ≤ 32) :
    (ofLiterals literals).accepts (Pattern.ofBits values) = true ↔
      List.Forall₂ (fun value literal => literal.admits value = true) values literals := by
  have hliterals := literals_ofLiterals (hlength ▸ h)
  have hshown := ofLiterals_shown (hlength ▸ h)
  rw [← hlength] at hliterals hshown
  rw [accepts_eq_literals h hshown, hliterals, List.forall₂_iff_zip, and_iff_right hlength,
    List.all_eq_true]
  exact ⟨fun hall _ _ hpair => hall _ hpair, fun hall pair hpair => hall hpair⟩

end Cube

/-- The character of a value. -/
def digit (value : Bool) : Char := if value then '1' else '0'

/-- A row admits values if at each position it has a dash or the digit of the value there. -/
def RowAdmits (row : String) (values : List Bool) : Prop :=
  List.Forall₂ (fun value char => char = '-' ∨ char = digit value) values row.toList

instance (row : String) (values : List Bool) : Decidable (RowAdmits row values) :=
  inferInstanceAs (Decidable (List.Forall₂ _ _ _))

theorem Literal.toChar_admits_iff (literal : Literal) (value : Bool) :
    (literal.toChar = '-' ∨ literal.toChar = digit value) ↔ literal.admits value = true := by
  cases literal <;> cases value <;> decide

/-- The cube of a row accepts what the row admits. -/
theorem Cube.accepts_iff_rowAdmits {row : String} {cube : Cube} (hread : parse row = .ok cube)
    {values : List Bool} (hlength : values.length = row.length) :
    cube.accepts (Pattern.ofBits values) = true ↔ RowAdmits row values := by
  obtain ⟨literals, hfits, hrow, rfl⟩ := parse_eq_ok_iff.1 hread
  rw [← String.length_toList, hrow, List.length_map] at hlength
  rw [accepts_ofLiterals_iff hlength (hlength ▸ hfits), RowAdmits, hrow, List.forall₂_map_right_iff]
  simp only [Literal.toChar_admits_iff]

namespace Cover

theorem parse_eq_ok_iff {rows : List String} {polarity : Bool} {cover : Cover} :
    parse rows polarity = .ok cover ↔ cover.polarity = polarity ∧
      List.Forall₂ (fun row cube => Cube.parse row = .ok cube) rows cover.cubes := by
  rw [← mapM_except_eq_ok_iff]
  show (rows.mapM Cube.parse >>= fun cubes => .ok ⟨cubes, polarity⟩) = .ok cover ↔ _
  obtain ⟨cubes, polarity'⟩ := cover
  cases rows.mapM Cube.parse with
  | error error => simp [Bind.bind, Except.bind]
  | ok read => simp [Bind.bind, Except.bind, and_comm, eq_comm]

/-- The first row that is refused decides the error. -/
theorem parse_error {before after : List String} {row : String} {error : ParseError}
    (hbefore : ∀ earlier ∈ before, ∃ cube, Cube.parse earlier = .ok cube)
    (hrow : Cube.parse row = .error error) (polarity : Bool) :
    parse (before ++ row :: after) polarity = .error error := by
  unfold parse
  rw [mapM_except_eq_error hbefore hrow]
  rfl

theorem evaluate_eq_polarity_iff (cover : Cover) (pattern : Pattern) :
    cover.evaluate pattern = cover.polarity ↔ ∃ cube ∈ cover.cubes, cube.accepts pattern = true := by
  rw [← List.any_eq_true, evaluate]
  split <;> simp_all

end Cover

/-- If items and results that belong together agree, so do the statements that there is such a one. -/
theorem exists_mem_iff_of_forall₂ {α β : Type} {R : α → β → Prop} {P : α → Prop} {Q : β → Prop}
    {items : List α} {results : List β} (h : List.Forall₂ R items results)
    (hagree : ∀ item ∈ items, ∀ result, R item result → (P item ↔ Q result)) :
    (∃ item ∈ items, P item) ↔ ∃ result ∈ results, Q result := by
  induction h with
  | nil => simp
  | cons hfirst _ ih =>
      simp only [List.exists_mem_cons_iff, hagree _ List.mem_cons_self _ hfirst]
      rw [ih fun item hitem => hagree item (List.mem_cons_of_mem _ hitem)]

namespace Cover

variable {rows : List String} {polarity : Bool} {cover : Cover}

theorem tidy_of_parse (hread : parse rows polarity = .ok cover) :
    ∀ cube ∈ cover.cubes, cube.Tidy := by
  obtain ⟨_, hcubes⟩ := parse_eq_ok_iff.1 hread
  have hstray : (∃ row ∈ rows, False) ↔ ∃ cube ∈ cover.cubes, ¬ cube.Tidy :=
    exists_mem_iff_of_forall₂ hcubes fun row _ cube hrow => by
      obtain ⟨literals, _, _, rfl⟩ := Cube.parse_eq_ok_iff.1 hrow
      exact iff_of_false id (not_not.2 (Cube.ofLiterals_tidy literals))
  simpa using hstray

/-- A cover that has been read has its polarity on the values that some row admits. -/
theorem evaluate_iff_rowAdmits (hread : parse rows polarity = .ok cover) {values : List Bool}
    (hwidth : ∀ row ∈ rows, row.length = values.length) :
    cover.evaluate (Pattern.ofBits values) = polarity ↔ ∃ row ∈ rows, RowAdmits row values := by
  obtain ⟨rfl, hcubes⟩ := parse_eq_ok_iff.1 hread
  rw [evaluate_eq_polarity_iff]
  refine (exists_mem_iff_of_forall₂ hcubes fun row hrow cube hcube => ?_).symm
  exact (Cube.accepts_iff_rowAdmits hcube (hwidth row hrow).symm).symm

end Cover

/-- How a text of a cube is read: it is accepted, or refused for its length, or else for its first
character that is none of a literal. -/
structure Cube.ReadByRule (text : String) : Prop where
  accepted : (∃ cube, parse text = .ok cube) ↔
    text.length ≤ 32 ∧ ∀ char ∈ text.toList, char ∈ ['0', '1', '-']
  tooWide : 32 < text.length → parse text = .error (.cubeTooWide text.length)
  offending : ∀ before char after, text.length ≤ 32 → text.toList = before ++ char :: after →
    (∀ earlier ∈ before, earlier ∈ ['0', '1', '-']) → char ∉ ['0', '1', '-'] →
    parse text = .error (.invalidCubeChar text char)

theorem Cube.readByRule (text : String) : ReadByRule text where
  accepted := exists_parse_iff
  tooWide := parse_tooWide
  offending _ _ _ hlength htext hbefore hchar := parse_offending hlength htext hbefore hchar

/-- A gate computes its cover in the lanes of as many words as it has children. -/
theorem Graph.computeWords_gate {g : Graph} {n : NodeId} {node : Node} {cover : Cover}
    (hnode : g.nodes[n]? = some node) (hcover : g.covers[node.cover]? = some cover)
    {words : List Word} (hlength : words.length = node.children.length) :
    g.computeWords n words = .ok (cover.lanes words) := by
  simp only [computeWords, children, (node_eq_ok_iff g n node).2 hnode, nodeCover,
    (cover_eq_ok_iff g node.cover cover).2 hcover, hlength, Bind.bind, Except.bind, pure,
    Except.pure, ne_eq, not_true_eq_false, if_false]

/-- A node computes the polarity exactly of the values that some row admits, for values one by one
and in each lane of words. -/
structure Network.MeansRows (net : Network) (n : NodeId) (width : Nat) (rows : List String)
    (polarity : Bool) : Prop where
  values : ∀ values : List Bool, values.length = width → ∃ value,
    (compute n values net).answer = .ok value ∧
      (value = polarity ↔ ∃ row ∈ rows, RowAdmits row values)
  words : ∀ words : List Word, words.length = width → ∃ word,
    net.graph.computeWords n words = .ok word ∧
      ∀ p < 64, (word.getLsbD p = polarity ↔
        ∃ row ∈ rows, RowAdmits row (words.map (·.getLsbD p)))

/-- A gate whose cover has been read from rows means the rows. -/
theorem Network.meansRows_of_gate {net : Network} {n : NodeId} {children : List NodeId}
    {c : CoverId} {cover : Cover} {rows : List String} {polarity : Bool}
    (hread : Cover.parse rows polarity = .ok cover)
    (hwidth : ∀ row ∈ rows, row.length = children.length) (hfanin : children.length ≤ 32)
    (hnode : net.graph.nodes[n]? = some ⟨children, c⟩)
    (hcover : net.graph.covers[c]? = some cover) (hgate : net.graph.isGate n = true) :
    MeansRows net n children.length rows polarity where
  values values hlength := by
    refine ⟨_, ?_, Cover.evaluate_iff_rowAdmits hread (hlength ▸ hwidth)⟩
    rw [compute_answer]
    exact Graph.compute_gate hnode hcover hgate hlength (hlength ▸ hfanin)
  words words hlength := by
    refine ⟨_, Graph.computeWords_gate hnode hcover hlength, fun p hp => ?_⟩
    rw [Cover.lanes_getLsbD cover (hlength ▸ hfanin) hp]
    apply Cover.evaluate_iff_rowAdmits hread
    rwa [List.length_map, hlength]

/-- The texts of cubes mean what they say. They are read by their rule, a list of them is refused
for the first that is, and in every reachable network with room for the uses a node that is made
from rows that are read, each as wide as its children are many, means the rows. -/
theorem Reachable.rows_meant {net : Network} (h : Reachable net)
    (huses : net.graph.references.length < UInt32.size - 32) :
    (∀ text, Cube.ReadByRule text) ∧
    (∀ before row after error polarity,
      (∀ earlier ∈ before, ∃ cube, Cube.parse earlier = .ok cube) →
      Cube.parse row = .error error →
      Cover.parse (before ++ row :: after) polarity = .error error) ∧
    ∀ (children : List NodeId) (rows : List String) (polarity : Bool), children ≠ [] →
      children.length ≤ 32 → (∀ child ∈ children, child < net.graph.size) →
      (∀ row ∈ rows, row.length = children.length ∧ ∃ cube, Cube.parse row = .ok cube) →
      ∃ cover n, Cover.parse rows polarity = .ok cover ∧
        (coverNode children cover net).answer = .ok n ∧
        MeansRows (coverNode children cover net).state n children.length rows polarity := by
  refine ⟨Cube.readByRule, fun _ _ _ _ polarity hbefore hrow =>
    Cover.parse_error hbefore hrow polarity, fun children rows polarity hne hfanin hlt hrows => ?_⟩
  have hroom : net.graph.references.length + children.length < UInt32.size := by omega
  obtain ⟨cubes, hcubes⟩ := exists_mapM_except fun row hrow => (hrows row hrow).2
  have hread : Cover.parse rows polarity = .ok ⟨cubes, polarity⟩ :=
    Cover.parse_eq_ok_iff.2 ⟨rfl, mapM_except_eq_ok_iff.1 hcubes⟩
  obtain ⟨n, hn, c, hnode, hcover, hgate⟩ :=
    coverNode_gate h (Cover.tidy_of_parse hread) hne hfanin hlt hroom
  exact ⟨_, n, hread, hn, meansRows_of_gate hread (fun row hrow => (hrows row hrow).1) hfanin
    hnode hcover hgate⟩

/-- Rows of an off-set, the one with the dash for both values of the second child. -/
theorem widened_rows_meant : Reachable widened ∧
    Cube.parse "1é" = .error (.invalidCubeChar "1é" 'é') ∧
    Cover.parse ["1-", "01-", "2", "3"] true = .error (.invalidCubeChar "2" '2') ∧
    ∃ cover n, Cover.parse ["1-", "00"] false = .ok cover ∧
      (coverNode [7, 2] cover widened).answer = .ok n ∧
      (compute n [true, true] (coverNode [7, 2] cover widened).state).answer = .ok false ∧
      (compute n [false, true] (coverNode [7, 2] cover widened).state).answer = .ok true ∧
      ∃ word, (coverNode [7, 2] cover widened).state.graph.computeWords n [3, 5] = .ok word ∧
        word.getLsbD 1 = false ∧ word.getLsbD 2 = true := by
  obtain ⟨hread, herror, hmeant⟩ := Reachable.rows_meant widened_reachable (by decide +kernel)
  have hstray : Cube.parse "1é" = .error (.invalidCubeChar "1é" 'é') :=
    (hread "1é").offending ['1'] 'é' [] (by decide +kernel) (by decide +kernel) (by simp)
      (by decide)
  have hdash : Cube.parse "1-" = .ok ⟨2, 2⟩ := by decide +kernel
  have hthree : Cube.parse "01-" = .ok ⟨2, 6⟩ := by decide +kernel
  have hzeros : Cube.parse "00" = .ok ⟨0, 3⟩ := by decide +kernel
  have hfirst : Cover.parse ["1-", "01-", "2", "3"] true = .error (.invalidCubeChar "2" '2') := by
    refine herror ["1-", "01-"] "2" ["3"] _ true (by simp [hdash, hthree]) ?_
    exact (hread "2").offending [] '2' [] (by decide +kernel) (by decide +kernel) (by simp)
      (by decide)
  have hrows : ∀ row ∈ ["1-", "00"], row.length = [7, 2].length ∧
      ∃ cube, Cube.parse row = .ok cube := by
    have hwidth : ∀ row ∈ ["1-", "00"], row.length = [7, 2].length := by decide +kernel
    simpa [hdash, hzeros] using hwidth
  obtain ⟨cover, n, hcover, hn, hmeans⟩ := hmeant [7, 2] ["1-", "00"] false (by decide) (by decide)
    (by decide +kernel) hrows
  obtain ⟨first, hcompute, hadmitted⟩ := hmeans.values [true, true] rfl
  obtain ⟨second, hcompute', hadmitted'⟩ := hmeans.values [false, true] rfl
  obtain ⟨word, hword, hlanes⟩ := hmeans.words [3, 5] rfl
  obtain rfl := hadmitted.2 (by decide +kernel)
  obtain rfl := eq_true_of_ne_false (hadmitted'.not.2 (by decide +kernel))
  refine ⟨widened_reachable, hstray, hfirst, cover, n, hcover, hn, hcompute, hcompute', word, hword,
    (hlanes 1 (by decide)).2 (by decide +kernel), ?_⟩
  exact eq_true_of_ne_false ((hlanes 2 (by decide)).not.2 (by decide +kernel))

end LogicNet
