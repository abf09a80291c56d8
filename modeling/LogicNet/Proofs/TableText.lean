import LogicNet.Proofs.Reading
import LogicNet.TruthTable.Text

/-!
The texts of truth tables. A text is that of a table exactly if it has a digit for each row, and
then it is read as this table and as no other: the last row comes first, and so the row of a
character is told by how many characters follow it. Every other text is refused, for its number of
characters before any of them is looked at.
-/

namespace LogicNet

theorem digit_mem (value : Bool) : digit value ∈ ['0', '1'] := by
  cases value <;> decide

theorem digit_beq_one (value : Bool) : (digit value == '1') = value := by
  cases value <;> decide

theorem digit_of_mem {char : Char} (h : char ∈ ['0', '1']) : digit (char == '1') = char := by
  simp only [List.mem_cons, List.not_mem_nil, or_false] at h
  rcases h with rfl | rfl <;> decide

theorem stray_iff {char : Char} : (char != '0' && char != '1') = true ↔ char ∉ ['0', '1'] := by
  simp

namespace TruthTable

variable {table other : TruthTable} {text : String} {numVars : Nat}

/-- Tables are told by their rows. -/
theorem eq_of_rows_eq (h : table.rows = other.rows) : table = other := by
  have hpow : 2 ^ table.numVars = 2 ^ other.numVars := by
    rw [← size_rows_eq_pow, ← size_rows_eq_pow, h]
  have hvars := Nat.pow_right_injective le_rfl hpow
  cases table
  cases other
  cases hvars
  cases h
  rfl

theorem toList_render (table : TruthTable) :
    table.render.toList = table.rows.toList.reverse.map digit :=
  String.toList_ofList

theorem length_render (table : TruthTable) : table.render.length = 2 ^ table.numVars := by
  rw [← String.length_toList, toList_render, List.length_map, List.length_reverse,
    Array.length_toList, size_rows_eq_pow]

/-- The row of a character is told by how many characters follow. -/
theorem getElem?_render (table : TruthTable) {row : Nat} {value : Bool}
    (h : table.get row = .ok value) :
    table.render.toList[2 ^ table.numVars - 1 - row]? = some (digit value) := by
  rw [get_eq_ok_iff] at h
  have hlt := (Array.getElem?_eq_some_iff.1 h).1
  rw [← size_rows_eq_pow, ← Array.length_toList, toList_render, List.getElem?_map,
    List.getElem?_reverse (by rw [Array.length_toList]; omega)]
  have hback : table.rows.toList.length - 1 - (table.rows.toList.length - 1 - row) = row := by
    rw [Array.length_toList]
    omega
  rw [hback, Array.getElem?_toList, h, Option.map_some]

/-- A text of digits is that of the table with the rows that it shows, the last one first. -/
theorem render_digits (hdigits : ∀ char ∈ text.toList, char ∈ ['0', '1'])
    (hrows : table.rows = (text.toList.reverse.map (· == '1')).toArray) : table.render = text := by
  rw [← String.toList_inj, toList_render, hrows, ← List.map_reverse, List.reverse_reverse,
    List.map_map]
  refine (List.map_congr_left fun char hchar => ?_).trans (List.map_id text.toList)
  exact digit_of_mem (hdigits char hchar)

theorem size_digits (hlength : text.length = 1 <<< numVars) :
    (text.toList.reverse.map (· == '1')).toArray.size = 1 <<< numVars := by
  rw [List.size_toArray, List.length_map, List.length_reverse, String.length_toList, hlength]

theorem rows_of_render (table : TruthTable) :
    (table.render.toList.reverse.map (· == '1')).toArray = table.rows := by
  have hdigits : (fun char => char == '1') ∘ digit = id := funext digit_beq_one
  rw [toList_render, ← List.map_reverse, List.reverse_reverse, List.map_map, hdigits, List.map_id]

/-- The texts of tables have a digit for each of as many rows as a table can have. -/
theorem exists_render_iff : (∃ table : TruthTable, table.render = text) ↔
    (∃ numVars ≤ 16, text.length = 2 ^ numVars) ∧ ∀ char ∈ text.toList, char ∈ ['0', '1'] := by
  constructor
  · rintro ⟨table, rfl⟩
    refine ⟨⟨table.numVars, table.numVars_le, table.length_render⟩, fun char hchar => ?_⟩
    rw [toList_render] at hchar
    obtain ⟨value, _, rfl⟩ := List.mem_map.1 hchar
    exact digit_mem value
  · rintro ⟨⟨numVars, hvars, hlength⟩, hdigits⟩
    rw [← Nat.one_shiftLeft] at hlength
    exact ⟨⟨numVars, _, size_digits hlength, hvars⟩, render_digits hdigits rfl⟩

theorem varsOfSize_eq_ok {count : Nat} (hcount : count = 1 <<< numVars)
    (hvars : numVars ≤ maxTableVars) : varsOfSize count = .ok ⟨numVars, hcount, hvars⟩ := by
  have hlog : count.log2 = numVars := by rw [hcount, Nat.one_shiftLeft, Nat.log2_two_pow]
  unfold varsOfSize
  simp only [hlog, dif_pos hcount, dif_pos hvars]

theorem varsOfSize_tooWide (h : maxTableVars < numVars) :
    varsOfSize (2 ^ numVars) = .error (.tableTooWide numVars) := by
  unfold varsOfSize
  simp only [Nat.log2_two_pow, Nat.one_shiftLeft, dif_pos, dif_neg (Nat.not_le.2 h)]

theorem varsOfSize_of_ne {count : Nat} (h : ∀ numVars, count ≠ 2 ^ numVars) :
    varsOfSize count = .error (.tableLength count) := by
  have hcount : ¬ count = 1 <<< count.log2 := by
    rw [Nat.one_shiftLeft]
    exact h _
  unfold varsOfSize
  simp only [dif_neg hcount]

theorem find?_stray_eq_none_iff :
    (text.toList.find? fun char => char != '0' && char != '1') = none ↔
      ∀ char ∈ text.toList, char ∈ ['0', '1'] := by
  simp only [List.find?_eq_none, stray_iff, not_not]

/-- Whatever the characters are, their number is judged first. -/
theorem parse_of_size_error {error : ParseError} (h : varsOfSize text.length = .error error) :
    parse text = .error error := by
  rw [← String.length_toList] at h
  unfold parse
  dsimp only
  rw [h]
  rfl

/-- With the right number of characters the first one that is no digit decides. -/
theorem parse_of_size (hlength : text.length = 1 <<< numVars) (hvars : numVars ≤ maxTableVars) :
    parse text = match text.toList.find? fun char => char != '0' && char != '1' with
      | some char => .error (.invalidTableChar text char)
      | none => .ok ⟨numVars, (text.toList.reverse.map (· == '1')).toArray,
          size_digits hlength, hvars⟩ := by
  rw [← String.length_toList] at hlength
  unfold parse
  dsimp only
  rw [varsOfSize_eq_ok hlength hvars]
  rfl

/-- What is read is the table of which it is the text. -/
theorem parse_eq_ok_iff : parse text = .ok table ↔ table.render = text := by
  constructor
  · intro h
    cases hsize : varsOfSize text.length with
    | error error =>
        rw [parse_of_size_error hsize] at h
        cases h
    | ok sized =>
        obtain ⟨numVars, hlength, hvars⟩ := sized
        rw [parse_of_size hlength hvars] at h
        split at h
        · cases h
        · next hdigits =>
            cases h
            exact render_digits (find?_stray_eq_none_iff.1 hdigits) rfl
  · rintro rfl
    have hlength : table.render.length = 1 <<< table.numVars := by
      rw [length_render, Nat.one_shiftLeft]
    have hdigits := (exists_render_iff.1 ⟨table, rfl⟩).2
    rw [parse_of_size hlength table.numVars_le, find?_stray_eq_none_iff.2 hdigits]
    exact congrArg Except.ok (eq_of_rows_eq table.rows_of_render)

theorem parse_offending (hvars : numVars ≤ maxTableVars) (hlength : text.length = 2 ^ numVars)
    {before after : List Char} {char : Char} (htext : text.toList = before ++ char :: after)
    (hbefore : ∀ earlier ∈ before, earlier ∈ ['0', '1']) (hchar : char ∉ ['0', '1']) :
    parse text = .error (.invalidTableChar text char) := by
  have hfirst : (text.toList.find? fun char => char != '0' && char != '1') = some char := by
    refine List.find?_eq_some_iff_append.2 ⟨stray_iff.2 hchar, before, after, htext, ?_⟩
    intro earlier hearlier
    rw [Bool.not_eq_true', ← Bool.not_eq_true, stray_iff, not_not]
    exact hbefore earlier hearlier
  rw [parse_of_size (by rw [hlength, Nat.one_shiftLeft]) hvars, hfirst]

/-- How a text of a table is read. It is refused for its number of characters, or else for its first
character that is no digit; what is read has the digits as its rows, the last row first. -/
structure ReadByRule (text : String) : Prop where
  accepted : (∃ table, parse text = .ok table) ↔
    (∃ numVars ≤ 16, text.length = 2 ^ numVars) ∧ ∀ char ∈ text.toList, char ∈ ['0', '1']
  unsized : text.length = 0 ∨ (∀ numVars, text.length ≠ 2 ^ numVars) →
    parse text = .error (.tableLength text.length)
  tooWide : ∀ numVars, 16 < numVars → text.length = 2 ^ numVars →
    parse text = .error (.tableTooWide numVars)
  offending : ∀ numVars ≤ 16, text.length = 2 ^ numVars → ∀ before char after,
    text.toList = before ++ char :: after → (∀ earlier ∈ before, earlier ∈ ['0', '1']) →
    char ∉ ['0', '1'] → parse text = .error (.invalidTableChar text char)
  written : ∀ table, parse text = .ok table → table.render = text
  row : ∀ table, parse text = .ok table → text.length = 2 ^ table.numVars ∧
    ∀ i < 2 ^ table.numVars, ∃ value, table.get i = .ok value ∧
      text.toList[2 ^ table.numVars - 1 - i]? = some (digit value)

theorem readByRule (text : String) : ReadByRule text where
  accepted := by simp only [parse_eq_ok_iff, exists_render_iff]
  unsized h := by
    have hne : ∀ numVars, text.length ≠ 2 ^ numVars := by
      intro numVars
      rcases h with hzero | hne
      · exact hzero ▸ (Nat.two_pow_pos numVars).ne
      · exact hne numVars
    exact parse_of_size_error (varsOfSize_of_ne hne)
  tooWide numVars h hlength := parse_of_size_error (hlength ▸ varsOfSize_tooWide h)
  offending numVars hvars hlength before char after := parse_offending hvars hlength
  written table := parse_eq_ok_iff.1
  row table h := by
    obtain rfl := parse_eq_ok_iff.1 h
    refine ⟨table.length_render, fun i hi => ?_⟩
    rw [← size_rows_eq_pow] at hi
    have hrow := (table.get_eq_ok_iff i _).2 (Array.getElem?_eq_getElem hi)
    exact ⟨_, hrow, table.getElem?_render hrow⟩

/-- The texts of tables are exact: they are read by their rule, and every table is read back from
its own. -/
theorem texts_exact : (∀ text, ReadByRule text) ∧
    ∀ table : TruthTable, parse table.render = .ok table :=
  ⟨readByRule, fun _ => parse_eq_ok_iff.2 rfl⟩

/-- Characters are counted, whatever is written for them, and a text that is too wide is refused
although none of its characters is a digit. -/
theorem texts_exact_refusals :
    parse "" = .error (.tableLength 0) ∧ parse "é0é" = .error (.tableLength 3) ∧
    parse (String.ofList (List.replicate (2 ^ 17) 'x')) = .error (.tableTooWide 17) ∧
    parse "0é1z" = .error (.invalidTableChar "0é1z" 'é') ∧
    parse "1011" = .ok implication ∧ implication.get 2 = .ok false := by
  obtain ⟨hread, hback⟩ := texts_exact
  have hthree : ∀ numVars, "é0é".length ≠ 2 ^ numVars := by
    intro numVars h
    have hlength : "é0é".length = 3 := by decide +kernel
    cases numVars with
    | zero => omega
    | succ numVars =>
        rw [Nat.pow_succ] at h
        omega
  have hwide : (String.ofList (List.replicate (2 ^ 17) 'x')).length = 2 ^ 17 := by
    rw [← String.length_toList, String.toList_ofList, List.length_replicate]
  have hrender : implication.render = "1011" := by decide +kernel
  have hparse := hback implication
  rw [hrender] at hparse
  obtain ⟨value, hvalue, hchar⟩ := ((hread "1011").row implication hparse).2 2 (by decide)
  have hfalse : "1011".toList[2 ^ implication.numVars - 1 - 2]? = some (digit false) := by
    decide +kernel
  have hdigit : digit value = digit false := Option.some.inj (hchar.symm.trans hfalse)
  have hzero : value = false := by rw [← digit_beq_one value, hdigit, digit_beq_one]
  refine ⟨(hread "").unsized (.inl (by decide +kernel)), (hread "é0é").unsized (.inr hthree),
    (hread _).tooWide 17 (by decide) hwide, ?_, hparse, hzero ▸ hvalue⟩
  exact (hread "0é1z").offending 2 (by decide) (by decide +kernel) ['0'] 'é' ['1', 'z']
    (by decide +kernel) (by simp) (by decide)

end TruthTable
end LogicNet
