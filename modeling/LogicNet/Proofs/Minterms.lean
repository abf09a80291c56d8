import LogicNet.Proofs.RoundTrip

/-!
The cover of a truth table in full. It lists the rows of the rarer value, or the true rows if both
values are equally common, each as one minterm, in the order of their numbers and with none left
out. So it takes back the value in every row, and at a pattern that has ones above the places of
the variables the value in the row that the other places spell.
-/

namespace LogicNet.TruthTable

/-- There are as many rows with a value as the value is counted. -/
theorem length_rowsWith (table : TruthTable) (value : Bool) :
    (table.rowsWith value).length = table.rows.count value := by
  have hpairs : table.rows.toList.zipIdx.countP (fun entry => entry.1 == value) =
      (table.rows.toList.zipIdx.map Prod.fst).countP (· == value) := by
    rw [List.countP_map]
    rfl
  rw [rowsWith, List.length_map, ← List.countP_eq_length_filter, hpairs, List.zipIdx_map_fst]
  exact Array.count_toList

/-- The rows with a value are numbered upwards. -/
theorem rowsWith_pairwise (table : TruthTable) (value : Bool) :
    (table.rowsWith value).Pairwise (· < ·) := by
  have hnumbers : (table.rows.toList.zipIdx.map Prod.snd).Pairwise (· < ·) := by
    rw [List.zipIdx_map_snd]
    exact List.pairwise_lt_range'
  exact hnumbers.sublist (List.filter_sublist.map Prod.snd)

theorem lt_of_mem_rowsWith {table : TruthTable} {value : Bool} {row : Nat}
    (h : row ∈ table.rowsWith value) : row < 2 ^ table.numVars := by
  rw [← table.size_rows_eq_pow]
  exact (Array.getElem?_eq_some_iff.1 ((table.mem_rowsWith_iff value row).1 h)).1

/-- The minterm of a row demands the number of the row. -/
theorem minterm_row (table : TruthTable) {row : Nat} (h : row < 2 ^ table.numVars) :
    (Cube.minterm (BitVec.ofNat 32 row) table.numVars).bits.toNat = row := by
  have hvars : table.numVars ≤ 16 := table.numVars_le
  have hpow := table.pow_numVars_le
  have hnumber : (BitVec.ofNat 32 row).toNat = row := Nat.mod_eq_of_lt (by omega)
  rw [Cube.minterm, Cube.masked, Pattern.toNat_and_low _ (by omega), hnumber, Nat.mod_eq_of_lt h]

/-- The demands of the cubes are the numbers of the rows that are listed. -/
theorem map_toCover_bits (table : TruthTable) :
    table.toCover.cubes.map (·.bits.toNat) = table.rowsWith table.toCover.polarity := by
  show ((table.rowsWith _).map _).map _ = table.rowsWith _
  rw [List.map_map]
  refine (List.map_congr_left fun row hrow => ?_).trans (List.map_id _)
  exact table.minterm_row (lt_of_mem_rowsWith hrow)

/-- The rarer value decides how many cubes there are. -/
theorem length_toCover (table : TruthTable) :
    table.toCover.cubes.length = min table.ones table.zeroCount := by
  have hlength : table.toCover.cubes.length = table.rows.count table.toCover.polarity := by
    rw [← length_rowsWith, ← map_toCover_bits, List.length_map]
  rw [hlength]
  by_cases h : table.ones ≤ table.zeroCount
  · have hpolarity : table.toCover.polarity = true := decide_eq_true h
    rw [hpolarity, Nat.min_eq_left h]
    rfl
  · have hpolarity : table.toCover.polarity = false := decide_eq_false h
    rw [hpolarity, Nat.min_eq_right (Nat.le_of_not_le h)]
    rfl

/-- The value in the row that the low places of a pattern spell. -/
theorem get_mod (table : TruthTable) (pattern : Pattern) :
    table.get (pattern.toNat % 2 ^ table.numVars) = .ok (table.toCover.evaluate pattern) := by
  have hlt : pattern.toNat % 2 ^ table.numVars < table.rows.size := by
    rw [table.size_rows_eq_pow]
    exact Nat.mod_lt _ (Nat.two_pow_pos _)
  have hrow := Array.getElem?_eq_getElem hlt
  rw [get_eq_ok_iff, table.toCover_evaluate_eq hrow, hrow]

/-- A cover lists the rows of a table that hold its polarity: the rarer value, or true if both are
equally common. -/
structure ListedBy (table : TruthTable) (cover : Cover) : Prop where
  polarity : cover.polarity = true ↔ table.ones ≤ table.zeroCount
  length : cover.cubes.length = min table.ones table.zeroCount
  /-- Each cube has a literal at the place of each variable and at no other place. -/
  minterm : ∀ cube ∈ cover.cubes,
    cube.Tidy ∧ ∀ place, cube.mask.getLsbD place = decide (place < table.numVars)
  increasing : (cover.cubes.map (·.bits.toNat)).Pairwise (· < ·)
  rows : ∀ row, row ∈ cover.cubes.map (·.bits.toNat) ↔ table.get row = .ok cover.polarity
  /-- Whatever stands above the places of the variables, the value is that in the row. -/
  value : ∀ pattern : Pattern,
    table.get (pattern.toNat % 2 ^ table.numVars) = .ok (cover.evaluate pattern)

/-- The cover of a table lists its rows. -/
theorem toCover_listed (table : TruthTable) : table.ListedBy table.toCover where
  polarity := decide_eq_true_iff
  length := table.length_toCover
  minterm cube hcube := by
    have hvars : table.numVars ≤ 16 := table.numVars_le
    refine ⟨table.toCover_tidy cube hcube, fun place => ?_⟩
    obtain ⟨row, _, rfl⟩ := List.mem_map.1 hcube
    show (Pattern.low table.numVars).getLsbD place = _
    rw [Pattern.low_getLsbD, Nat.min_eq_left (by omega)]
  increasing := by
    rw [map_toCover_bits]
    exact table.rowsWith_pairwise _
  rows row := by rw [map_toCover_bits, mem_rowsWith_iff, get_eq_ok_iff]
  value := table.get_mod

/-- Three rows of the implication are true, so the other one is listed, and a one above the places
of both variables does not show. -/
theorem implication_listed : implication.toCover = Cover.offSet [⟨2, 3⟩] ∧
    implication.get 2 = .ok false ∧ implication.toCover.evaluate 6 = false := by
  have hlisted := toCover_listed implication
  have hcover : implication.toCover = Cover.offSet [⟨2, 3⟩] := by decide +kernel
  have hrow : implication.get 2 = .ok false := by
    have hmem := hlisted.rows 2
    rw [hcover] at hmem
    exact hmem.1 (by decide)
  exact ⟨hcover, hrow, Except.ok.inj ((hlisted.value 6).symm.trans hrow)⟩

end LogicNet.TruthTable
