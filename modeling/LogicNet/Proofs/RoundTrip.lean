import LogicNet.Proofs.Evaluation
import LogicNet.Proofs.History
import LogicNet.Proofs.Transfer

/-!
Truth tables there and back. The rows of a table, the places of a minterm, the values of the
children and the enumeration of assignments all put the first variable at the most significant
place, so a node that is made from a table computes the table: from the values of its children, and
row by row. The cover of the node is one of its own, so no node that is there already can be taken
for it, whatever has become of the sharing table.
-/

namespace LogicNet

namespace Assignment

/-- The last variable is the parity of the number. -/
theorem ofIndex_succ (numVars index : Nat) :
    ofIndex (numVars + 1) index = ofIndex numVars (index / 2) ++ [index.testBit 0] := by
  have hplace : ∀ position ∈ List.range numVars,
      index.testBit (numVars + 1 - 1 - position) =
        (index / 2).testBit (numVars - 1 - position) := by
    intro position hposition
    have hlt := List.mem_range.1 hposition
    rw [← Nat.testBit_succ]
    congr 1
    omega
  rw [ofIndex, List.range_succ, List.map_append, List.map_congr_left hplace]
  simp [ofIndex]

/-- An assignment spells its number. -/
theorem index_ofIndex {numVars index : Nat} (h : index < 2 ^ numVars) :
    Assignment.index (ofIndex numVars index) = index := by
  induction numVars generalizing index with
  | zero =>
      have hzero : index = 0 := Nat.lt_one_iff.1 h
      rw [hzero]
      rfl
  | succ numVars ih =>
      have hhalf : index / 2 < 2 ^ numVars := by
        rw [Nat.pow_succ] at h
        omega
      have hparity : (index.testBit 0).toNat = index % 2 := by
        rw [Nat.toNat_testBit, Nat.pow_zero, Nat.div_one]
      calc Assignment.index (ofIndex (numVars + 1) index)
          = 2 * Assignment.index (ofIndex numVars (index / 2)) + (index.testBit 0).toNat := by
            rw [ofIndex_succ, index_append_singleton]
        _ = 2 * (index / 2) + index % 2 := by rw [ih hhalf, hparity]
        _ = index := Nat.div_add_mod index 2

theorem getElem?_all {numVars i : Nat} (h : i < 2 ^ numVars) :
    (all numVars)[i]? = some (ofIndex numVars i) := by
  rw [all, Nat.one_shiftLeft, List.getElem?_map, List.getElem?_range h, Option.map_some]

end Assignment

namespace TruthTable

/-- Values in order are in bounds, and the row that they spell holds the value of the function. -/
theorem get_index (table : TruthTable) {values : List Bool}
    (h : values.length = table.numVars) :
    table.get (Assignment.index values) = .ok (table.onValues values) := by
  have hlt := Assignment.index_lt values
  rw [h, ← table.size_rows_eq_pow] at hlt
  rw [get_eq_ok_iff, onValues, Array.getD_eq_getD_getElem?, Array.getElem?_eq_getElem hlt,
    Option.getD_some]

theorem toCover_tidy (table : TruthTable) : ∀ cube ∈ table.toCover.cubes, cube.Tidy := by
  intro cube hcube
  obtain ⟨row, _, rfl⟩ := List.mem_map.1 hcube
  exact Cube.masked_tidy _ _

end TruthTable

namespace Graph

variable {g : Graph}

/-- A gate computes its cover of as many values as it has children. -/
theorem compute_gate {n : NodeId} {node : Node} {cover : Cover} (hnode : g.nodes[n]? = some node)
    (hcover : g.covers[node.cover]? = some cover) (hgate : g.isGate n = true) {values : List Bool}
    (hlength : values.length = node.children.length) (hle : values.length ≤ maxFanin) :
    g.compute n values = .ok (cover.evaluate (Pattern.ofBits values)) := by
  have hwide : ¬ maxFanin < node.children.length := by omega
  simp only [compute, hgate, children, (node_eq_ok_iff g n node).2 hnode, nodeCover,
    (cover_eq_ok_iff g node.cover cover).2 hcover, hlength, hwide, Bind.bind, Except.bind, pure,
    Except.pure, ne_eq, not_true_eq_false, if_true, if_false]

/-- A constant computes itself. -/
theorem compute_constant (h : g.WellFormed) (value : Bool) :
    g.compute (constant value) [] = .ok value := by
  have hgate := g.isGate_constant value
  have hcover : g.nodeCover (constant value) = .ok (Cover.constant value) := by
    cases value
    · simp only [nodeCover, constant, Bool.false_eq_true, if_false, Bind.bind, Except.bind,
        (node_eq_ok_iff g 0 _).2 h.false_node, (cover_eq_ok_iff g 0 _).2 h.false_cover]
    · simp only [nodeCover, constant, if_true, Bind.bind, Except.bind,
        (node_eq_ok_iff g 1 _).2 h.true_node, (cover_eq_ok_iff g 1 _).2 h.true_cover]
  have hevaluate : (Cover.constant value).evaluate (Pattern.ofBits []) = value := by
    cases value <;> rfl
  have hwide : ¬ maxFanin < ([] : List Bool).length := by decide
  simp only [compute, hgate, hcover, hevaluate, hwide, Bind.bind, Except.bind, pure, Except.pure,
    Bool.false_eq_true, if_false]

end Graph

namespace Network

variable {net : Network}

theorem compute_answer (n : NodeId) (values : List Bool) :
    (compute n values net).answer = net.graph.compute n values := by
  unfold compute
  rw [Action.get_bind_run]
  cases net.graph.compute n values with
  | ok value => rw [Action.lift_ok_bind_run, Action.report_bind_run]; rfl
  | error fault => rw [Action.lift_error_bind_run]

end Network

/-- No request that has been recorded names a cover that is still to come. -/
theorem Reachable.find?_new_cover {net : Network} (h : Reachable net) (children : List NodeId) :
    net.table.find? ⟨children, net.graph.covers.size⟩ = none := by
  obtain ⟨start, calls, hborn, hrun⟩ := h.exists_run
  have htraced := hborn.traced_afterAll calls
  rw [← hrun] at htraced
  by_contra hsome
  obtain ⟨n, hfind⟩ := Option.ne_none_iff_exists'.1 hsome
  obtain ⟨node, hnode, hcover, _⟩ := htraced.entry _ n hfind
  have hlt := h.wellFormed.graph.cover_lt n node hnode
  rw [hcover] at hlt
  exact Nat.lt_irrefl _ hlt

namespace Network

variable {net : Network}

/-- A node with a cover of its own is a new one, with the children that were asked for. -/
theorem coverNode_yields (h : Reachable net) {children : List NodeId} {cover : Cover}
    (tidy : ∀ cube ∈ cover.cubes, cube.Tidy) (hne : children ≠ [])
    (hlength : children.length ≤ maxFanin) (hchildren : ∀ child ∈ children, child < net.graph.size)
    (hroom : net.graph.references.length + children.length < UInt32.size) :
    (coverNode children cover).Yields net fun n net' => n = net.graph.size ∧
      net'.graph = (net.graph.addCover cover).addNode ⟨children, net.graph.covers.size⟩ := by
  have haccepted : (net.graph.addCover cover).Accepts ⟨children, net.graph.covers.size⟩ :=
    ⟨by simp [Graph.addCover], hne, hlength, hchildren⟩
  have hcovered : ({ net with graph := net.graph.addCover cover } : Network).WellFormed :=
    h.wellFormed.of_growth (.cover cover tidy)
  have hfresh : ({ net with graph := net.graph.addCover cover } : Network).shared?
      ⟨children, net.graph.covers.size⟩ = none := by
    unfold shared?
    split
    · exact h.find?_new_cover children
    · rfl
  unfold coverNode
  rw [if_neg (by simpa using hne)]
  have hadd : (addCover cover).Yields net fun c net' => c = net.graph.covers.size ∧
      net' = { net with graph := net.graph.addCover cover } :=
    ⟨_, by rw [addCover_run tidy], rfl, by rw [addCover_run tidy]⟩
  refine hadd.bind ?_
  rintro _ _ ⟨rfl, rfl⟩
  obtain ⟨n, hn, hmet⟩ := node_yields hcovered haccepted hroom
  refine ⟨n, hn, ?_⟩
  generalize (node children net.graph.covers.size _).state = net' at hmet ⊢
  cases hmet with
  | constant _ childless _ => exact absurd childless hne
  | shared n _ found =>
      rw [hfresh] at found
      cases found
  | created fanouts _ _ _ => exact ⟨rfl, record_graph _ _ _⟩

/-- What is made with a cover is a gate that has the cover. -/
theorem coverNode_gate (h : Reachable net) {children : List NodeId} {cover : Cover}
    (tidy : ∀ cube ∈ cover.cubes, cube.Tidy) (hne : children ≠ [])
    (hlength : children.length ≤ maxFanin) (hchildren : ∀ child ∈ children, child < net.graph.size)
    (hroom : net.graph.references.length + children.length < UInt32.size) :
    (coverNode children cover).Yields net fun n net' => ∃ c,
      net'.graph.nodes[n]? = some ⟨children, c⟩ ∧ net'.graph.covers[c]? = some cover ∧
      net'.graph.isGate n = true := by
  obtain ⟨n, hn, rfl, hgraph⟩ := coverNode_yields h tidy hne hlength hchildren hroom
  refine ⟨net.graph.size, hn, net.graph.covers.size, ?_, ?_, ?_⟩
  · rw [hgraph, Graph.nodes_addNode]
    exact if_pos rfl
  · rw [hgraph]
    simp [Graph.addNode, Graph.addCover]
  · rw [hgraph]
    exact h.wellFormed.graph.isGate_of_size_le le_rfl

/-- The node has the function of the table: under every assignment its value stands in the row that
the values of the children spell, and on the assignments in order it computes the rows in order. -/
structure Tabulates (net : Network) (children : List NodeId) (table : TruthTable) (n : NodeId) :
    Prop where
  value : ∀ v, table.get (Assignment.index (children.map (net.graph.value v))) =
    .ok (net.graph.value v n)
  row : ∀ i < 2 ^ table.numVars, ∃ row value, (Assignment.all table.numVars)[i]? = some row ∧
    table.get i = .ok value ∧ (compute n row net).answer = .ok value

/-- It is enough that the node has the values of the function and computes them. -/
theorem Tabulates.of_onValues {children : List NodeId} {table : TruthTable} {n : NodeId}
    (hmatching : children.length = table.numVars)
    (hvalue : ∀ v, net.graph.value v n = table.onValues (children.map (net.graph.value v)))
    (hcompute : ∀ values : List Bool, values.length = table.numVars →
      net.graph.compute n values = .ok (table.onValues values)) :
    Tabulates net children table n where
  value v := by
    rw [table.get_index (by rw [List.length_map, hmatching]), hvalue v]
  row i hi := by
    have hlength := Assignment.ofIndex_length table.numVars i
    have hget := table.get_index hlength
    rw [Assignment.index_ofIndex hi] at hget
    refine ⟨_, _, Assignment.getElem?_all hi, hget, ?_⟩
    rw [compute_answer, hcompute _ hlength]

end Network

open Network

/-- A table without variables is a constant. -/
theorem Network.tabulates_constant {net : Network} (hwell : net.WellFormed) {table : TruthTable}
    (hvars : table.numVars = 0) : Tabulates net [] table (Graph.constant !table.isZero) := by
  have honly := table.onValues_nil hvars
  refine .of_onValues hvars.symm (fun v => ?_) fun values hlength => ?_
  · rw [Graph.value_constant hwell.graph, List.map_nil, honly]
  · obtain rfl := List.length_eq_zero_iff.1 (hlength.trans hvars)
    rw [Graph.compute_constant hwell.graph, honly]

/-- A gate with the cover of a table has the function of the table. -/
theorem Network.tabulates_gate {net : Network} (hwell : net.WellFormed) {children : List NodeId}
    {table : TruthTable} (hmatching : children.length = table.numVars) {n : NodeId} {c : CoverId}
    (hnode : net.graph.nodes[n]? = some ⟨children, c⟩)
    (hcover : net.graph.covers[c]? = some table.toCover) (hgate : net.graph.isGate n = true) :
    Tabulates net children table n := by
  refine .of_onValues hmatching (fun v => ?_) fun values hlength => ?_
  · rw [Graph.value_gate hwell.graph hnode hcover hgate]
    exact table.toCover_evaluate (by rw [List.length_map, hmatching])
  · have hvars : table.numVars ≤ maxTableVars := table.numVars_le
    have hle : values.length ≤ maxFanin := by
      rw [hlength]
      exact hvars.trans (by decide)
    rw [Graph.compute_gate hnode hcover hgate (hlength.trans hmatching.symm) hle,
      table.toCover_evaluate hlength]

/-- Truth tables there and back. As long as there is room for the uses, every reachable network
makes a node of every table and as many children as it has variables, repeated ones among them and
none at all included. The node has the function of the table, and no other node has changed its
value. -/
theorem Reachable.tableNode_round_trip {net : Network} (h : Reachable net)
    (huses : net.graph.references.length < UInt32.size - 32) {children : List NodeId}
    {table : TruthTable} (hmatching : children.length = table.numVars)
    (hchildren : ∀ child ∈ children, child < net.graph.size) :
    ∃ n, (tableNode children table net).answer = .ok n ∧
      n < (tableNode children table net).state.graph.size ∧
      (∀ v, ∀ m < net.graph.size,
        (tableNode children table net).state.graph.value v m = net.graph.value v m) ∧
      Tabulates (tableNode children table net).state children table n := by
  have hwell := h.wellFormed
  by_cases hnil : children = []
  · subst hnil
    have htabulates := tabulates_constant hwell hmatching.symm
    refine ⟨Graph.constant !table.isZero, rfl, ?_, fun v m _ => rfl, htabulates⟩
    exact (constant_computes hwell (!table.isZero) (f := fun _ => !table.isZero) rfl).1
  have hlength : children.length ≤ maxTableVars := hmatching ▸ table.numVars_le
  have hfanin : children.length ≤ maxFanin := hlength.trans (by decide)
  have hroom : net.graph.references.length + children.length < UInt32.size := by
    have : children.length ≤ 16 := hlength
    omega
  have hrun : tableNode children table net = coverNode children table.toCover net := by
    unfold tableNode
    rw [if_neg (by simpa using hnil), Action.require_bind_run hmatching]
  have hextensions := extensions_of_growth (coverNode_moves children table.toCover net)
  have hwell' : (coverNode children table.toCover net).state.WellFormed :=
    hwell.of_changes (Relation.ReflTransGen.mono (fun _ _ => Change.extension) _ _ hextensions)
  obtain ⟨n, hn, rfl, hgraph⟩ :=
    coverNode_yields h table.toCover_tidy hnil hfanin hchildren hroom
  rw [hrun]
  have hnode : (coverNode children table.toCover net).state.graph.nodes[net.graph.size]? =
      some ⟨children, net.graph.covers.size⟩ := by
    rw [hgraph, Graph.nodes_addNode]
    exact if_pos rfl
  have hcover : (coverNode children table.toCover net).state.graph.covers[
      net.graph.covers.size]? = some table.toCover := by
    rw [hgraph]
    simp [Graph.addNode, Graph.addCover]
  have hlt : net.graph.size < (coverNode children table.toCover net).state.graph.size :=
    Graph.lt_size_of_nodes hnode
  have hgate : (coverNode children table.toCover net).state.graph.isGate net.graph.size = true := by
    refine (hwell'.graph.isGate_iff _).2 ⟨hwell.graph.two_le_size, fun hinput => ?_⟩
    rw [hgraph] at hinput
    exact Nat.lt_irrefl _ (hwell.graph.input_lt _ hinput).2
  refine ⟨net.graph.size, hn, hlt, fun v m hm => ?_, ?_⟩
  · exact (grown_of_extensions hextensions).value hwell.graph hwell'.graph v hm
  · exact tabulates_gate hwell' hmatching hnode hcover hgate

/-- The table of the implication: three rows are true, so its cover lists the false one. -/
def TruthTable.implication : TruthTable := ⟨2, #[true, true, false, true], rfl, by decide⟩

theorem widened_round_trip : Reachable widened ∧
    (tableNode [7, 7] .implication widened).answer = .ok 8 ∧
    Tabulates (tableNode [7, 7] .implication widened).state [7, 7] .implication 8 := by
  have hanswer : (tableNode [7, 7] .implication widened).answer = .ok 8 := by decide +kernel
  have hmatching : [7, 7].length = TruthTable.implication.numVars := rfl
  obtain ⟨n, hn, _, _, htabulates⟩ := Reachable.tableNode_round_trip widened_reachable
    (by decide +kernel) hmatching (by decide +kernel)
  rw [hanswer] at hn
  cases hn
  exact ⟨widened_reachable, hanswer, htabulates⟩

end LogicNet
