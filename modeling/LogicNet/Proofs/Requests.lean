import LogicNet.Proofs.Refusal

/-!
Which requests for gates are refused. A request is met exactly if its cover is in the table and its
children, at most 32, are nodes; the other constructors add to this what they ask of their own
arguments. A cover or a table without children is answered by a constant before anything is asked
of it.
-/

namespace LogicNet
namespace Network

variable {net : Network} (hwell : net.WellFormed)
  (hroom : net.graph.references.length < UInt32.size - 32)

include hwell hroom

theorem node_answers_iff (children : List NodeId) (cover : CoverId) :
    (node children cover).Answers net ↔ cover < net.graph.covers.size ∧
      (children = [] ∨
        children.length ≤ maxFanin ∧ ∀ child ∈ children, child < net.graph.size) := by
  constructor
  · rintro ⟨n, hn⟩
    have hmet := node_met hn
    generalize (node children cover net).state = net' at hmet
    cases hmet with
    | constant function childless named =>
        exact ⟨(Array.getElem?_eq_some_iff.1 named).1, .inl childless⟩
    | shared n accepted found =>
        exact ⟨accepted.cover_lt, .inr ⟨accepted.length_le, accepted.child_lt⟩⟩
    | created fanouts accepted fresh raised =>
        exact ⟨accepted.cover_lt, .inr ⟨accepted.length_le, accepted.child_lt⟩⟩
  · rintro ⟨hcover, hchildren⟩
    by_cases hnil : children = []
    · subst hnil
      have hnamed := (Graph.cover_eq_ok_iff net.graph cover _).2 (Array.getElem?_eq_getElem hcover)
      refine ⟨Graph.constant net.graph.covers[cover].polarity, ?_⟩
      unfold node
      rw [Action.get_bind_run, hnamed, Action.lift_ok_bind_run]
      rfl
    · obtain ⟨hlength, hlt⟩ := hchildren.resolve_left hnil
      have hfew : children.length ≤ 32 := hlength
      obtain ⟨n, hn, _⟩ := node_yields hwell ⟨hcover, hnil, hlength, hlt⟩ (by omega)
      exact ⟨n, hn⟩

theorem gate_answers_iff (kind : Gate) (operands : List NodeId) :
    (gate kind operands).Answers net ↔
      operands.length = kind.arity ∧ ∀ operand ∈ operands, operand < net.graph.size := by
  obtain ⟨c, net', hgives, hready⟩ := coverOfGate_readies hwell kind
  have hroom' : net'.graph.references.length < UInt32.size - 32 := hready.references_eq ▸ hroom
  have hsize : net'.graph.size = net.graph.size := congrArg Array.size hready.nodes_eq
  have harity : kind.arity ≤ maxFanin := by cases kind <;> decide
  unfold gate
  rw [Action.require_bind_answers_iff, hgives.bind_answers_iff,
    node_answers_iff hready.wellFormed hroom', and_iff_right hready.cover_lt, hsize]
  refine and_congr_right fun hlength => ⟨?_, fun hlt => .inr ⟨hlength ▸ harity, hlt⟩⟩
  rintro (rfl | ⟨_, hlt⟩)
  · nofun
  · exact hlt

theorem coverNode_answers_iff (children : List NodeId) (cover : Cover) :
    (coverNode children cover).Answers net ↔ children = [] ∨ (∀ cube ∈ cover.cubes, cube.Tidy) ∧
      children.length ≤ maxFanin ∧ ∀ child ∈ children, child < net.graph.size := by
  unfold coverNode
  by_cases hnil : children = []
  · simp [hnil, Action.pure_answers]
  rw [if_neg (by simpa using hnil), or_iff_right hnil]
  by_cases htidy : ∀ cube ∈ cover.cubes, cube.Tidy
  · have hgives : (addCover cover).Gives net net.graph.covers.size
        { net with graph := net.graph.addCover cover } := by
      rw [Action.Gives, addCover_run htidy]
      exact ⟨rfl, rfl⟩
    rw [hgives.bind_answers_iff, node_answers_iff (hwell.of_growth (.cover cover htidy)) hroom,
      and_iff_right htidy, or_iff_right hnil, and_iff_right (by simp [Graph.addCover])]
    rfl
  · refine iff_of_false ?_ fun h => htidy h.1
    rintro ⟨n, hn⟩
    obtain ⟨c, hc, _⟩ := Action.exists_of_bind_ok hn
    exact htidy (addCover_tidy hc)

theorem tableNode_answers_iff (children : List NodeId) (table : TruthTable) :
    (tableNode children table).Answers net ↔ children = [] ∨
      children.length = table.numVars ∧ ∀ child ∈ children, child < net.graph.size := by
  unfold tableNode
  by_cases hnil : children = []
  · simp [hnil, Action.pure_answers]
  have hvars : table.numVars ≤ maxFanin := table.numVars_le.trans (by decide)
  rw [if_neg (by simpa using hnil), or_iff_right hnil, Action.require_bind_answers_iff,
    coverNode_answers_iff hwell hroom, or_iff_right hnil, and_iff_right table.toCover_tidy]
  exact and_congr_right fun hlength => and_iff_right (hlength ▸ hvars)

theorem copyNode_answers_iff {other : Graph} (hother : other.WellFormed) (source : NodeId)
    (children : List NodeId) : (copyNode other source children).Answers net ↔
      children ≠ [] ∧ source < other.size ∧ children.length ≤ maxFanin ∧
        ∀ child ∈ children, child < net.graph.size := by
  unfold copyNode
  rw [Action.require_bind_answers_iff, Action.lift_bind_answers_iff]
  refine and_congr_right fun hne => ?_
  simp only [coverNode_answers_iff hwell hroom, or_iff_right hne]
  constructor
  · rintro ⟨cover, hcover, _, hargs⟩
    obtain ⟨node, hnode, _⟩ := (Graph.nodeCover_eq_ok_iff _ _ _).1 hcover
    exact ⟨Graph.lt_size_of_nodes hnode, hargs⟩
  · rintro ⟨hsource, hargs⟩
    obtain ⟨node, cover, hnode, hcover⟩ := hother.exists_cover hsource
    exact ⟨cover, (Graph.nodeCover_eq_ok_iff _ _ _).2 ⟨node, hnode, hcover⟩,
      hother.tidy _ _ hcover, hargs⟩

end Network

open Network LogicNet.Action

/-- Which requests for gates a reachable network refuses. A table is not asked for its number of
variables if there are no children: whatever it is over, a constant is the answer. -/
theorem Reachable.gates_refused_iff {net other : Network} (h : Reachable net)
    (hother : Reachable other) (hroom : net.graph.references.length < UInt32.size - 32) :
    (∀ children cover, (∃ fault, (node children cover net).answer = .error fault) ↔
      net.graph.covers.size ≤ cover ∨
        children ≠ [] ∧ (32 < children.length ∨ ∃ child ∈ children, net.graph.size ≤ child)) ∧
    (∀ kind operands, (∃ fault, (gate kind operands net).answer = .error fault) ↔
      operands.length ≠ kind.arity ∨ ∃ operand ∈ operands, net.graph.size ≤ operand) ∧
    (∀ children cover, (∃ fault, (coverNode children cover net).answer = .error fault) ↔
      (children ≠ [] ∧ ∃ cube ∈ cover.cubes, ¬ cube.Tidy) ∨ 32 < children.length ∨
        ∃ child ∈ children, net.graph.size ≤ child) ∧
    (∀ children table, (∃ fault, (tableNode children table net).answer = .error fault) ↔
      (children ≠ [] ∧ children.length ≠ table.numVars) ∨
        ∃ child ∈ children, net.graph.size ≤ child) ∧
    ∀ source children, (∃ fault, (copyNode other.graph source children net).answer = .error fault) ↔
      children = [] ∨ other.graph.size ≤ source ∨ 32 < children.length ∨
        ∃ child ∈ children, net.graph.size ≤ child := by
  have hwell := h.wellFormed
  have hdangling : ∀ children : List NodeId, (∃ child ∈ children, net.graph.size ≤ child) ↔
      ¬ ∀ child ∈ children, child < net.graph.size := fun children => by
    simp only [not_forall, Nat.not_lt, exists_prop]
  have hlong : ∀ children : List NodeId, 32 < children.length ↔ ¬ children.length ≤ maxFanin :=
    fun children => Nat.not_le.symm
  refine ⟨fun children cover => ?_, fun kind operands => ?_, fun children cover => ?_,
    fun children table => ?_, fun source children => ?_⟩
  · rw [refused_iff, node_answers_iff hwell hroom, hdangling, hlong, ← Nat.not_lt (a := cover),
      not_and_or, not_or, not_and_or]
  · rw [refused_iff, gate_answers_iff hwell hroom, hdangling, not_and_or]
  · rw [refused_iff, coverNode_answers_iff hwell hroom, hdangling, hlong]
    by_cases hnil : children = []
    · simp [hnil]
    · rw [or_iff_right hnil, and_iff_right hnil, not_and_or, not_and_or]
      simp only [not_forall, exists_prop]
  · rw [refused_iff, tableNode_answers_iff hwell hroom, hdangling]
    by_cases hnil : children = []
    · simp [hnil]
    · rw [or_iff_right hnil, and_iff_right hnil, not_and_or]
  · rw [refused_iff, copyNode_answers_iff hwell hroom hother.wellFormed.graph, hdangling, hlong,
      ← Nat.not_lt (a := source), not_and_or, not_and_or, not_and_or, not_ne_iff]

/-- A gate with a dangling operand is refused, a table without children is not. -/
theorem detoured_gates_refused : Reachable detoured ∧
    detoured.graph.references.length < UInt32.size - 32 ∧
    (∃ fault, (gate .xor [3, 99] detoured).answer = .error fault) ∧
    ¬ ∃ fault, (tableNode [] TruthTable.implication detoured).answer = .error fault := by
  have hroom : detoured.graph.references.length < UInt32.size - 32 := by decide +kernel
  have hsize : detoured.graph.size = 8 := by decide +kernel
  obtain ⟨_, hgate, _, htable, _⟩ :=
    Reachable.gates_refused_iff detoured_reachable detoured_reachable hroom
  refine ⟨detoured_reachable, hroom, (hgate .xor [3, 99]).2 (.inr ⟨99, ?_, ?_⟩),
    (htable [] TruthTable.implication).not.2 ?_⟩
  · decide
  · omega
  · rintro (⟨hne, _⟩ | ⟨child, hchild, _⟩)
    · exact hne rfl
    · cases hchild

/-- The number of children does not decide whether a table is refused. -/
theorem tableNode_childless : ¬ ((∃ fault,
    (tableNode [] TruthTable.implication (Network.new .sharing)).answer = .error fault) ↔
      ([] : List NodeId).length ≠ TruthTable.implication.numVars ∨
        ∃ child ∈ ([] : List NodeId), (Network.new .sharing).graph.size ≤ child) := by
  intro hiff
  obtain ⟨fault, hfault⟩ := hiff.2 (.inl (by decide))
  cases hfault

end LogicNet
