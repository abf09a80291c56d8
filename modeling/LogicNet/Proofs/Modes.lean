import LogicNet.Proofs.Reading

/-!
The modes of evaluating a node. A gate is evaluated on one assignment to its children, on vectors of
assignments, position by position, or on sixty-four of them in the lanes of words, where no pattern
is ever formed. In every reachable network each mode is answered, and all say the same, whatever the
cover of the gate: it may have no cubes, list either set, or care about places above those of the
children.
-/

namespace LogicNet

namespace Graph

variable {g : Graph} {n : NodeId} {node : Node} {cover : Cover} {width : Nat}
  {vectors : List (Array Bool)}

theorem checkWidths_eq_ok_iff :
    checkWidths width vectors = .ok () ↔ ∀ vector ∈ vectors, vector.size = width := by
  have hcheck : ∀ (vector : Array Bool) (position : Nat),
      (if vector.size = width then Except.ok ()
        else .error (Fault.wrongVectorWidth position vector.size width)) = .ok () ↔
      vector.size = width := by
    intro vector position
    split <;> simp_all
  rw [checkWidths, Network.forM_except_eq_ok_iff]
  simp only [Prod.forall, hcheck]
  constructor
  · intro h vector hvector
    obtain ⟨position, hposition⟩ := List.getElem?_of_mem hvector
    exact h vector position (List.mem_zipIdx_iff_getElem?.2 hposition)
  · intro h vector position hentry
    exact h vector (List.mem_of_getElem? (List.mem_zipIdx_iff_getElem?.1 hentry))

/-- A gate computes its cover at each position of as many vectors as it has children. -/
theorem computeVectors_gate (hnode : g.nodes[n]? = some node)
    (hcover : g.covers[node.cover]? = some cover) (hne : node.children ≠ [])
    (hlength : vectors.length = node.children.length)
    (hwidth : ∀ vector ∈ vectors, vector.size = width) :
    g.computeVectors n vectors = .ok ((List.range width).map fun p =>
      cover.evaluate (Pattern.ofBits (slice vectors p))) := by
  have hfirst : vectorWidth vectors = width := by
    cases vectors with
    | nil => exact absurd (List.length_eq_zero_iff.1 hlength.symm) hne
    | cons vector rest => exact hwidth vector List.mem_cons_self
  have hchecked : checkWidths width vectors = .ok () := checkWidths_eq_ok_iff.2 hwidth
  have hempty : node.children.isEmpty = false := by simpa using hne
  simp only [computeVectors, children, (node_eq_ok_iff g n node).2 hnode, nodeCover,
    (cover_eq_ok_iff g node.cover cover).2 hcover, hempty, hlength, hfirst, hchecked, Bind.bind,
    Except.bind, pure, Except.pure, ne_eq, not_true_eq_false, Bool.false_eq_true, if_false]

end Graph

namespace Network

variable {net : Network}

theorem computeVectors_answer (n : NodeId) (vectors : List (Array Bool)) :
    (computeVectors n vectors net).answer = net.graph.computeVectors n vectors := by
  unfold computeVectors
  rw [Action.get_bind_run]
  cases net.graph.computeVectors n vectors with
  | ok values => rw [Action.lift_ok_bind_run, Action.report_bind_run]; rfl
  | error fault => rw [Action.lift_error_bind_run]

/-- A node with `fanin` children is evaluated alike in all modes. -/
structure ModesAgree (net : Network) (n : NodeId) (fanin : Nat) : Prop where
  /-- On one assignment the answer is the value of the cover on the pattern that holds it. -/
  values : ∀ values : List Bool, values.length = fanin → ∃ (cover : Cover) (pattern : Pattern),
    net.graph.nodeCover n = .ok cover ∧ pattern.Holds values ∧
      (compute n values net).answer = .ok (cover.evaluate pattern)
  /-- On vectors of one width the answer has that width, and at each position it is what the bits at
  this position give. -/
  vectors : ∀ (vectors : List (Array Bool)) (width : Nat), vectors.length = fanin →
    (∀ vector ∈ vectors, vector.size = width) → ∃ results : List Bool,
      (computeVectors n vectors net).answer = .ok results ∧ results.length = width ∧
      ∀ p < width, ∃ result, results[p]? = some result ∧
        (compute n (vectors.map (·.getD p false)) net).answer = .ok result
  /-- On words each lane of the answer is what the bits in this lane give. -/
  words : ∀ words : List Word, words.length = fanin → ∃ result : Word,
    net.graph.computeWords n words = .ok result ∧
      ∀ p < 64, (compute n (words.map (·.getLsbD p)) net).answer = .ok (result.getLsbD p)

theorem modesAgree_of_gate {n : NodeId} {node : Node} {cover : Cover}
    (hnode : net.graph.nodes[n]? = some node)
    (hcover : net.graph.covers[node.cover]? = some cover) (hgate : net.graph.isGate n = true)
    (hne : node.children ≠ []) (hfanin : node.children.length ≤ maxFanin) :
    net.ModesAgree n node.children.length := by
  have hcompute : ∀ values : List Bool, values.length = node.children.length →
      (compute n values net).answer = .ok (cover.evaluate (Pattern.ofBits values)) := by
    intro values hlength
    rw [compute_answer]
    exact Graph.compute_gate hnode hcover hgate hlength (hlength ▸ hfanin)
  refine
    { values := fun values hlength => ?_
      vectors := fun vectors width hlength hwidth => ?_
      words := fun words hlength => ?_ }
  · exact ⟨cover, Pattern.ofBits values,
      (Graph.nodeCover_eq_ok_iff net.graph n cover).2 ⟨node, hnode, hcover⟩,
      Pattern.ofBits_holds (hlength ▸ hfanin), hcompute values hlength⟩
  · have hrun := Graph.computeVectors_gate hnode hcover hne hlength hwidth
    refine ⟨_, (computeVectors_answer n vectors).trans hrun, by simp, fun p hp => ?_⟩
    refine ⟨_, ?_, hcompute _ (by rw [List.length_map, hlength])⟩
    rw [List.getElem?_map, List.getElem?_range hp]
    rfl
  · refine ⟨_, Graph.computeWords_gate hnode hcover hlength, fun p hp => ?_⟩
    rw [hcompute _ (by rw [List.length_map, hlength]),
      cover.lanes_getLsbD (hlength ▸ hfanin) hp]

end Network

open Network

/-- In every reachable network a gate has from one to thirty-two children, and its modes of
evaluation agree. -/
theorem Reachable.modes_agree {net : Network} (h : Reachable net) {n : Nat}
    (hn : n < net.graph.size) (hgate : net.graph.isGate n = true) :
    1 ≤ (net.graph.childrenOf n).length ∧ (net.graph.childrenOf n).length ≤ 32 ∧
      net.ModesAgree n (net.graph.childrenOf n).length := by
  have hwell := h.wellFormed.graph
  obtain ⟨hne, hfanin⟩ := hwell.arity n hn hgate
  obtain ⟨node, cover, hnode, hcover⟩ := hwell.exists_cover hn
  refine ⟨List.length_pos_iff.2 hne, hfanin, ?_⟩
  rw [Graph.childrenOf_eq hnode] at hne hfanin ⊢
  exact modesAgree_of_gate hnode hcover hgate hne hfanin

/-- The gate lists an off-set, and its cubes care about a place above those of its two children: the
first cube asks for a zero there and the second one for a one. -/
theorem widened_modes_agree : widened.graph.isGate 4 = true ∧
    widened.graph.nodeCover 4 = .ok (Cover.offSet [⟨1, 5⟩, ⟨4, 4⟩]) ∧
    (computeVectors 4 [#[true, false, false], #[true, true, false]] widened).answer =
      .ok [false, false, true] ∧
    (compute 4 [false, false] widened).answer = .ok true ∧
    widened.graph.computeWords 4 [3, 5] = .ok (~~~5) ∧
    (compute 4 [true, false] widened).answer = .ok true := by
  have hgate : widened.graph.isGate 4 = true := by decide +kernel
  obtain ⟨_, _, hmodes⟩ := Reachable.modes_agree widened_reachable (n := 4) (by decide +kernel) hgate
  have htwo : (widened.graph.childrenOf 4).length = 2 := by decide +kernel
  rw [htwo] at hmodes
  obtain ⟨results, hvectors, _, hpositions⟩ :=
    hmodes.vectors [#[true, false, false], #[true, true, false]] 3 rfl (by decide)
  have hrun : (computeVectors 4 [#[true, false, false], #[true, true, false]] widened).answer =
      .ok [false, false, true] := by decide +kernel
  cases hvectors.symm.trans hrun
  obtain ⟨word, hwords, hlanes⟩ := hmodes.words [3, 5] rfl
  have hrun' : widened.graph.computeWords 4 [3, 5] = .ok (~~~5) := by decide +kernel
  cases hwords.symm.trans hrun'
  obtain ⟨result, hresult, hthird⟩ := hpositions 2 (by decide)
  cases hresult
  exact ⟨hgate, by decide +kernel, hrun, hthird, hrun', hlanes 1 (by decide)⟩

end LogicNet
