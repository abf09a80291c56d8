import LogicNet.Proofs.Independence

/-!
What statistics say of a network. The depths cover what the outputs depend on and nothing else, and
each is the largest number of gates on a path down. The figures are sums and maxima over the gates
that some output depends on, each taken once, though covers may be common to several; and no node
that an output depends on lies deeper than all outputs.
-/

namespace LogicNet
namespace Graph

variable {g : Graph}

/-- What the depths and the summary of a graph tell. -/
structure Measured (g : Graph) (depths : NodeMap Nat) (summary : Summary) : Prop where
  reached : ∀ n, n ∈ depths ↔ ∃ output ∈ g.outputs, Reaches g.childrenOf output n
  /-- A depth is the largest number of gates on a path that starts at the node. -/
  longest : ∀ (n : NodeId) (d : Nat), depths[n]? = some d → IsGreatest (g.pathCounts n) d
  other : ∀ (n : NodeId) (d : Nat), depths[n]? = some d → g.isGate n = false → d = 0
  live : ∀ n, n ∈ g.liveGates ↔ g.LiveGate n
  liveGates : summary.liveGates = g.liveGates.card
  /-- The cubes of the covers, counted once for each gate. -/
  cubes : summary.cubes = ∑ n ∈ g.liveGates, g.cubeCount n
  cubeCount : ∀ n ∈ g.liveGates,
    ∃ cover, g.nodeCover n = .ok cover ∧ g.cubeCount n = cover.cubes.length
  fanin : summary.maxFanin = g.liveGates.sup fun n => (g.childrenOf n).length
  /-- No node lies deeper than the figure says, and some node lies as deep. -/
  deepest_le : ∀ (n : NodeId) (d : Nat), depths[n]? = some d → d ≤ summary.deepest
  deepest : g.outputs ≠ [] → ∃ n : NodeId, depths[n]? = some summary.deepest
  flat : g.outputs = [] → summary.deepest = 0

theorem DepthTable.measures {depths : NodeMap Nat} (h : g.DepthTable depths) (hg : g.WellFormed) :
    g.Measured depths g.figures where
  reached n := by rw [h.mem_iff, mem_liveNodes hg]
  longest n d hd := by
    rw [((h n d).1 hd).2]
    exact isGreatest_depth hg n
  other n d hd hother := by rw [((h n d).1 hd).2, depth_other hg hother]
  live := mem_liveGates hg
  liveGates := rfl
  cubes := rfl
  cubeCount n hn := by
    obtain ⟨_, output, houtput, hreach⟩ := (mem_liveGates hg n).1 hn
    have hlt := hg.lt_size_of_reaches (hg.output_lt output houtput) hreach
    obtain ⟨node, cover, hnode, hcovers⟩ := hg.exists_cover hlt
    have hcover := (nodeCover_eq_ok_iff g n cover).2 ⟨node, hnode, hcovers⟩
    exact ⟨cover, hcover, by rw [Graph.cubeCount, hcover]⟩
  fanin := rfl
  deepest_le n d hd := by
    obtain ⟨hlive, rfl⟩ := (h n d).1 hd
    exact Finset.le_sup hlive
  deepest hsome := by
    obtain ⟨output, houtput⟩ := List.exists_mem_of_ne_nil _ hsome
    have hlive : g.liveNodes.Nonempty := ⟨output, (mem_liveNodes hg output).2 ⟨_, houtput, .refl⟩⟩
    obtain ⟨n, hn, hdeepest⟩ := Finset.exists_mem_eq_sup _ hlive g.depth
    exact ⟨n, (h n _).2 ⟨hn, hdeepest⟩⟩
  flat hnone := by
    show g.liveNodes.sup g.depth = 0
    rw [← sup_depth_outputs hg, hnone]
    rfl

end Graph

namespace Network

variable {net : Network}

theorem depths_run (hwell : net.WellFormed) (hready : net.scratch.Ready net.graph) :
    ∃ depths, net.graph.DepthTable depths ∧ (Network.depths net).answer = .ok depths ∧
      net.Walked net.graph.outputs (net.after .depths) := by
  obtain ⟨depths, hwalks, htable⟩ := Graph.depths_walks hwell.graph
  obtain ⟨hanswer, hwalked⟩ := Operation.answered_of_walks (x := Graph.depths) hwalks rfl hready
  exact ⟨depths, htable, hanswer, hwalked⟩

/-- Without a traversal number left there is no walk. -/
theorem depths_full (hfull : ¬ net.scratch.traversal.toNat + 1 < UInt32.size) :
    (Network.depths net).answer = .error .counterFull := by
  have hwalk : (net.graph.postorderOfOutputs net.scratch).answer = .error .counterFull := by
    unfold Graph.postorderOfOutputs Graph.postorder
    rw [Action.bind_run_error (Scratch.nextTraversal_run_full hfull)]
  show (net.graph.depths net.scratch).answer = _
  exact Action.bind_answer_of_error hwalk _

theorem summary_run (hwell : net.WellFormed) (hready : net.scratch.Ready net.graph) :
    (Network.summary net).answer = .ok net.graph.figures ∧
      net.Walked net.graph.outputs (net.after .summary) :=
  Operation.answered_of_walks (x := Graph.summary) (Graph.summary_walks hwell.graph) rfl hready

end Network

open Network

/-- As long as no mark is ahead and a traversal number is left, depths and summary are answered, and
they tell what there is. -/
theorem Reachable.measured {net : Network} (h : Reachable net) (hfresh : net.scratch.Fresh)
    (hroom : net.scratch.traversal.toNat < UInt32.size - 1) :
    ∃ depths summary, (Network.depths net).answer = .ok depths ∧
      (Network.summary net).answer = .ok summary ∧ net.graph.Measured depths summary := by
  have hwell := h.wellFormed
  have hready : net.scratch.Ready net.graph := ⟨hwell.marks_size, hfresh, by omega⟩
  obtain ⟨depths, htable, hdepths, _⟩ := depths_run hwell hready
  exact ⟨depths, _, hdepths, (summary_run hwell hready).1, htable.measures hwell.graph⟩

/-- Two of the gates use one cover, whose cube is counted for both of them, and a gate that nothing
uses is not counted. -/
theorem folded_measured : folded.scratch.Fresh ∧
    folded.scratch.traversal.toNat < UInt32.size - 1 ∧
    folded.graph.slot 5 = folded.graph.slot 6 ∧ folded.graph.liveGates.card = 3 ∧
    ∑ n ∈ folded.graph.liveGates, folded.graph.cubeCount n = 4 ∧
    IsGreatest (folded.graph.pathCounts 7) 2 := by
  have hfresh : folded.scratch.Fresh := by decide +kernel
  have hroom : folded.scratch.traversal.toNat < UInt32.size - 1 := by decide +kernel
  obtain ⟨depths, summary, hdepths, hsummary, hmeasured⟩ :=
    Reachable.measured folded_reachable hfresh hroom
  have hfigures : (Network.summary folded).answer = .ok ⟨9, 4, 3, 4, 2, 2⟩ := by decide +kernel
  cases hsummary.symm.trans hfigures
  have hseven : (Network.depths folded).answer.toOption.bind (·[(7 : NodeId)]?) = some 2 := by
    decide +kernel
  rw [hdepths] at hseven
  exact ⟨hfresh, hroom, by decide +kernel, hmeasured.liveGates.symm, hmeasured.cubes.symm,
    hmeasured.longest 7 2 hseven⟩

end LogicNet
