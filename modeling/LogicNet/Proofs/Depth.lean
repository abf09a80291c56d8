import LogicNet.Proofs.Shape
import LogicNet.Proofs.Value
import Mathlib.Algebra.BigOperators.Group.Finset.Basic
import Mathlib.Data.Finset.Lattice.Fold
import Mathlib.Order.Bounds.Defs
import Mathlib.Order.Lattice.Nat

/-!
Depth. The depth of a gate is one more than the largest depth of a child, and that of any other node
is zero; without cycles this determines it. It is also the largest number of gates on a path down
from the node: on no path are there more, since the depth falls with every gate that is passed, and
the path that goes to a deepest child each time has as many. Statistics settle the depths along an
order in which children come first, so they find an entry for every child.
-/

namespace LogicNet

/-- Maxima taken one after the other, from zero on, give the largest value. -/
theorem foldl_max_eq_sup {α : Type} [DecidableEq α] (f : α → Nat) (items : List α) :
    (items.map f).foldl max 0 = items.toFinset.sup f := by
  induction items using List.reverseRecOn with
  | nil => rfl
  | append_singleton items item ih =>
      rw [List.map_append, List.foldl_append, ih, List.toFinset_append, Finset.sup_union]
      simp

namespace Graph

variable {g : Graph} {n : NodeId}

/-- The depth of a node. -/
def depth (g : Graph) : NodeId → Nat :=
  g.descend (fun n below => if g.isGate n then below.foldl max 0 + 1 else 0) 0

/-- The equation of depths. -/
theorem depth_eq (h : g.WellFormed) (n : NodeId) : g.depth n =
    if g.isGate n then ((g.childrenOf n).map g.depth).foldl max 0 + 1 else 0 := by
  rw [depth]
  exact descend_eq h _ _ n

theorem depth_gate (h : g.WellFormed) (hgate : g.isGate n = true) :
    g.depth n = (g.childrenOf n).toFinset.sup g.depth + 1 := by
  rw [depth_eq h, if_pos hgate, foldl_max_eq_sup]

theorem depth_other (h : g.WellFormed) (hother : g.isGate n = false) : g.depth n = 0 := by
  rw [depth_eq h, hother]
  rfl

theorem depth_child_lt (h : g.WellFormed) {child : NodeId} (hchild : child ∈ g.childrenOf n) :
    g.depth child < g.depth n := by
  rw [depth_gate h (h.isGate_of_child hchild)]
  exact Nat.lt_succ_of_le (Finset.le_sup (List.mem_toFinset.2 hchild))

/-- Nodes do not lie deeper than what they can be reached from. -/
theorem depth_le_of_reaches (h : g.WellFormed) {m : NodeId} (hreach : Reaches g.childrenOf n m) :
    g.depth m ≤ g.depth n := by
  induction hreach with
  | refl => exact le_rfl
  | tail _ hstep ih => exact (depth_child_lt h hstep).le.trans ih

/-- From the node one can go to each node of the list in turn, always to a child. -/
def Downward (g : Graph) (n : NodeId) (path : List NodeId) : Prop :=
  (n :: path).IsChain (Descends g.childrenOf)

/-- There are not more gates on a path than its first node is deep. -/
theorem countP_le_depth (h : g.WellFormed) {path : List NodeId} (hpath : g.Downward n path) :
    (n :: path).countP g.isGate ≤ g.depth n := by
  induction path generalizing n with
  | nil =>
      cases hgate : g.isGate n with
      | true =>
          rw [depth_gate h hgate, List.countP_singleton, if_pos hgate]
          exact Nat.le_add_left 1 _
      | false =>
          rw [List.countP_singleton, hgate]
          exact Nat.zero_le _
  | cons child path ih =>
      obtain ⟨hstep, hrest⟩ := List.isChain_cons_cons.1 hpath
      rw [List.countP_cons_of_pos (h.isGate_of_child hstep)]
      exact Nat.succ_le_of_lt ((ih hrest).trans_lt (depth_child_lt h hstep))

/-- Some path has as many gates on it as its first node is deep. -/
theorem exists_deepest (h : g.WellFormed) (n : NodeId) :
    ∃ path, g.Downward n path ∧ (n :: path).countP g.isGate = g.depth n := by
  induction n using Acyclic.induction h.acyclic h.bounded with
  | step n ih =>
      cases hgate : g.isGate n with
      | false => exact ⟨[], .singleton n, by simp [depth_other h hgate, hgate]⟩
      | true =>
          rcases (g.childrenOf n).toFinset.eq_empty_or_nonempty with hnone | hsome
          · exact ⟨[], .singleton n, by simp [depth_gate h hgate, hnone, hgate]⟩
          · obtain ⟨child, hchild, hdeepest⟩ := Finset.exists_mem_eq_sup _ hsome g.depth
            have hstep := List.mem_toFinset.1 hchild
            obtain ⟨path, hpath, hcount⟩ := ih child hstep
            refine ⟨child :: path, List.isChain_cons_cons.2 ⟨hstep, hpath⟩, ?_⟩
            rw [List.countP_cons_of_pos hgate, hcount, depth_gate h hgate, hdeepest]

/-- The numbers of gates on the paths down from a node. -/
def pathCounts (g : Graph) (n : NodeId) : Set Nat :=
  {count | ∃ path, g.Downward n path ∧ count = (n :: path).countP g.isGate}

/-- The depth is the largest number of gates on a path. -/
theorem isGreatest_depth (h : g.WellFormed) (n : NodeId) :
    IsGreatest (g.pathCounts n) (g.depth n) := by
  obtain ⟨path, hpath, hcount⟩ := exists_deepest h n
  refine ⟨⟨path, hpath, hcount.symm⟩, ?_⟩
  rintro count ⟨other, hother, rfl⟩
  exact countP_le_depth h hother

end Graph

theorem NodeMap.mapM_entry {α : Type} {map : NodeMap α} {f : NodeId → α} {ns : List NodeId}
    (h : ∀ n ∈ ns, map[n]? = some (f n)) :
    (ns.mapM map.entry : Except Fault (List α)) = .ok (ns.map f) :=
  Network.mapM_except_eq_ok fun n hn => by rw [entry, h n hn]

namespace Graph

variable {g : Graph} {order : List NodeId}

theorem depthAbove_eq_ok (h : g.WellFormed) {depths : NodeMap Nat} {n : NodeId}
    (hentry : ∀ child ∈ g.childrenOf n, depths[child]? = some (g.depth child)) :
    g.depthAbove depths n = .ok (g.depth n) := by
  unfold depthAbove
  split
  · next hgate =>
      rw [NodeMap.mapM_entry hentry, depth_gate h hgate, ← foldl_max_eq_sup]
      rfl
  · next hother =>
      rw [depth_other h (Bool.eq_false_iff.2 hother)]
      rfl

theorem depthsAlong_snoc (order : List NodeId) (n : NodeId) :
    g.depthsAlong (order ++ [n]) = (do
      let depths ← g.depthsAlong order
      return depths.insert n (← g.depthAbove depths n)) := by
  unfold depthsAlong
  rw [List.foldlM_append]
  simp only [List.foldlM_cons, List.foldlM_nil, bind_pure]

/-- Along an order in which children come first every node gets its depth, and no other node has
an entry. -/
theorem depthsAlong_eq_ok (h : g.WellFormed) (hordered : Postordered g.childrenOf order) :
    ∃ depths, g.depthsAlong order = .ok depths ∧
      ∀ n, depths[n]? = if n ∈ order then some (g.depth n) else none := by
  induction order using List.reverseRecOn with
  | nil => exact ⟨∅, rfl, fun n => by simp⟩
  | append_singleton order n ih =>
      obtain ⟨depths, hdepths, hentry⟩ := ih hordered.of_append
      have hchild : ∀ child ∈ g.childrenOf n, depths[child]? = some (g.depth child) :=
        fun child hchild => by
          rw [hentry, if_pos ((hordered order n [] rfl).2 child hchild)]
      refine ⟨depths.insert n (g.depth n), ?_, fun m => ?_⟩
      · rw [depthsAlong_snoc, hdepths]
        show g.depthAbove depths n >>= _ = _
        rw [depthAbove_eq_ok h hchild]
        rfl
      · rw [Std.ExtTreeMap.getElem?_insert, hentry]
        by_cases heq : n = m
        · subst heq
          simp
        · simp [heq, Ne.symm heq]

open Classical in
/-- The nodes that some output depends on. -/
noncomputable def liveNodes (g : Graph) : Finset NodeId :=
  (Finset.range g.size).filter fun n => ∃ output ∈ g.outputs, Reaches g.childrenOf output n

/-- The gates that some output depends on. -/
noncomputable def liveGates (g : Graph) : Finset NodeId := g.liveNodes.filter (g.isGate · = true)

theorem mem_liveNodes (h : g.WellFormed) (n : NodeId) :
    n ∈ g.liveNodes ↔ ∃ output ∈ g.outputs, Reaches g.childrenOf output n := by
  classical
  rw [liveNodes, Finset.mem_filter, Finset.mem_range, and_iff_right_iff_imp]
  rintro ⟨output, houtput, hreach⟩
  exact h.lt_size_of_reaches (h.output_lt output houtput) hreach

theorem mem_liveGates (h : g.WellFormed) (n : NodeId) : n ∈ g.liveGates ↔ g.LiveGate n := by
  rw [liveGates, Finset.mem_filter, mem_liveNodes h, and_comm]
  rfl

/-- No node that an output depends on lies deeper than all outputs. -/
theorem sup_depth_outputs (h : g.WellFormed) :
    g.outputs.toFinset.sup g.depth = g.liveNodes.sup g.depth := by
  apply le_antisymm
  · refine Finset.sup_mono fun n hn => (mem_liveNodes h n).2 ⟨n, List.mem_toFinset.1 hn, .refl⟩
  · refine Finset.sup_le fun n hn => ?_
    obtain ⟨output, houtput, hreach⟩ := (mem_liveNodes h n).1 hn
    exact (depth_le_of_reaches h hreach).trans (Finset.le_sup (List.mem_toFinset.2 houtput))

/-- The figures of a graph, as sums and maxima over what the outputs depend on. -/
noncomputable def figures (g : Graph) : Summary where
  nodes := g.size
  gates := g.gateCount
  liveGates := g.liveGates.card
  cubes := ∑ n ∈ g.liveGates, g.cubeCount n
  maxFanin := g.liveGates.sup fun n => (g.childrenOf n).length
  deepest := g.liveNodes.sup g.depth

section Table

variable {depths : NodeMap Nat}

/-- The table holds the depths of what the outputs depend on, and nothing else. -/
def DepthTable (g : Graph) (depths : NodeMap Nat) : Prop :=
  ∀ n d, depths[n]? = some d ↔ n ∈ g.liveNodes ∧ d = g.depth n

theorem DepthTable.mem_iff (h : g.DepthTable depths) (n : NodeId) :
    n ∈ depths ↔ n ∈ g.liveNodes := by
  rw [Std.ExtTreeMap.mem_iff_isSome_getElem?, Option.isSome_iff_exists]
  simp only [h n, exists_and_left, exists_eq, and_true]

theorem DepthTable.toFinset_keys (h : g.DepthTable depths) :
    (depths.keys.filter g.isGate).toFinset = g.liveGates := by
  ext n
  rw [List.mem_toFinset, List.mem_filter, Std.ExtTreeMap.mem_keys, h.mem_iff, liveGates,
    Finset.mem_filter]

theorem DepthTable.deepestOutput (h : g.DepthTable depths) (hg : g.WellFormed) :
    g.deepestOutput depths = .ok (g.liveNodes.sup g.depth) := by
  have hentry : ∀ n ∈ g.outputs, depths[n]? = some (g.depth n) := fun n hn =>
    (h n _).2 ⟨(mem_liveNodes hg n).2 ⟨n, hn, .refl⟩, rfl⟩
  rw [Graph.deepestOutput, NodeMap.mapM_entry hentry, ← sup_depth_outputs hg, ← foldl_max_eq_sup]
  rfl

/-- What is counted along the table are the figures of the graph. -/
theorem DepthTable.figures_eq (h : g.DepthTable depths) :
    let live := depths.keys.filter g.isGate
    g.figures =
      { nodes := g.size
        gates := g.gateCount
        liveGates := live.length
        cubes := total (live.map g.cubeCount)
        maxFanin := (live.map fun n => (g.childrenOf n).length).foldl max 0
        deepest := g.liveNodes.sup g.depth } := by
  have hnodup : (depths.keys.filter g.isGate).Nodup := Std.ExtTreeMap.nodup_keys.filter _
  simp only [figures, foldl_max_eq_sup, ← h.toFinset_keys, List.toFinset_card_of_nodup hnodup,
    List.sum_toFinset _ hnodup]
  rfl

end Table

end Graph
end LogicNet
