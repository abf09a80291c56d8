import LogicNet.Network.Substitution
import LogicNet.Proofs.Action

/-!
What the loop of a substitution comes to. The children of the nodes are rewritten in place, one node
after the other, and each node is read before its turn has changed it. After so many turns the nodes
that have been passed have their children renamed and the others are as they were; at the end every
use of the one node is a use of the other, listeners have been told of the parents in their order,
and the uses have been counted parent by parent.
-/

namespace LogicNet
namespace Graph

variable {g : Graph} {old new n : NodeId}

/-- The graph in which every use of `old` is a use of `new`. -/
def redirect (g : Graph) (old new : NodeId) : Graph :=
  { g with
    nodes := g.nodes.map fun node => { node with children := node.children.map (rename old new) }
    outputs := g.outputs.map (rename old new) }

/-- Those of some nodes that have `n` among their children. -/
def parentsAmong (g : Graph) (n : NodeId) (nodes : List NodeId) : List NodeId :=
  nodes.filter fun parent => (g.childrenOf parent).contains n

/-- The nodes that have `n` among their children, in the order of their creation. -/
def parents (g : Graph) (n : NodeId) : List NodeId := g.parentsAmong n g.nodeIds

@[simp] theorem redirect_size (g : Graph) (old new : NodeId) :
    (g.redirect old new).size = g.size := by
  simp [redirect, size]

theorem redirect_outputs (g : Graph) (old new : NodeId) :
    (g.redirect old new).outputs = g.outputs.map (rename old new) := rfl

theorem redirect_references (g : Graph) (old new : NodeId) :
    (g.redirect old new).references = g.references.map (rename old new) := by
  rw [references, redirect_outputs, references, List.map_append, List.map_flatMap]
  simp [redirect, List.flatMap_map]

/-- The graph in which `new` stands for `old` among the children of the first `count` nodes. -/
def redirectBelow (g : Graph) (old new : NodeId) (count : Nat) : Graph :=
  { g with nodes := g.nodes.mapIdx fun n node =>
      if n < count then { node with children := node.children.map (rename old new) } else node }

theorem nodes_redirectBelow (g : Graph) (old new : NodeId) (count n : Nat) :
    (g.redirectBelow old new count).nodes[n]? = (g.nodes[n]?).map fun node =>
      if n < count then { node with children := node.children.map (rename old new) } else node := by
  simp [redirectBelow]

@[simp] theorem redirectBelow_outputs (g : Graph) (old new : NodeId) (count : Nat) :
    (g.redirectBelow old new count).outputs = g.outputs := rfl

theorem redirectBelow_zero (g : Graph) (old new : NodeId) : g.redirectBelow old new 0 = g := by
  have hnodes : (g.redirectBelow old new 0).nodes = g.nodes :=
    Array.ext_getElem? fun n => by simp [nodes_redirectBelow]
  exact congrArg (fun nodes => { g with nodes }) hnodes

/-- The children of a node are as they were until its turn. -/
theorem children_redirectBelow (hn : n < g.size) :
    (g.redirectBelow old new n).children n = .ok (g.childrenOf n) := by
  have hnode := Array.getElem?_eq_getElem hn
  simp [children, node, childrenOf, nodes_redirectBelow, hnode, Functor.map, Except.map]

/-- The turn of a node renames its children. -/
theorem setChildren_redirectBelow (g : Graph) (old new n : NodeId) :
    (g.redirectBelow old new n).setChildren n ((g.childrenOf n).map (rename old new)) =
      g.redirectBelow old new (n + 1) := by
  have hnodes : ∀ m : NodeId,
      ((g.redirectBelow old new n).setChildren n
        ((g.childrenOf n).map (rename old new))).nodes[m]? =
        (g.redirectBelow old new (n + 1)).nodes[m]? := by
    intro m
    rw [setChildren, Array.getElem?_modify, nodes_redirectBelow, nodes_redirectBelow]
    by_cases hm : n = m
    · subst hm
      cases hnode : g.nodes[n]? <;> simp [childrenOf, hnode]
    · have hlt : m < n + 1 ↔ m < n :=
        Nat.lt_succ_iff_lt_or_eq.trans (or_iff_left fun heq => hm heq.symm)
      simp only [if_neg hm, hlt]
  exact congrArg (fun nodes => { g with nodes }) (Array.ext_getElem? hnodes)

theorem map_rename_of_notMem {ns : List NodeId} (h : old ∉ ns) : ns.map (rename old new) = ns := by
  refine (List.map_congr_left fun n hn => ?_).trans (List.map_id ns)
  exact if_neg fun heq => h (by rwa [← heq])

/-- A node without `old` among its children needs no turn. -/
theorem redirectBelow_succ_of_notMem (h : old ∉ g.childrenOf n) :
    g.redirectBelow old new (n + 1) = g.redirectBelow old new n := by
  rw [← setChildren_redirectBelow, map_rename_of_notMem h]
  have hnodes : ∀ m : NodeId,
      ((g.redirectBelow old new n).setChildren n (g.childrenOf n)).nodes[m]? =
        (g.redirectBelow old new n).nodes[m]? := by
    intro m
    rw [setChildren, Array.getElem?_modify, nodes_redirectBelow]
    by_cases hm : n = m
    · subst hm
      cases hnode : g.nodes[n]? <;> simp [childrenOf, hnode]
    · rw [if_neg hm]
  exact congrArg (fun nodes => { g with nodes }) (Array.ext_getElem? hnodes)

/-- When all nodes have been passed and the outputs are renamed, every use is redirected. -/
theorem renameOutputs_redirectBelow (g : Graph) (old new : NodeId) :
    (g.redirectBelow old new g.size).renameOutputs old new = g.redirect old new := by
  have hnodes : (g.redirectBelow old new g.size).nodes = (g.redirect old new).nodes := by
    refine Array.ext_getElem? fun n => ?_
    rw [nodes_redirectBelow, redirect, Array.getElem?_map]
    refine Option.map_congr fun node hnode => if_pos ?_
    exact (Array.getElem?_eq_some_iff.1 hnode).1
  exact congrArg (fun nodes => { g.redirect old new with nodes }) hnodes

end Graph

namespace Network

variable {net : Network} {old new : NodeId}

/-- Counts the uses of `old` among the children of some nodes as uses of `new`, node by node. -/
def raiseAmong (net : Network) (old new : NodeId) (nodes : List NodeId) : Except Fault Fanouts :=
  (net.graph.parentsAmong old nodes).foldlM
    (fun fanouts n => fanouts.raise new ((net.graph.childrenOf n).count old)) net.fanouts

/-- Counts every use of `old` as one of `new`, those by the outputs last, and leaves `old` none. -/
def moveUses (net : Network) (old new : NodeId) : Except Fault Fanouts := do
  let fanouts ← net.raiseAmong old new net.graph.nodeIds
  (·.setIfInBounds old 0) <$> fanouts.raise new (net.graph.outputs.count old)

theorem moveUses_of_raised {fanouts : Fanouts}
    (h : net.raiseAmong old new net.graph.nodeIds = .ok fanouts) :
    net.moveUses old new =
      (·.setIfInBounds old 0) <$> fanouts.raise new (net.graph.outputs.count old) := by
  rw [moveUses, h]
  rfl

/-- What a rewriting has come to when some nodes have been passed. -/
def Rewriting.passed (net : Network) (old new : NodeId) (count : Nat) (fanouts : Fanouts) :
    Rewriting :=
  let parents := net.graph.parentsAmong old (List.range count)
  { graph := net.graph.redirectBelow old new count
    fanouts
    told := parents.flatMap fun n =>
      net.listeners.deliveries (.modified n (net.graph.childrenOf n))
    parents := parents.length
    references := total (parents.map fun n => (net.graph.childrenOf n).count old) }

/-- One turn of the loop. -/
theorem Rewriting.next_passed {count : Nat} (hcount : count < net.graph.size) (fanouts : Fanouts) :
    (passed net old new count fanouts).next net.listeners old new count =
      if old ∈ net.graph.childrenOf count then
        passed net old new (count + 1) <$>
          fanouts.raise new ((net.graph.childrenOf count).count old)
      else .ok (passed net old new (count + 1) fanouts) := by
  have hchildren : (passed net old new count fanouts).graph.children count =
      .ok (net.graph.childrenOf count) := Graph.children_redirectBelow hcount
  unfold next
  rw [hchildren]
  by_cases hmem : old ∈ net.graph.childrenOf count
  · have hparents : net.graph.parentsAmong old (List.range (count + 1)) =
        net.graph.parentsAmong old (List.range count) ++ [count] := by
      simp [Graph.parentsAmong, List.range_succ, hmem]
    rw [if_pos hmem]
    cases hraised : fanouts.raise new ((net.graph.childrenOf count).count old) with
    | error fault => simp [Bind.bind, Except.bind, hmem, passed, hraised, Functor.map, Except.map]
    | ok raised =>
        simp [Bind.bind, Except.bind, Pure.pure, Except.pure, hmem, passed, hraised, hparents,
          Functor.map, Except.map, Graph.setChildren_redirectBelow]
  · have hparents : net.graph.parentsAmong old (List.range (count + 1)) =
        net.graph.parentsAmong old (List.range count) := by
      simp [Graph.parentsAmong, List.range_succ, hmem]
    rw [if_neg hmem]
    simp [Bind.bind, Except.bind, Pure.pure, Except.pure, hmem, passed, hparents,
      Graph.redirectBelow_succ_of_notMem hmem]

theorem raiseAmong_snoc (net : Network) (old new : NodeId) (nodes : List NodeId) (n : NodeId) :
    net.raiseAmong old new (nodes ++ [n]) = net.raiseAmong old new nodes >>= fun fanouts =>
      if old ∈ net.graph.childrenOf n then
        fanouts.raise new ((net.graph.childrenOf n).count old)
      else .ok fanouts := by
  rw [raiseAmong, raiseAmong, Graph.parentsAmong, List.filter_append, List.foldlM_append]
  refine bind_congr fun fanouts => ?_
  by_cases hmem : old ∈ net.graph.childrenOf n
  · simp [hmem]
  · simp [hmem]
    rfl

/-- The loop after so many turns. -/
theorem Rewriting.foldlM_next {count : Nat} (hcount : count ≤ net.graph.size) :
    (List.range count).foldlM (next net.listeners old new) (start net) =
      passed net old new count <$> net.raiseAmong old new (List.range count) := by
  induction count with
  | zero =>
      have hstart : start net = passed net old new 0 net.fanouts := by
        simp [start, passed, Graph.redirectBelow_zero, Graph.parentsAmong]
      rw [hstart]
      rfl
  | succ count ih =>
      rw [List.range_succ, List.foldlM_append, ih (Nat.le_of_succ_le hcount), raiseAmong_snoc]
      simp only [List.foldlM_cons, List.foldlM_nil, bind_pure, bind_map_left, map_bind,
        next_passed hcount]
      refine bind_congr fun fanouts => ?_
      split <;> rfl

/-- A substitution in its finished form. -/
theorem substitute_eq (old new : NodeId) : substitute old new = (do
    let net ← get
    checkSubstitution net.graph old new
    let fanouts ← net.moveUses old new
    set { net with graph := net.graph.redirect old new, fanouts }
    Action.report ((net.graph.parents old).flatMap fun n =>
      net.listeners.deliveries (.modified n (net.graph.childrenOf n)))
    Action.note (.substituted old new (net.graph.parents old).length
      (total ((net.graph.parents old).map fun n => (net.graph.childrenOf n).count old))
      (net.graph.outputs.count old))
    if net.options.verify then (← get).checkInvariants) := by
  unfold substitute
  refine bind_congr fun net => bind_congr fun _ => ?_
  have hloop : net.graph.nodeIds.foldlM (Rewriting.next net.listeners old new) (.start net) =
      Rewriting.passed net old new net.graph.size <$> net.raiseAmong old new net.graph.nodeIds :=
    Rewriting.foldlM_next (Nat.le_refl _)
  funext s
  cases hraised : net.raiseAmong old new net.graph.nodeIds with
  | error fault =>
      rw [hloop, moveUses, hraised]
      rfl
  | ok fanouts =>
      have hdone : net.graph.nodeIds.foldlM (Rewriting.next net.listeners old new) (.start net) =
          .ok (Rewriting.passed net old new net.graph.size fanouts) := by
        rw [hloop, hraised]
        rfl
      rw [hdone, Action.lift_ok_bind_run, moveUses_of_raised hraised]
      simp only [Rewriting.passed, Graph.redirectBelow_outputs, Graph.renameOutputs_redirectBelow]
      cases fanouts.raise new (net.graph.outputs.count old) <;> rfl

end Network
end LogicNet
