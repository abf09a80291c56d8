import LogicNet.Proofs.Independence
import LogicNet.Proofs.Search

/-!
Two searches for what lies below a node. The one for a dependence keeps its own record of what it
has looked at and ends on every graph, with cycles or without, after no more turns than there are
entries in all lists of children, and one. The walks keep their record in the marks of the scratch
space and end because there are no cycles. In a reachable network whose marks are not ahead both say
the same: a node depends on what a walk from it lists, and flagged as live is that on which some
output depends.
-/

namespace LogicNet

namespace Graph

variable {g : Graph} {target : NodeId}

/-- With the given nodes seen and pending, the search ends after some turns with an answer. A turn
takes off the first pending node. The target ends the search, a node that has been seen is dropped,
and from any other one the children become pending, the last child first. -/
inductive Seeks (g : Graph) (target : NodeId) :
    Array Bool → List NodeId → Nat → Bool → Prop where
  | nowhere (seen : Array Bool) : Seeks g target seen [] 0 false
  | met (seen : Array Bool) (rest : List NodeId) : Seeks g target seen (target :: rest) 1 true
  | drop {seen : Array Bool} {n : NodeId} {rest : List NodeId} {turns : Nat} {found : Bool}
      (other : n ≠ target) (old : seen[n]? = some true) :
      Seeks g target seen rest turns found → Seeks g target seen (n :: rest) (turns + 1) found
  | expand {seen : Array Bool} {n : NodeId} {rest : List NodeId} {turns : Nat} {found : Bool}
      (other : n ≠ target) (new : seen[n]? = some false) :
      Seeks g target (seen.setIfInBounds n true) ((g.childrenOf n).reverse ++ rest) turns found →
      Seeks g target seen (n :: rest) (turns + 1) found

/-- Each turn takes one node off, and the children of a node are put there at most once. -/
theorem exists_seeks {seen : Array Bool} {pending : List NodeId} {found : Bool}
    (h : g.search target seen pending = .ok found) :
    ∃ turns ≤ g.unseenChildren seen + pending.length, g.Seeks target seen pending turns found := by
  induction seen, pending using search.induct g target with
  | case1 seen =>
      rw [search] at h
      cases h
      exact ⟨0, Nat.zero_le _, .nowhere seen⟩
  | case2 seen rest =>
      rw [search, if_pos rfl] at h
      cases h
      exact ⟨1, by rw [List.length_cons]; omega, .met seen rest⟩
  | case3 seen n rest hne hlt hseen ih =>
      rw [search, if_neg hne, dif_pos hlt, dif_pos hseen] at h
      obtain ⟨turns, hturns, hseeks⟩ := ih h
      have hold : seen[n]? = some true := by rw [Array.getElem?_eq_getElem hlt, hseen]
      exact ⟨turns + 1, by rw [List.length_cons]; omega, .drop hne hold hseeks⟩
  | case4 seen n rest hne hlt hseen ih =>
      rw [search, if_neg hne, dif_pos hlt, dif_neg hseen] at h
      obtain ⟨turns, hturns, hseeks⟩ := ih h
      have hnew : seen[n]? = some false := by
        rw [Array.getElem?_eq_getElem hlt, Bool.eq_false_iff.2 hseen]
      have hspent := g.unseenChildren_set seen n hlt hseen
      rw [List.length_append, List.length_reverse] at hturns
      have hset : seen.set n true = seen.setIfInBounds n true := (dif_pos hlt).symm
      rw [hset] at hseeks
      exact ⟨turns + 1, by rw [List.length_cons]; omega, .expand hne hnew hseeks⟩
  | case5 seen n rest hne hlt =>
      rw [search, if_neg hne, dif_neg hlt] at h
      cases h

theorem unseenChildren_start (g : Graph) : g.unseenChildren (Array.replicate g.size false) =
    total (g.nodeIds.map fun n => (g.childrenOf n).length) := by
  simp [unseenChildren, nodeIds, Array.getElem?_replicate]

/-- On a graph whose children are nodes the search from a node ends with the right answer. -/
structure Decides (g : Graph) (n target : NodeId) (found : Bool) : Prop where
  answer : g.dependsOn n target = .ok found
  ends : ∃ turns ≤ total (g.nodeIds.map fun m => (g.childrenOf m).length) + 1,
    g.Seeks target (Array.replicate g.size false) [n] turns found
  found_iff : found = true ↔ Reaches g.childrenOf n target

theorem exists_decides (hbound : Bounded g.childrenOf g.size) {n : Nat} (hn : n < g.size)
    (target : NodeId) : ∃ found, g.Decides n target found := by
  obtain ⟨found, hanswer, hfound⟩ := dependsOn_eq_ok hbound hn target
  obtain ⟨turns, hturns, hseeks⟩ := exists_seeks hanswer
  rw [unseenChildren_start] at hturns
  exact ⟨found, hanswer, ⟨turns, hturns, hseeks⟩, hfound⟩

/-- The answer is yes exactly if the target is reached. -/
theorem dependsOn_eq_true_iff (hbound : Bounded g.childrenOf g.size) {n : Nat} (hn : n < g.size)
    (target : NodeId) : g.dependsOn n target = .ok true ↔ Reaches g.childrenOf n target := by
  obtain ⟨found, hanswer, hfound⟩ := dependsOn_eq_ok hbound hn target
  rw [hanswer, ← hfound, Except.ok.injEq]

end Graph

namespace Network

/-- The search and the walks say the same of what lies below what. -/
structure SearchesAgree (net : Network) : Prop where
  /-- A node depends on what a walk from it lists, and on nothing else. -/
  listed : ∀ n < net.graph.size, ∃ order, (postorder [n] net).answer = .ok order ∧
    ∀ target, net.graph.dependsOn n target = .ok (decide (target ∈ order))
  /-- The flags are those of the nodes on which some output depends. -/
  flagged : ∃ flags, (live net).answer = .ok flags ∧ flags.length = net.graph.size ∧
    ∀ n < net.graph.size, (flags[n]? = some true ↔
      ∃ output ∈ net.graph.outputs, net.graph.dependsOn output n = .ok true)

variable {net : Network}

theorem searchesAgree (hwell : net.WellFormed) (hready : net.scratch.Ready net.graph) :
    net.SearchesAgree where
  listed n hn := by
    have hstarts : ∀ m ∈ [n], m < net.graph.size := by simpa using hn
    obtain ⟨order, hwalks, _, hmem⟩ := Graph.exists_postorder hwell.graph hstarts
    have hanswer := (Operation.answered_of_walks (x := (·.postorder [n])) hwalks rfl hready).1
    refine ⟨order, hanswer, fun target => ?_⟩
    obtain ⟨found, hrun, hfound⟩ := Graph.dependsOn_eq_ok hwell.graph.bounded hn target
    have hlisted : found = true ↔ target ∈ order := by
      rw [hfound, hmem, Graph.Below]
      simp
    rw [hrun, Bool.eq_iff_iff.2 (hlisted.trans decide_eq_true_iff.symm)]
  flagged := by
    obtain ⟨flags, hwalks, hlength, hflag⟩ := Graph.live_walks hwell.graph
    refine ⟨flags, (Operation.answered_of_walks hwalks rfl hready).1, hlength, fun n hn => ?_⟩
    rw [hflag n hn]
    refine exists_congr fun output => and_congr_right fun houtput => ?_
    exact (Graph.dependsOn_eq_true_iff hwell.graph.bounded
      (hwell.graph.output_lt output houtput) n).symm

end Network

open Network

/-- The search ends with the right answer on every graph whose children are nodes, whatever cycles
there are, and for every target. As long as no mark is ahead and a traversal number is left, the
walks of a reachable network agree with it. -/
theorem search_exact :
    (∀ g : Graph, Bounded g.childrenOf g.size → ∀ n < g.size, ∀ target,
      ∃ found, g.Decides n target found) ∧
    ∀ net : Network, Reachable net → net.scratch.Fresh →
      net.scratch.traversal.toNat < UInt32.size - 1 → net.SearchesAgree := by
  refine ⟨fun g hbound n hn target => Graph.exists_decides hbound hn target,
    fun net h hfresh hroom => ?_⟩
  have hwell := h.wellFormed
  exact searchesAgree hwell ⟨hwell.marks_size, hfresh, by omega⟩

/-- Two gates that are children of each other, one of them with an edge to spare. -/
def Graph.looped : Graph :=
  { Graph.constants with nodes := #[⟨[], 0⟩, ⟨[], 1⟩, ⟨[3, 3, 1], 0⟩, ⟨[2], 0⟩] }

/-- On the cycle the search ends, and finds what is there; after a substitution neither the search
nor the walk from the gate above goes to the gate that has been replaced. -/
theorem looped_search_exact : Graph.looped.Decides 3 1 true ∧ Graph.looped.Decides 2 0 false ∧
    ¬ Reaches Graph.looped.childrenOf 2 0 ∧ detoured.SearchesAgree ∧
    (postorder [6] detoured).answer = .ok [2, 4, 7, 6] ∧
    detoured.graph.dependsOn 6 7 = .ok true ∧ detoured.graph.dependsOn 6 5 = .ok false := by
  obtain ⟨hdecides, hagree⟩ := search_exact
  have hnodes : ∀ n < Graph.looped.size, ∀ child ∈ Graph.looped.childrenOf n,
      child < Graph.looped.size := by decide +kernel
  have hbound : Bounded Graph.looped.childrenOf Graph.looped.size := fun n child hchild =>
    hnodes n (Graph.lt_size_of_mem_childrenOf hchild) child hchild
  obtain ⟨found, hfound⟩ := hdecides _ hbound 3 (by decide +kernel) 1
  obtain ⟨other, hother⟩ := hdecides _ hbound 2 (by decide +kernel) 0
  cases hfound.answer.symm.trans (by decide +kernel : Graph.looped.dependsOn 3 1 = .ok true)
  cases hother.answer.symm.trans (by decide +kernel : Graph.looped.dependsOn 2 0 = .ok false)
  have hagrees := hagree detoured detoured_reachable (by decide +kernel) (by decide +kernel)
  obtain ⟨order, horder, hlisted⟩ := hagrees.listed 6 (by decide +kernel)
  have hwalk : (postorder [6] detoured).answer = .ok [2, 4, 7, 6] := by decide +kernel
  cases horder.symm.trans hwalk
  exact ⟨hfound, hother, fun hreach => Bool.false_ne_true (hother.found_iff.2 hreach), hagrees, hwalk,
    hlisted 7, hlisted 5⟩

end LogicNet
