import LogicNet.Proofs.Growth
import LogicNet.Proofs.Indexing
import LogicNet.Proofs.Search

/-!
Well-formed graphs and networks. In a well-formed graph every name belongs to something, the
constants come first, inputs have no children and gates have from 1 to 32, no node reaches itself,
and what is kept beside the lists of terminals agrees with them; in a well-formed network each
fanout counter is the number of uses besides. A new network is well formed, and every elementary
change keeps it so.
-/

namespace LogicNet

theorem getD_setIfInBounds {α : Type} {values : Array α} {n : Nat} (value : α) (m : Nat)
    (default : α) (hn : n < values.size) :
    (values.setIfInBounds n value).getD m default =
      if m = n then value else values.getD m default := by
  rw [Array.getD_eq_getD_getElem?, Array.getD_eq_getD_getElem?, Array.getElem?_setIfInBounds]
  by_cases h : m = n
  · subst h
    simp [hn]
  · simp [h, Ne.symm h]

namespace Graph

section Views

variable (g : Graph) (node : Node) (cover : Cover) (old new : NodeId) (n : Nat)

theorem nodes_addNode :
    (g.addNode node).nodes[n]? = if n = g.size then some node else g.nodes[n]? := by
  rw [addNode, Array.getElem?_push]
  rfl

@[simp] theorem size_addNode : (g.addNode node).size = g.size + 1 := by simp [addNode, size]

theorem childrenOf_addNode :
    (g.addNode node).childrenOf n = if n = g.size then node.children else g.childrenOf n := by
  unfold childrenOf
  rw [nodes_addNode]
  by_cases h : n = g.size
  · rw [if_pos h, if_pos h]
  · rw [if_neg h, if_neg h]

theorem covers_addCover :
    (g.addCover cover).covers[n]? = if n = g.covers.size then some cover else g.covers[n]? := by
  rw [addCover, Array.getElem?_push]

theorem nodes_redirect : (g.redirect old new).nodes[n]? =
    (g.nodes[n]?).map fun node => { node with children := node.children.map (rename old new) } := by
  simp [redirect]

@[simp] theorem childrenOf_redirect :
    (g.redirect old new).childrenOf = renamed g.childrenOf old new := by
  funext n
  simp only [childrenOf, renamed, nodes_redirect]
  cases g.nodes[n]? <;> rfl

/-- Two graphs of the same nodes have the same children. -/
theorem childrenOf_congr {g g' : Graph} (h : g'.nodes = g.nodes) :
    g'.childrenOf = g.childrenOf := by
  funext n
  unfold childrenOf
  rw [h]

theorem childrenOf_eq {g : Graph} {n : NodeId} {node : Node} (h : g.nodes[n]? = some node) :
    g.childrenOf n = node.children := by
  unfold childrenOf
  rw [h]

theorem lt_size_of_nodes {g : Graph} {n : NodeId} {node : Node} (h : g.nodes[n]? = some node) :
    n < g.size := (Array.getElem?_eq_some_iff.1 h).1

theorem exists_node {g : Graph} {n : NodeId} (h : n < g.size) : ∃ node, g.nodes[n]? = some node :=
  ⟨_, Array.getElem?_eq_getElem h⟩

theorem lt_size_of_mem_childrenOf {g : Graph} {n child : NodeId} (h : child ∈ g.childrenOf n) :
    n < g.size := by
  by_contra hle
  rw [childrenOf_eq_nil_of_le g n (Nat.le_of_not_lt hle)] at h
  cases h

/-- With the same table of inputs the same nodes are gates. -/
theorem isGate_congr {g g' : Graph} (h : g'.toInputs = g.toInputs) : g'.isGate = g.isGate := by
  funext n
  unfold isGate isInput
  rw [h]

theorem isGate_constant (g : Graph) (value : Bool) : g.isGate (constant value) = false := by
  cases value <;> rfl

end Views

/-- What is true of the graph of every network that calls can lead to. -/
structure WellFormed (g : Graph) : Prop where
  false_node : g.nodes[0]? = some ⟨[], 0⟩
  true_node : g.nodes[1]? = some ⟨[], 1⟩
  false_cover : g.covers[0]? = some (Cover.constant false)
  true_cover : g.covers[1]? = some (Cover.constant true)
  cover_lt : ∀ (n : NodeId) (node : Node), g.nodes[n]? = some node → node.cover < g.covers.size
  bounded : Bounded g.childrenOf g.size
  acyclic : Acyclic g.childrenOf
  input_lt : ∀ n : Nat, n ∈ g.inputs → 1 < n ∧ n < g.size
  indexed : g.toInputs.Indexed
  childless : ∀ n, g.isGate n = false → g.childrenOf n = []
  arity : ∀ n < g.size, g.isGate n = true →
    g.childrenOf n ≠ [] ∧ (g.childrenOf n).length ≤ maxFanin
  output_lt : ∀ n ∈ g.outputs, n < g.size
  matched : g.toOutputs.Matched
  paired : g.resets.length ≤ g.registerOutputs.length
  tidy : ∀ (c : CoverId) (cover : Cover), g.covers[c]? = some cover →
    ∀ cube ∈ cover.cubes, cube.Tidy

namespace WellFormed

variable {g g' : Graph}

theorem exists_cover (h : g.WellFormed) {n : NodeId} (hn : n < g.size) :
    ∃ node cover, g.nodes[n]? = some node ∧ g.covers[node.cover]? = some cover := by
  obtain ⟨node, hnode⟩ := exists_node hn
  exact ⟨node, _, hnode, Array.getElem?_eq_getElem (h.cover_lt n node hnode)⟩

theorem isInput_iff (h : g.WellFormed) {n : NodeId} : g.isInput n = true ↔ n ∈ g.inputs :=
  h.indexed.contains_iff

theorem isGate_iff (h : g.WellFormed) (n : NodeId) :
    g.isGate n = true ↔ 1 < n ∧ n ∉ g.inputs := by
  rw [isGate, Bool.and_eq_true, Bool.not_eq_true', Bool.not_eq_true', ← Bool.not_eq_true,
    ← Bool.not_eq_true, h.isInput_iff]
  simp [isConstant]

theorem isGate_input (h : g.WellFormed) {n : NodeId} (hn : n ∈ g.inputs) : g.isGate n = false :=
  Bool.eq_false_iff.2 fun hgate => ((h.isGate_iff n).1 hgate).2 hn

theorem inputs_nodup (h : g.WellFormed) : g.inputs.Nodup := h.indexed.nodup

theorem isGate_of_child (h : g.WellFormed) {n child : NodeId} (hchild : child ∈ g.childrenOf n) :
    g.isGate n = true := by
  by_contra hother
  rw [h.childless n (Bool.eq_false_iff.2 hother)] at hchild
  cases hchild

theorem childrenOf_constants (n : NodeId) : Graph.constants.childrenOf n = [] := by
  rcases n with _ | _ | n
  · rfl
  · rfl
  · simp [Graph.constants, childrenOf]

theorem constants : Graph.constants.WellFormed where
  false_node := rfl
  true_node := rfl
  false_cover := rfl
  true_cover := rfl
  cover_lt n node h := by
    rcases n with _ | _ | n
    · cases h
      decide
    · cases h
      decide
    · simp [Graph.constants] at h
  bounded n child h := by
    rw [childrenOf_constants] at h
    cases h
  acyclic n h := by
    obtain ⟨m, hstep, _⟩ := Relation.TransGen.head'_iff.1 h
    rw [Descends, childrenOf_constants] at hstep
    cases hstep
  input_lt n h := by cases h
  indexed := .none
  childless n _ := childrenOf_constants n
  arity n hn h := by
    have hconstant : ¬ n ≤ 1 := by
      rw [isGate, Bool.and_eq_true, Bool.not_eq_true', isConstant, decide_eq_false_iff_not] at h
      exact h.1
    simp only [Graph.constants, size, List.size_toArray, List.length_cons, List.length_nil] at hn
    omega
  output_lt n h := by cases h
  matched := rfl
  paired := Nat.le_refl _
  tidy c cover h := by
    rcases c with _ | _ | c
    · cases h
      decide
    · cases h
      decide
    · simp [Graph.constants] at h

theorem two_le_size (h : g.WellFormed) : 2 ≤ g.size := lt_size_of_nodes h.true_node

theorem constant_lt (h : g.WellFormed) (value : Bool) : constant value < g.size := by
  refine Nat.lt_of_lt_of_le ?_ h.two_le_size
  cases value <;> decide

/-- A name that no node has yet counts as that of a gate. -/
theorem isGate_of_size_le (h : g.WellFormed) {n : NodeId} (hle : g.size ≤ n) :
    g.isGate n = true :=
  (h.isGate_iff n).2 ⟨h.two_le_size.trans hle, fun hinput =>
    absurd (h.input_lt n hinput).2 (Nat.not_lt.2 hle)⟩

theorem two_le_covers (h : g.WellFormed) : 2 ≤ g.covers.size :=
  (Array.getElem?_eq_some_iff.1 h.true_cover).1

theorem lt_size_of_reaches (h : g.WellFormed) {n m : NodeId} (hn : n < g.size)
    (hreach : Reaches g.childrenOf n m) : m < g.size := by
  cases hreach with
  | refl => exact hn
  | tail _ hstep => exact h.bounded _ _ hstep

/-- Changes of the terminals alone. -/
theorem of_outputs (h : g.WellFormed) (hnodes : g'.nodes = g.nodes) (hcovers : g'.covers = g.covers)
    (hinputs : g'.toInputs = g.toInputs) (hout : ∀ n ∈ g'.outputs, n < g.size)
    (hmatched : g'.toOutputs.Matched) (hpaired : g'.resets.length ≤ g'.registerOutputs.length) :
    g'.WellFormed where
  false_node := by rw [hnodes, h.false_node]
  true_node := by rw [hnodes, h.true_node]
  false_cover := by rw [hcovers, h.false_cover]
  true_cover := by rw [hcovers, h.true_cover]
  cover_lt := by rw [hnodes, hcovers]; exact h.cover_lt
  bounded := by rw [childrenOf_congr hnodes, size, hnodes]; exact h.bounded
  acyclic := by rw [childrenOf_congr hnodes]; exact h.acyclic
  input_lt := by rw [hinputs, size, hnodes]; exact h.input_lt
  indexed := hinputs ▸ h.indexed
  childless n := by
    rw [isGate_congr hinputs, childrenOf_congr hnodes]
    exact h.childless n
  arity n := by
    rw [isGate_congr hinputs, childrenOf_congr hnodes, size, hnodes]
    exact h.arity n
  output_lt := by rw [size, hnodes]; exact hout
  matched := hmatched
  paired := hpaired
  tidy := by rw [hcovers]; exact h.tidy

theorem addCover (h : g.WellFormed) (cover : Cover) (tidy : ∀ cube ∈ cover.cubes, cube.Tidy) :
    (g.addCover cover).WellFormed where
  false_node := h.false_node
  true_node := h.true_node
  false_cover := by
    rw [covers_addCover, if_neg (by have := h.two_le_covers; omega), h.false_cover]
  true_cover := by
    rw [covers_addCover, if_neg (by have := h.two_le_covers; omega), h.true_cover]
  cover_lt n node hn := by
    rw [Graph.addCover, Array.size_push]
    exact Nat.lt_succ_of_lt (h.cover_lt n node hn)
  bounded := h.bounded
  acyclic := h.acyclic
  input_lt := h.input_lt
  indexed := h.indexed
  childless := h.childless
  arity := h.arity
  output_lt := h.output_lt
  matched := h.matched
  paired := h.paired
  tidy c other hc := by
    rw [covers_addCover] at hc
    split at hc
    · cases hc
      exact tidy
    · exact h.tidy c other hc

end WellFormed

/-- The second graph has one node more than the first one: an input without children, or a gate. -/
structure Pushed (g : Graph) (node : Node) (g' : Graph) : Prop where
  nodes : g'.nodes = g.nodes.push node
  covers : g'.covers = g.covers
  cover_lt : node.cover < g.covers.size
  child_lt : ∀ child ∈ node.children, child < g.size
  outputs : g'.toOutputs = g.toOutputs
  indexed : g'.toInputs.Indexed
  paired : g'.resets.length ≤ g'.registerOutputs.length
  kind : (g'.inputs = g.inputs ++ [g.size] ∧ node.children = []) ∨
    (g'.inputs = g.inputs ∧ node.children ≠ [] ∧ node.children.length ≤ maxFanin)

namespace Pushed

variable {g g' : Graph} {node : Node}

theorem getElem?_nodes (h : Pushed g node g') (n : Nat) :
    g'.nodes[n]? = if n = g.size then some node else g.nodes[n]? := by
  rw [h.nodes, ← nodes_addNode]
  rfl

theorem childrenOf (h : Pushed g node g') (n : Nat) :
    g'.childrenOf n = if n = g.size then node.children else g.childrenOf n := by
  rw [← childrenOf_addNode]
  exact congrFun (childrenOf_congr h.nodes) n

theorem size (h : Pushed g node g') : g'.size = g.size + 1 := by
  rw [Graph.size, h.nodes, Array.size_push, Graph.size]

theorem isInput_iff (h : Pushed g node g') {n : NodeId} :
    g'.isInput n = true ↔ n ∈ g'.inputs := h.indexed.contains_iff

theorem isGate_of_ne (h : Pushed g node g') (hg : g.WellFormed) {n : Nat} (hn : n ≠ g.size) :
    g'.isGate n = g.isGate n := by
  have hinput : g'.isInput n = g.isInput n := by
    rw [Bool.eq_iff_iff, h.isInput_iff, hg.isInput_iff]
    rcases h.kind with ⟨hinputs, _⟩ | ⟨hinputs, _⟩
    · simp [hinputs, hn]
    · rw [hinputs]
  rw [isGate, hinput, isGate]

/-- The new node is a gate exactly if it has children. -/
theorem isGate_new (h : Pushed g node g') (hg : g.WellFormed) :
    g'.isGate g.size = true ↔ node.children ≠ [] := by
  have hnode := (hg.isGate_iff g.size).1 (hg.isGate_of_size_le le_rfl)
  have hgate : g'.isGate g.size = true ↔ g.size ∉ g'.inputs := by
    rw [isGate, Bool.and_eq_true, and_iff_right (by simpa [isConstant] using hnode.1),
      Bool.not_eq_true', ← Bool.not_eq_true, h.isInput_iff]
  rw [hgate]
  rcases h.kind with ⟨hinputs, hnil⟩ | ⟨hinputs, hne, _⟩
  · simp [hinputs, hnil]
  · rw [hinputs]
    exact iff_of_true hnode.2 hne

theorem bounded (h : Pushed g node g') (hg : g.WellFormed) : Bounded g'.childrenOf g'.size := by
  intro n child hn
  rw [h.childrenOf] at hn
  rw [h.size]
  split at hn
  · exact Nat.lt_succ_of_lt (h.child_lt child hn)
  · exact Nat.lt_succ_of_lt (hg.bounded n child hn)

/-- No list holds the new name, so the new node closes no cycle. -/
theorem acyclic (h : Pushed g node g') (hg : g.WellFormed) : Acyclic g'.childrenOf := by
  refine hg.acyclic.of_fresh g.size (fun n hn => by rw [h.childrenOf, if_neg hn]) fun n hn => ?_
  rw [h.childrenOf] at hn
  split at hn
  · exact Nat.lt_irrefl _ (h.child_lt _ hn)
  · exact Nat.lt_irrefl _ (hg.bounded n _ hn)

theorem input_lt (h : Pushed g node g') (hg : g.WellFormed) :
    ∀ n : Nat, n ∈ g'.inputs → 1 < n ∧ n < g'.size := by
  intro n hn
  have hbefore : n ∈ g.inputs → 1 < n ∧ n < g.size + 1 := fun hmem =>
    ⟨(hg.input_lt n hmem).1, Nat.lt_succ_of_lt (hg.input_lt n hmem).2⟩
  rw [h.size]
  rcases h.kind with ⟨hinputs, _⟩ | ⟨hinputs, _⟩
  · rw [hinputs, List.mem_append, List.mem_singleton] at hn
    rcases hn with hn | rfl
    · exact hbefore hn
    · exact ⟨hg.two_le_size, Nat.lt_succ_self _⟩
  · exact hbefore (hinputs ▸ hn)

theorem childless (h : Pushed g node g') (hg : g.WellFormed) (n : Nat)
    (hn : g'.isGate n = false) : g'.childrenOf n = [] := by
  rw [h.childrenOf]
  split
  · next heq =>
      by_contra hne
      rw [heq, (h.isGate_new hg).2 hne] at hn
      cases hn
  · next hne => exact hg.childless n (by rwa [h.isGate_of_ne hg hne] at hn)

theorem arity (h : Pushed g node g') (hg : g.WellFormed) (n : Nat) (hlt : n < g'.size)
    (hn : g'.isGate n = true) :
    g'.childrenOf n ≠ [] ∧ (g'.childrenOf n).length ≤ maxFanin := by
  rw [h.childrenOf]
  split
  · next heq =>
      have hne := (h.isGate_new hg).1 (heq ▸ hn)
      exact h.kind.elim (fun hinput => absurd hinput.2 hne) fun hgate => hgate.2
  · next hne =>
      rw [h.size] at hlt
      exact hg.arity n (by omega) (by rwa [h.isGate_of_ne hg hne] at hn)

end Pushed

namespace WellFormed

variable {g g' : Graph}

theorem push (h : g.WellFormed) {node : Node} (hpushed : Pushed g node g') : g'.WellFormed where
  false_node := by
    rw [hpushed.getElem?_nodes, if_neg (by have := h.two_le_size; omega), h.false_node]
  true_node := by
    rw [hpushed.getElem?_nodes, if_neg (by have := h.two_le_size; omega), h.true_node]
  false_cover := by rw [hpushed.covers, h.false_cover]
  true_cover := by rw [hpushed.covers, h.true_cover]
  cover_lt n other hn := by
    rw [hpushed.getElem?_nodes] at hn
    rw [hpushed.covers]
    split at hn
    · cases hn
      exact hpushed.cover_lt
    · exact h.cover_lt n other hn
  bounded := hpushed.bounded h
  acyclic := hpushed.acyclic h
  input_lt := hpushed.input_lt h
  indexed := hpushed.indexed
  childless := hpushed.childless h
  arity := hpushed.arity h
  output_lt n hn := by
    rw [hpushed.outputs] at hn
    rw [hpushed.size]
    exact Nat.lt_succ_of_lt (h.output_lt n hn)
  matched := hpushed.outputs ▸ h.matched
  paired := hpushed.paired
  tidy := by rw [hpushed.covers]; exact h.tidy

/-- A request that can be met makes a gate. -/
theorem pushed_addNode (h : g.WellFormed) {request : Request} (accepted : g.Accepts request) :
    Pushed g request (g.addNode request) where
  nodes := rfl
  covers := rfl
  cover_lt := accepted.cover_lt
  child_lt := accepted.child_lt
  outputs := rfl
  indexed := h.indexed
  paired := h.paired
  kind := Or.inr ⟨rfl, accepted.children_ne_nil, accepted.length_le⟩

theorem addNode (h : g.WellFormed) {request : Request} (accepted : g.Accepts request) :
    (g.addNode request).WellFormed := h.push (h.pushed_addNode accepted)

theorem rename_lt {old new n : NodeId} {size : Nat} (hnew : new < size) (hn : n < size) :
    rename old new n < size := by
  unfold rename
  split
  · exact hnew
  · exact hn

theorem redirect (h : g.WellFormed) {old new : NodeId} (hnew : new < g.size) (hne : new ≠ old)
    (hreach : ¬ Reaches g.childrenOf new old) : (g.redirect old new).WellFormed where
  false_node := by rw [nodes_redirect, h.false_node]; rfl
  true_node := by rw [nodes_redirect, h.true_node]; rfl
  false_cover := h.false_cover
  true_cover := h.true_cover
  cover_lt n node hn := by
    rw [nodes_redirect, Option.map_eq_some_iff] at hn
    obtain ⟨before, hbefore, rfl⟩ := hn
    exact h.cover_lt n before hbefore
  bounded n child hchild := by
    rw [childrenOf_redirect, renamed, List.mem_map] at hchild
    obtain ⟨before, hbefore, rfl⟩ := hchild
    rw [redirect_size]
    exact rename_lt hnew (h.bounded n before hbefore)
  acyclic := by
    rw [childrenOf_redirect]
    exact (acyclic_renamed_iff h.acyclic hne).2 hreach
  input_lt n hn := by
    rw [redirect_size]
    exact h.input_lt n hn
  indexed := h.indexed
  childless n hn := by
    rw [childrenOf_redirect, renamed, h.childless n hn, List.map_nil]
  arity n hlt hn := by
    rw [redirect_size] at hlt
    rw [childrenOf_redirect, renamed, List.length_map, ne_eq, List.map_eq_nil_iff]
    exact h.arity n hlt hn
  output_lt n hn := by
    rw [redirect_outputs, List.mem_map] at hn
    obtain ⟨before, hbefore, rfl⟩ := hn
    rw [redirect_size]
    exact rename_lt hnew (h.output_lt before hbefore)
  matched := by
    rw [Outputs.Matched, redirect_outputs, List.length_map]
    exact h.matched
  paired := h.paired
  tidy := h.tidy

end WellFormed
end Graph
end LogicNet
