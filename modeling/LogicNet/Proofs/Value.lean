import LogicNet.Graph.Simulation
import LogicNet.Proofs.Invariants

/-!
The function of each node. Under an assignment to the combinational inputs, by position, a constant
has its value, an input the one assigned to it, and a gate that of its cover on the values of its
children, the first of which is the most significant. Without cycles this determines the value of
every node, so it is a definition. A graph that grows keeps the values of its nodes, and so does a
redirection between nodes of equal value.
-/

namespace LogicNet
namespace Graph

variable {g g' : Graph} {v : Nat → Bool}

/-- The value of a node, given those of its children. -/
def nodeValue (g : Graph) (v : Nat → Bool) (n : NodeId) (below : List Bool) : Bool :=
  if isConstant n then constantValue n
  else match g.position? .input n with
    | some position => v position
    | none => match g.nodeCover n with
      | .ok cover => cover.evaluate (Pattern.ofBits below)
      | .error _ => false

/-- The value of a node, as far as descending `depth` steps settles it. -/
def valueWithin (g : Graph) (v : Nat → Bool) : Nat → NodeId → Bool
  | 0, _ => false
  | depth + 1, n => g.nodeValue v n ((g.childrenOf n).map (g.valueWithin v depth))

/-- The value of a node under an assignment to the inputs. No descent takes more steps than there
are nodes. -/
def value (g : Graph) (v : Nat → Bool) (n : NodeId) : Bool := g.valueWithin v g.size n

/-- What a rule makes of a node. No descent takes more steps than there are nodes. -/
def descend {α : Type} (g : Graph) (rule : NodeId → List α → α) (base : α) (n : NodeId) : α :=
  descendWithin g.childrenOf rule base g.size n

theorem descend_eq {α : Type} (h : g.WellFormed) (rule : NodeId → List α → α) (base : α)
    (n : NodeId) : g.descend rule base n = rule n ((g.childrenOf n).map (g.descend rule base)) := by
  obtain ⟨last, hlast⟩ : ∃ last, g.size = last + 1 :=
    ⟨g.size - 1, by have := h.two_le_size; omega⟩
  have hunfold : g.descend rule base n =
      rule n ((g.childrenOf n).map (descendWithin g.childrenOf rule base last)) := by
    rw [descend, hlast, descendWithin]
  rw [hunfold]
  congr 1
  apply List.map_congr_left
  intro child hchild
  have hn := lt_size_of_mem_childrenOf hchild
  have hlt := rank_lt_of_child h.acyclic h.bounded hchild
  have hrank : rank g.childrenOf g.size n < g.size := rank_lt_size h.acyclic hn
  exact descendWithin_congr h.acyclic h.bounded (by omega) (by omega)

theorem value_eq_descend (g : Graph) (v : Nat → Bool) :
    g.value v = g.descend (g.nodeValue v) false := by
  have hwithin : ∀ depth, g.valueWithin v depth =
      descendWithin g.childrenOf (g.nodeValue v) false depth := by
    intro depth
    induction depth with
    | zero => rfl
    | succ depth ih =>
        funext n
        rw [valueWithin, descendWithin, ih]
  funext n
  rw [value, hwithin, descend]

/-- The equation of values. -/
theorem value_eq (h : g.WellFormed) (v : Nat → Bool) (n : NodeId) :
    g.value v n = g.nodeValue v n ((g.childrenOf n).map (g.value v)) := by
  rw [value_eq_descend]
  exact descend_eq h _ _ n

/-- Whatever satisfies the equation of values on nodes closed under children is the value there. -/
theorem eq_value (h : g.WellFormed) {f : NodeId → Bool} {P : NodeId → Prop}
    (hclosed : ∀ n, P n → ∀ child ∈ g.childrenOf n, P child)
    (hf : ∀ n, P n → f n = g.nodeValue v n ((g.childrenOf n).map f)) (n : NodeId) (hn : P n) :
    f n = g.value v n :=
  h.acyclic.eq_of_rule h.bounded hclosed hf (fun n _ => value_eq h v n) n hn

theorem value_constant (h : g.WellFormed) (value : Bool) :
    g.value v (constant value) = value := by
  rw [value_eq h]
  cases value <;> rfl

theorem position?_input_eq_none_iff {n : NodeId} : g.position? .input n = none ↔ n ∉ g.inputs :=
  List.idxOf?_eq_none_iff

theorem position?_input (h : g.WellFormed) {position : Nat} {n : NodeId}
    (hn : g.inputs[position]? = some n) : g.position? .input n = some position := by
  obtain ⟨hlt, rfl⟩ := List.getElem?_eq_some_iff.1 hn
  refine List.idxOf?_eq_some_iff.2 ⟨hlt, rfl, fun earlier hearlier heq => ?_⟩
  have hsame := (h.inputs_nodup.getElem_inj_iff).1 heq
  omega

/-- The table of positions finds an input where it stands in the list. -/
theorem WellFormed.inputPositions_eq (h : g.WellFormed) (n : NodeId) :
    g.inputPositions[n]? = g.position? .input n := by
  cases hposition : g.inputPositions[n]? with
  | none =>
      exact (position?_input_eq_none_iff.2 (h.indexed.position_eq_none_iff.1 hposition)).symm
  | some i => exact (position?_input h ((h.indexed.position n i).1 hposition)).symm

/-- An input has the value at its position. -/
theorem value_input (h : g.WellFormed) {position : Nat} {n : NodeId}
    (hn : g.inputs[position]? = some n) : g.value v n = v position := by
  have hlt := (h.input_lt n (List.mem_of_getElem? hn)).1
  have hconstant : isConstant n = false := by simpa [isConstant] using hlt
  rw [value_eq h, nodeValue, position?_input h hn, hconstant]
  rfl

theorem nodeCover_eq_ok_iff (g : Graph) (n : NodeId) (cover : Cover) :
    g.nodeCover n = .ok cover ↔
      ∃ node, g.nodes[n]? = some node ∧ g.covers[node.cover]? = some cover := by
  unfold nodeCover
  cases hnode : g.node n with
  | error fault =>
      have hnone : ∀ node, g.nodes[n]? ≠ some node := fun node hn => by
        rw [(node_eq_ok_iff g n node).2 hn] at hnode
        cases hnode
      exact iff_of_false nofun fun ⟨node, hn, _⟩ => hnone node hn
  | ok node =>
      simp only [(node_eq_ok_iff g n node).1 hnode, Option.some.injEq, exists_eq_left',
        ← cover_eq_ok_iff]
      rfl

/-- A gate has the value of its cover on the values of its children. -/
theorem value_gate (h : g.WellFormed) {n : NodeId} {node : Node} {cover : Cover}
    (hn : g.nodes[n]? = some node) (hcover : g.covers[node.cover]? = some cover)
    (hgate : g.isGate n = true) :
    g.value v n = cover.evaluate (Pattern.ofBits (node.children.map (g.value v))) := by
  obtain ⟨hlt, hinput⟩ := (h.isGate_iff n).1 hgate
  rw [value_eq h, nodeValue, childrenOf_eq hn]
  have hconstant : isConstant n = false := by simpa [isConstant] using hlt
  have hnode : g.nodeCover n = .ok cover := (nodeCover_eq_ok_iff g n cover).2 ⟨node, hn, hcover⟩
  simp only [hconstant, position?_input_eq_none_iff.2 hinput, hnode, Bool.false_eq_true, if_false]

/-- The second graph has the nodes, the covers and the inputs of the first, and further ones after
them. -/
structure Grown (g g' : Graph) : Prop where
  nodes : ∀ (n : NodeId) (node : Node), g.nodes[n]? = some node → g'.nodes[n]? = some node
  covers : ∀ (c : CoverId) (cover : Cover), g.covers[c]? = some cover → g'.covers[c]? = some cover
  inputs : ∃ more : List NodeId, g'.inputs = g.inputs ++ more ∧ ∀ n ∈ more, g.size ≤ n

namespace Grown

theorem of_same (hnodes : g'.nodes = g.nodes) (hcovers : g'.covers = g.covers)
    (hinputs : g'.inputs = g.inputs) : Grown g g' where
  nodes n node hn := by rw [hnodes, hn]
  covers c cover hc := by rw [hcovers, hc]
  inputs := ⟨[], by rw [hinputs, List.append_nil], by simp⟩

theorem size_le (h : Grown g g') : g.size ≤ g'.size := by
  by_contra hlt
  obtain ⟨node, hnode⟩ := exists_node (Nat.lt_of_not_le hlt)
  exact Nat.lt_irrefl _ (lt_size_of_nodes (h.nodes _ node hnode))

theorem trans {g'' : Graph} (h : Grown g g') (h' : Grown g' g'') : Grown g g'' where
  nodes n node hn := h'.nodes n node (h.nodes n node hn)
  covers c cover hc := h'.covers c cover (h.covers c cover hc)
  inputs := by
    obtain ⟨more, hmore, hle⟩ := h.inputs
    obtain ⟨more', hmore', hle'⟩ := h'.inputs
    refine ⟨more ++ more', by rw [hmore', hmore, List.append_assoc], fun n hn => ?_⟩
    rcases List.mem_append.1 hn with hn | hn
    · exact hle n hn
    · exact Nat.le_trans h.size_le (hle' n hn)

theorem childrenOf (h : Grown g g') {n : Nat} (hn : n < g.size) :
    g'.childrenOf n = g.childrenOf n := by
  obtain ⟨node, hnode⟩ := exists_node hn
  rw [childrenOf_eq hnode, childrenOf_eq (h.nodes n node hnode)]

theorem position? (h : Grown g g') {n : Nat} (hn : n < g.size) :
    g'.position? .input n = g.position? .input n := by
  obtain ⟨more, hmore, hle⟩ := h.inputs
  have hnone : more.findIdx? (· == n) = none :=
    List.idxOf?_eq_none_iff.2 fun hmem => Nat.not_le_of_lt hn (hle n hmem)
  simp only [Graph.position?, terminals, hmore, List.idxOf?, List.findIdx?_append, hnone,
    Option.map_none, Option.or_none]

theorem nodeCover (h : Grown g g') (hg : g.WellFormed) {n : Nat} (hn : n < g.size) :
    g'.nodeCover n = g.nodeCover n := by
  obtain ⟨node, cover, hnode, hcover⟩ := hg.exists_cover hn
  simp only [Graph.nodeCover, (node_eq_ok_iff _ _ _).2 hnode,
    (node_eq_ok_iff _ _ _).2 (h.nodes n node hnode), Bind.bind, Except.bind,
    (cover_eq_ok_iff _ _ _).2 hcover, (cover_eq_ok_iff _ _ _).2 (h.covers _ cover hcover)]

/-- Nodes keep their values as the graph grows. -/
theorem value (h : Grown g g') (hg : g.WellFormed) (hg' : g'.WellFormed) (v : Nat → Bool) {n : Nat}
    (hn : n < g.size) : g'.value v n = g.value v n := by
  refine eq_value hg (P := fun n : Nat => n < g.size)
    (fun n _ child hchild => hg.bounded n child hchild) (fun n hn => ?_) n hn
  rw [value_eq hg', nodeValue, nodeValue, h.childrenOf hn, h.position? hn, h.nodeCover hg hn]

end Grown

@[simp] theorem nodeCover_redirect (g : Graph) (old new n : NodeId) :
    (g.redirect old new).nodeCover n = g.nodeCover n := by
  simp only [nodeCover, node, nodes_redirect, redirect_size]
  cases g.nodes[n]? <;> rfl

/-- A redirection between nodes of equal value keeps the value of every node. -/
theorem value_redirect (h : g.WellFormed) {old new : NodeId} (h' : (g.redirect old new).WellFormed)
    (hsame : g.value v old = g.value v new) (n : NodeId) :
    (g.redirect old new).value v n = g.value v n := by
  have hrename : ∀ child, g.value v (rename old new child) = g.value v child := by
    intro child
    unfold rename
    split
    · next heq => rw [heq, hsame]
    · rfl
  refine (eq_value h' (P := fun _ => True) (fun _ _ _ _ => trivial) (fun n _ => ?_) n trivial).symm
  rw [value_eq h, childrenOf_redirect, renamed, List.map_map]
  simp only [Function.comp_def, hrename, nodeValue, nodeCover_redirect]
  rfl

end Graph

namespace Network

variable {net net' : Network}

theorem Growth.grown (h : Growth net net') : Graph.Grown net.graph net'.graph := by
  have hinput : ∀ {g' : Graph}, g'.nodes = net.graph.nodes.push net.graph.inputNode →
      g'.covers = net.graph.covers.push Cover.identity →
      g'.inputs = net.graph.inputs ++ [net.graph.size] → Graph.Grown net.graph g' := by
    intro g' hnodes hcovers hinputs
    refine ⟨fun n node hn => ?_, fun c cover hc => ?_, [net.graph.size], hinputs, by simp⟩
    · rw [hnodes, Array.getElem?_push, if_neg, hn]
      exact Nat.ne_of_lt (Graph.lt_size_of_nodes hn)
    · rw [hcovers]
      exact WellFormed.covers_of_addCover hc
  cases h with
  | primaryInput => exact hinput rfl rfl rfl
  | registerOutput =>
      rw [addInputNode_graph]
      exact hinput rfl rfl rfl
  | cover cover _ =>
      exact ⟨fun n node hn => hn, fun c _ hc => WellFormed.covers_of_addCover hc, [],
        (List.append_nil _).symm, by simp⟩
  | gate request fanouts _ _ _ =>
      rw [record_graph]
      refine ⟨fun n node hn => ?_, fun c _ hc => hc, [], (List.append_nil _).symm, by simp⟩
      rw [addNode, Graph.nodes_addNode, if_neg, hn]
      exact Nat.ne_of_lt (Graph.lt_size_of_nodes hn)
  | _ => exact .of_same rfl rfl rfl

theorem Extension.grown (h : Extension net net') : Graph.Grown net.graph net'.graph := by
  cases h with
  | growth hgrowth => exact hgrowth.grown
  | _ => exact .of_same rfl rfl rfl

/-- A run that extends a network keeps its nodes, covers and inputs. -/
theorem grown_of_extensions (h : Relation.ReflTransGen Extension net net') :
    Graph.Grown net.graph net'.graph := by
  induction h with
  | refl => exact .of_same rfl rfl rfl
  | tail _ hstep ih => exact ih.trans hstep.grown

end Network
end LogicNet
