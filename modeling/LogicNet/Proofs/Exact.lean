import LogicNet.Proofs.WellFormed

/-!
Networks whose sharing table is exact. As long as the options stay as they are, every gate that is
made with sharing on is recorded, and no other gate is made for an equal request; with sharing off
no request is met by an old node. So a request is met by the one gate that there is for it or by a
new one, and gates with equal children and equal covers are one.
-/

namespace LogicNet
namespace Network

/-- The table finds exactly the gates that there are, and nothing while sharing is off. -/
def Exact (net : Network) : Prop :=
  ∀ (request : Request) (n : NodeId), request.children ≠ [] →
    (net.shared? request = some n ↔
      net.options.share = true ∧ net.graph.nodes[n]? = some request)

namespace Exact

variable {net net' : Network}

theorem new (options : Options) : (Network.new options).Exact := by
  intro request n hne
  have hnone : (Network.new options).shared? request = none := by
    have hother : ∀ c, (⟨[], c⟩ : Request) ≠ request := fun c heq => hne (heq ▸ rfl)
    unfold shared?
    split
    · simp only [Network.new, SharingTable.find?_record, hother, if_false]
      rfl
    · rfl
  rw [hnone]
  refine iff_of_false (by simp) fun hn => hne ?_
  rw [← Graph.childrenOf_eq hn.2]
  exact Graph.WellFormed.childrenOf_constants n

theorem congr (h : net.Exact) (hnodes : net'.graph.nodes = net.graph.nodes)
    (htable : net'.table = net.table) (hoptions : net'.options = net.options) : net'.Exact := by
  intro request n hne
  rw [shared?, htable, hoptions, hnodes]
  exact h request n hne

/-- Two gates made for equal requests are one. -/
theorem eq (h : net.Exact) (hshare : net.options.share = true) {request : Request} {m n : NodeId}
    (hne : request.children ≠ []) (hm : net.graph.nodes[m]? = some request)
    (hn : net.graph.nodes[n]? = some request) : m = n := by
  have hfound := (h request m hne).2 ⟨hshare, hm⟩
  rw [(h request n hne).2 ⟨hshare, hn⟩] at hfound
  exact (Option.some.inj hfound).symm

/-- A node is added at the end. If it is a gate, none was made for an equal request so far. -/
theorem push (h : net.Exact) {node : Node}
    (hnodes : net'.graph.nodes = net.graph.nodes.push node)
    (hoptions : net'.options = net.options)
    (htable : ∀ request, net'.table.find? request =
      if net.options.share = true ∧ node = request then some net.graph.size
      else net.table.find? request)
    (hnew : node.children ≠ [] → net.shared? node = none) : net'.Exact := by
  intro request n hne
  have hbefore := h request n hne
  have hget : net'.graph.nodes[n]? =
      if n = net.graph.size then some node else net.graph.nodes[n]? := by
    rw [hnodes, ← Graph.nodes_addNode]
    rfl
  rw [shared?, hoptions, htable, hget]
  unfold shared? at hbefore hnew
  cases hshare : net.options.share with
  | false => simp
  | true =>
      rw [hshare] at hbefore hnew
      simp only [if_true, true_and] at hbefore hnew ⊢
      -- Only the request that the new node was made for is answered differently.
      by_cases heq : node = request
      · subst heq
        rw [hnew hne] at hbefore
        by_cases hn : n = net.graph.size
        · simp [hn]
        · have hout : net.graph.nodes[n]? ≠ some node := fun hin => by cases hbefore.2 hin
          simp [hn, hout, Ne.symm hn]
      · by_cases hn : n = net.graph.size
        · have hout : net.graph.nodes[n]? = none := by simp [hn, Graph.size]
          rw [hout] at hbefore
          simpa [heq, hn] using hbefore
        · simpa [heq, hn] using hbefore

end Exact

/-- The second network has the nodes of the first one and `n`, which is new unless sharing is on. -/
structure Provides (net : Network) (node : Node) (n : NodeId) (net' : Network) : Prop where
  node : net'.graph.nodes[n]? = some node
  kept : ∀ (m : NodeId) (other : Node), net.graph.nodes[m]? = some other →
    net'.graph.nodes[m]? = some other
  lt_size_iff : ∀ m : Nat, m < net'.graph.size ↔ m < net.graph.size ∨ m = n
  new : net.options.share = false → n = net.graph.size
  options : net'.options = net.options
  exact : net'.Exact

namespace Provides

variable {net net' : Network} {node : Node} {n : NodeId}

theorem push (hnodes : net'.graph.nodes = net.graph.nodes.push node)
    (hoptions : net'.options = net.options) (hexact : net'.Exact) :
    Provides net node net.graph.size net' where
  node := by simp [hnodes, Graph.size]
  kept m other hm := by
    have hne : m ≠ net.graph.nodes.size := Nat.ne_of_lt (Graph.lt_size_of_nodes hm)
    rw [hnodes, Array.getElem?_push, if_neg hne, hm]
  lt_size_iff m := by
    rw [Graph.size, hnodes, Array.size_push, Graph.size]
    omega
  new _ := rfl
  options := hoptions
  exact := hexact

theorem of_nodes_eq {before : Network} (h : Provides net node n net')
    (hnodes : net.graph.nodes = before.graph.nodes) (hoptions : net.options = before.options) :
    Provides before node n net' := by
  have hsize : net.graph.size = before.graph.size := by rw [Graph.size, hnodes, Graph.size]
  exact
    { node := h.node
      kept := hnodes ▸ h.kept
      lt_size_iff := hsize ▸ h.lt_size_iff
      new := hsize ▸ hoptions ▸ h.new
      options := h.options.trans hoptions
      exact := h.exact }

end Provides

/-- A request with children is met by a gate that was made for an equal one or by a new gate. -/
theorem Met.provides {net net' : Network} {request : Request} {n : NodeId}
    (hmet : Met net request n net') (h : net.Exact) (hne : request.children ≠ []) :
    Provides net request n net' := by
  cases hmet with
  | constant cover childless named => exact absurd childless hne
  | shared n accepted found =>
      obtain ⟨hshare, hn⟩ := (h request n hne).1 found
      refine ⟨hn, fun m other hm => hm, fun m => ?_, fun hoff => ?_, rfl, h⟩
      · have hlt := Graph.lt_size_of_nodes hn
        exact ⟨Or.inl, fun hm => hm.elim id fun heq => heq ▸ hlt⟩
      · rw [hshare] at hoff
        cases hoff
  | created fanouts accepted fresh raised =>
      have hnodes : ((net.addNode request fanouts).record request net.graph.size).graph.nodes =
          net.graph.nodes.push request := by
        rw [record_graph]
        rfl
      have hoptions : ((net.addNode request fanouts).record request net.graph.size).options =
          net.options := by
        rw [record_options]
        rfl
      exact .push hnodes hoptions (h.push hnodes hoptions
        (find?_record_table (net.addNode request fanouts) request net.graph.size) fun _ => fresh)

theorem Met.covers {net net' : Network} {request : Request} {n : NodeId}
    (h : Met net request n net') : net'.graph.covers = net.graph.covers := by
  cases h with
  | constant => rfl
  | shared => rfl
  | created fanouts accepted fresh raised =>
      rw [record_graph]
      rfl

/-- A met request is for an old node, and nothing has changed, or for a new one. -/
theorem Met.size_cases {net net' : Network} {request : Request} {n : NodeId}
    (h : Met net request n net') (hne : request.children ≠ []) (hexact : net.Exact) :
    (n < net.graph.size ∧ net' = net ∧ net.graph.nodes[n]? = some request) ∨
      (n = net.graph.size ∧ net'.graph = net.graph.addNode request ∧
        net.graph.Accepts request) := by
  cases h with
  | constant cover childless named => exact absurd childless hne
  | shared n accepted found =>
      obtain ⟨_, hn⟩ := (hexact request n hne).1 found
      exact Or.inl ⟨Graph.lt_size_of_nodes hn, rfl, hn⟩
  | created fanouts accepted fresh raised => exact Or.inr ⟨rfl, record_graph _ _ _, accepted⟩

end Network
end LogicNet
