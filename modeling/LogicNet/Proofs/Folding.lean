import LogicNet.Proofs.Evaluation
import LogicNet.Proofs.Mirror

/-!
Folding one network onto another: a map of its nodes that keeps constants, inputs, outputs, resets,
covers and ordered children, and meets every node. A network that is built without sharing folds onto
the one that the same construction builds with sharing, since the two go through the same elementary
changes, except that a request which sharing meets by an older node adds a node to the first network
alone. Nodes that fold onto one node have its value.
-/

namespace LogicNet
namespace Graph

/-- A map of the nodes of one graph onto those of another that keeps what the nodes are. -/
structure Folds (f : NodeId → NodeId) (g g' : Graph) : Prop where
  constant : ∀ value, f (constant value) = constant value
  node : ∀ (n : NodeId) (node : Node), g.nodes[n]? = some node →
    g'.nodes[f n]? = some ⟨node.children.map f, node.cover⟩
  onto : ∀ m < g'.size, ∃ n < g.size, f n = m
  covers : g'.covers = g.covers
  inputs : g'.inputs = g.inputs.map f
  primaryInputCount : g'.primaryInputCount = g.primaryInputCount
  outputs : g'.outputs = g.outputs.map f
  primaryOutputCount : g'.primaryOutputCount = g.primaryOutputCount
  resets : g'.resets = g.resets

namespace Folds

variable {f : NodeId → NodeId} {g g' : Graph}

theorem constants : Folds id Graph.constants Graph.constants where
  constant _ := rfl
  node n node h := by rw [List.map_id]; exact h
  onto m hm := ⟨m, hm, rfl⟩
  covers := rfl
  inputs := rfl
  primaryInputCount := rfl
  outputs := rfl
  primaryOutputCount := rfl
  resets := rfl

theorem lt_size (h : Folds f g g') {n : NodeId} (hn : n < g.size) : f n < g'.size := by
  obtain ⟨node, hnode⟩ := exists_node hn
  exact lt_size_of_nodes (h.node n node hnode)

/-- The second graph has no more nodes. -/
theorem size_le (h : Folds f g g') : g'.size ≤ g.size := by
  have hsubset : List.range g'.size ⊆ (List.range g.size).map f := by
    intro m hm
    obtain ⟨n, hn, rfl⟩ := h.onto m (List.mem_range.1 hm)
    exact List.mem_map_of_mem (List.mem_range.2 hn)
  simpa using (List.nodup_range.subperm hsubset).length_le

/-- The lists of terminals fold one by one: those in front are as many. -/
theorem terminals (h : Folds f g g') (list : Terminal) :
    g'.terminals list = (g.terminals list).map f := by
  cases list with
  | input => exact h.inputs
  | output => exact h.outputs
  | primaryInput =>
      exact (congrArg₂ List.take h.primaryInputCount h.inputs).trans List.map_take.symm
  | primaryOutput =>
      exact (congrArg₂ List.take h.primaryOutputCount h.outputs).trans List.map_take.symm
  | registerOutput =>
      exact (congrArg₂ List.drop h.primaryInputCount h.inputs).trans List.map_drop.symm
  | registerInput =>
      exact (congrArg₂ List.drop h.primaryOutputCount h.outputs).trans List.map_drop.symm

/-- Gates fold onto gates. -/
theorem isGate (h : Folds f g g') (hg : g.WellFormed) (hg' : g'.WellFormed) {n : NodeId}
    (hn : n < g.size) (hgate : g.isGate n = true) : g'.isGate (f n) = true := by
  obtain ⟨node, hnode⟩ := exists_node hn
  have hne := (hg.arity n hn hgate).1
  by_contra hother
  have hnil := hg'.childless (f n) (Bool.eq_false_iff.2 hother)
  rw [childrenOf_eq (h.node n node hnode), List.map_eq_nil_iff] at hnil
  exact hne ((childrenOf_eq hnode).trans hnil)

/-- The values of the second graph are values of the first one. -/
theorem valuation (h : Folds f g g') (hg : g.WellFormed) (hg' : g'.WellFormed) {inputs : List Bool}
    {v : NodeId → Bool} (hv : g'.Valuation inputs v) : g.Valuation inputs (v ∘ f) where
  constant value := by
    rw [Function.comp_apply, h.constant]
    exact hv.constant value
  input position n hn := hv.input position (f n) (by rw [h.inputs, List.getElem?_map, hn]; rfl)
  gate n node cover hgate hnode hcover := by
    obtain ⟨pattern, hpattern, hvalue⟩ := hv.gate (f n) _ cover
      (h.isGate hg hg' (lt_size_of_nodes hnode) hgate) (h.node n node hnode)
      (by rw [h.covers]; exact hcover)
    exact ⟨pattern, by rwa [List.map_map] at hpattern, hvalue⟩

/-- The outputs of the two graphs have the same values. -/
theorem map_value (h : Folds f g g') (hg : g.WellFormed) (hg' : g'.WellFormed) {inputs : List Bool}
    (hinputs : inputs.length = g.inputs.length) :
    g'.outputs.map (g'.value (assigned inputs)) = g.outputs.map (g.value (assigned inputs)) := by
  have hinputs' : inputs.length = g'.inputs.length := by rw [h.inputs, List.length_map, hinputs]
  have hv := h.valuation hg hg' (valuation_value hg' hinputs')
  rw [h.outputs, List.map_map]
  exact List.map_congr_left fun n hn => hv.eq_value hg (hg.output_lt n hn)

end Folds
end Graph


namespace Network

/-- Where a node that has been added goes, besides those that were there before. -/
def placing (f : NodeId → NodeId) (n m : NodeId) : NodeId → NodeId :=
  fun k => if k = n then m else f k

theorem placing_self (f : NodeId → NodeId) (n m : NodeId) : placing f n m n = m := if_pos rfl

theorem placing_of_lt {f : NodeId → NodeId} {size m n : Nat} (hn : n < size) :
    placing f size m n = f n :=
  if_neg (Nat.ne_of_lt hn)

theorem map_placing {f : NodeId → NodeId} {size m : Nat} {ns : List NodeId}
    (hns : ∀ n ∈ ns, n < size) : ns.map (placing f size m) = ns.map f :=
  List.map_congr_left fun n hn => placing_of_lt (hns n hn)

/-- What construction keeps: the network is well formed, its table is exact, its options are those
that it began with, and its scratch space is clear. -/
structure Kept (options : Options) (net : Network) : Prop where
  wellFormed : net.WellFormed
  exact : net.Exact
  options_eq : net.options = options
  scratch_eq : net.scratch = Scratch.clear net.graph.size

namespace Kept

variable {options : Options} {net net' : Network}

theorem new (options : Options) : Kept options (Network.new options) where
  wellFormed := .new options
  exact := .new options
  options_eq := rfl
  scratch_eq := rfl

theorem of_growth (h : Kept options net) (hgrowth : Growth net net') (hexact : net'.Exact)
    (hscratch : net'.scratch = Scratch.clear net'.graph.size) : Kept options net' where
  wellFormed := h.wellFormed.of_growth hgrowth
  exact := hexact
  options_eq := hgrowth.builds.options_eq.trans h.options_eq
  scratch_eq := hscratch

/-- The same nodes, requests and scratch space. -/
theorem of_same (h : Kept options net) (hgrowth : Growth net net')
    (hnodes : net'.graph.nodes = net.graph.nodes) (htable : net'.table = net.table)
    (hscratch : net'.scratch = net.scratch) : Kept options net' := by
  refine h.of_growth hgrowth (h.exact.congr hnodes htable hgrowth.builds.options_eq) ?_
  rw [hscratch, h.scratch_eq, Graph.size, Graph.size, hnodes]

theorem of_met (h : Kept options net) {request : Request} {n : NodeId}
    (hmet : Met net request n net') (hne : request.children ≠ []) : Kept options net' := by
  rcases hmet.growth with rfl | hgrowth
  · exact h
  · exact h.of_growth hgrowth (hmet.provides h.exact hne).exact (hmet.beside.2.2 h.scratch_eq)

/-- Evaluation is not refused. -/
theorem evaluate_answer (h : Kept options net) {inputs : List Bool}
    (hinputs : inputs.length = net.graph.inputs.length) :
    (evaluate inputs net).answer =
      .ok (net.graph.outputs.map (net.graph.value (Graph.assigned inputs))) := by
  refine Network.evaluate_answer h.wellFormed ?_ ?_ hinputs
  · rw [h.scratch_eq]
    exact .clear _
  · rw [h.scratch_eq]
    show (0 : UInt32).toNat + 1 < UInt32.size
    decide

/-- A primary output uses a node once more. -/
theorem primaryOutput (h : Kept options net) {signal : NodeId} {fanouts : Fanouts}
    (hlt : signal < net.graph.size)
    (hfirst : net.graph.outputs.length = net.graph.primaryOutputCount)
    (hraised : net.fanouts.raise signal 1 = .ok fanouts) :
    Kept options { net with fanouts, graph := net.graph.pushPrimaryOutput signal } :=
  h.of_same (.primaryOutput signal fanouts hlt hfirst hraised) rfl rfl rfl

theorem registerInput (h : Kept options net) {signal : NodeId} (reset : Reset) {fanouts : Fanouts}
    (hlt : signal < net.graph.size)
    (hpaired : net.graph.resets.length < net.graph.terminalCount .registerOutput)
    (hraised : net.fanouts.raise signal 1 = .ok fanouts) :
    Kept options { net with fanouts, graph := net.graph.pushRegisterInput signal reset } :=
  h.of_same (.registerInput signal reset fanouts hlt hpaired hraised) rfl rfl rfl

theorem addCover (h : Kept options net) {cover : Cover} (tidy : ∀ cube ∈ cover.cubes, cube.Tidy) :
    Kept options { net with graph := net.graph.addCover cover } :=
  h.of_same (.cover cover tidy) rfl rfl rfl

/-- The cover that was added last becomes that of a kind of gate. -/
theorem registerCover (h : Kept options net) {kind : Gate} {c : CoverId}
    (hcover : net.graph.covers[c]? = some kind.cover) :
    Kept options { net with
      gateCover := fun other => if other = kind then some c else net.gateCover other } where
  wellFormed :=
    { h.wellFormed with
      gateCover := fun other c' hc => by
        dsimp only at hc
        split at hc
        · next heq =>
            cases hc
            rw [heq]
            exact hcover
        · exact h.wellFormed.gateCover other c' hc }
  exact := h.exact.congr rfl rfl rfl
  options_eq := h.options_eq
  scratch_eq := h.scratch_eq

end Kept

/-- An input is created; `primary` is what it adds to the count of primary inputs. -/
structure Gains (net : Network) (primary : Nat) (net' : Network) : Prop where
  growth : Growth net net'
  added : InputAdded net net.graph.size net'
  gateCover : net'.gateCover = net.gateCover
  scratch : net'.scratch = net.scratch.grow
  inputs : net'.graph.inputs = net.graph.inputs ++ [net.graph.size]
  primaryInputCount : net'.graph.primaryInputCount = net.graph.primaryInputCount + primary
  toOutputs : net'.graph.toOutputs = net.graph.toOutputs

namespace Gains

variable {net net' : Network} {primary : Nat}

theorem primaryInput (hfirst : net.graph.inputs.length = net.graph.primaryInputCount) :
    Gains net 1 (addPrimaryInput net).state := by
  obtain ⟨hanswer, hstate⟩ := addPrimaryInput_run hfirst
  have hadded := addPrimaryInput_added net _ hanswer
  rw [hstate] at hadded ⊢
  exact ⟨.primaryInput hfirst, hadded, addInputNode_gateCover net, addInputNode_scratch net, rfl,
    rfl, rfl⟩

theorem registerOutput (net : Network) : Gains net 0 (addRegisterOutput net).state := by
  obtain ⟨hanswer, hstate⟩ := addRegisterOutput_run net
  have hadded := addRegisterOutput_added net _ hanswer
  rw [hstate] at hadded ⊢
  exact ⟨.registerOutput, hadded, addInputNode_gateCover net, addInputNode_scratch net,
    by simp, by simp; rfl, by simp⟩

theorem size_eq (h : Gains net primary net') : net'.graph.size = net.graph.size + 1 := by
  rw [Graph.size, h.added.nodes, Array.size_push, Graph.size]

theorem references_eq (h : Gains net primary net') :
    net'.graph.references = net.graph.references :=
  Graph.references_of_input h.added.nodes (by rw [h.toOutputs])

theorem kept (h : Gains net primary net') {options : Options} (hkept : Kept options net) :
    Kept options net' := by
  refine hkept.of_growth h.growth (h.added.exact hkept.exact) ?_
  rw [h.scratch, hkept.scratch_eq, clear_grow, h.size_eq]

end Gains

/-- Apart from the nodes the graph stays as it is when a request is met. -/
theorem Met.graph_eq {net net' : Network} {request : Request} {n : NodeId}
    (h : Met net request n net') : net'.graph = { net.graph with nodes := net'.graph.nodes } := by
  cases h with
  | constant => rfl
  | shared => rfl
  | created fanouts => rw [record_graph]; rfl

theorem Met.gateCover_eq {net net' : Network} {request : Request} {n : NodeId}
    (h : Met net request n net') : net'.gateCover = net.gateCover := by
  cases h with
  | constant => rfl
  | shared => rfl
  | created fanouts => exact record_gateCover _ _ _

/-- The first network, which is built without sharing, folds onto the second one, which is built with
sharing. -/
structure Folded (f : NodeId → NodeId) (plain sharing : Network) : Prop where
  plain_kept : Kept .plain plain
  sharing_kept : Kept .sharing sharing
  folds : Graph.Folds f plain.graph sharing.graph
  gateCover : sharing.gateCover = plain.gateCover
  references_le : sharing.graph.references.length ≤ plain.graph.references.length

namespace Folded

variable {f : NodeId → NodeId} {s s' t t' : Network}

theorem new : Folded id (Network.new .plain) (Network.new .sharing) where
  plain_kept := .new .plain
  sharing_kept := .new .sharing
  folds := .constants
  gateCover := rfl
  references_le := Nat.le_refl _

/-- A node is added to the first network, and the second one provides its image. -/
theorem place (h : Folded f s t) {node : Node} {m : NodeId}
    (hnodes : s'.graph.nodes = s.graph.nodes.push node)
    (hchildren : ∀ child ∈ node.children, child < s.graph.size)
    (hprovides : Provides t ⟨node.children.map f, node.cover⟩ m t') :
    let f' := placing f s.graph.size m
    (∀ value, f' (Graph.constant value) = Graph.constant value) ∧
      (∀ (n : NodeId) (node : Node), s'.graph.nodes[n]? = some node →
        t'.graph.nodes[f' n]? = some ⟨node.children.map f', node.cover⟩) ∧
      ∀ k < t'.graph.size, ∃ n < s'.graph.size, f' n = k := by
  have hwell := h.plain_kept.wellFormed.graph
  have hsize : s'.graph.size = s.graph.size + 1 := by
    rw [Graph.size, hnodes, Array.size_push, Graph.size]
  refine ⟨fun value => ?_, fun n other hn => ?_, fun k hk => ?_⟩
  · rw [placing_of_lt (hwell.constant_lt value)]
    exact h.folds.constant value
  · rw [hnodes, Array.getElem?_push] at hn
    split at hn
    · next heq =>
        cases hn
        rw [heq, map_placing hchildren]
        show t'.graph.nodes[placing f s.graph.size m s.graph.size]? = _
        rw [placing_self]
        exact hprovides.node
    · have hlt := Graph.lt_size_of_nodes hn
      rw [placing_of_lt hlt, map_placing]
      · exact hprovides.kept _ _ (h.folds.node n other hn)
      · intro child hchild
        exact hwell.bounded n child (by rwa [Graph.childrenOf_eq hn])
  · rcases (hprovides.lt_size_iff k).1 hk with hk | rfl
    · obtain ⟨n, hn, rfl⟩ := h.folds.onto k hk
      exact ⟨n, hsize ▸ Nat.lt_succ_of_lt hn, placing_of_lt hn⟩
    · exact ⟨s.graph.size, hsize ▸ Nat.lt_succ_self _, placing_self f _ _⟩

/-- The outputs go where they went before. -/
theorem outputs_placing (h : Folded f s t) (m : NodeId) :
    t.graph.outputs = s.graph.outputs.map (placing f s.graph.size m) := by
  rw [h.folds.outputs, map_placing h.plain_kept.wellFormed.graph.output_lt]

/-- The inputs go where they went before. -/
theorem inputs_placing (h : Folded f s t) (m : NodeId) :
    t.graph.inputs = s.graph.inputs.map (placing f s.graph.size m) := by
  rw [h.folds.inputs, map_placing]
  exact fun n hn => (h.plain_kept.wellFormed.graph.input_lt n hn).2

/-- An input is created on both networks. -/
theorem input (h : Folded f s t) {primary : Nat} (hs : Gains s primary s')
    (ht : Gains t primary t') : Folded (placing f s.graph.size t.graph.size) s' t' := by
  have hprovides := Provides.push ht.added.nodes ht.added.options
    (ht.added.exact h.sharing_kept.exact)
  rw [Graph.inputNode, h.folds.covers] at hprovides
  obtain ⟨hconstant, hnode, honto⟩ := h.place hs.added.nodes (by simp [Graph.inputNode]) hprovides
  exact
    { plain_kept := hs.kept h.plain_kept
      sharing_kept := ht.kept h.sharing_kept
      folds :=
        { constant := hconstant
          node := hnode
          onto := honto
          covers := by rw [ht.added.covers, hs.added.covers, h.folds.covers]
          inputs := by
            rw [ht.inputs, hs.inputs, List.map_append, ← h.inputs_placing, List.map_singleton,
              placing_self]
          primaryInputCount := by
            rw [ht.primaryInputCount, hs.primaryInputCount, h.folds.primaryInputCount]
          outputs := by rw [ht.toOutputs, hs.toOutputs]; exact h.outputs_placing _
          primaryOutputCount := by
            rw [ht.toOutputs, hs.toOutputs]
            exact h.folds.primaryOutputCount
          resets := by rw [ht.toOutputs, hs.toOutputs]; exact h.folds.resets }
      gateCover := by rw [ht.gateCover, hs.gateCover, h.gateCover]
      references_le := by rw [ht.references_eq, hs.references_eq]; exact h.references_le }

/-- Without sharing a request makes a new node. -/
theorem plain_met (h : Folded f s t) {request : Request} {n : NodeId}
    (hne : request.children ≠ []) (hs : Met s request n s') :
    n = s.graph.size ∧ s'.graph = s.graph.addNode request := by
  have hunshared : s.options.share = false := by rw [h.plain_kept.options_eq]; rfl
  have hn : n = s.graph.size := (hs.provides h.plain_kept.exact hne).new hunshared
  obtain ⟨_, hgraph, _⟩ := (hs.size_cases hne h.plain_kept.exact).resolve_left fun hold =>
    Nat.ne_of_lt hold.1 hn
  exact ⟨hn, hgraph⟩

/-- A request is met on both networks. -/
theorem met (h : Folded f s t) {children : List NodeId} {cover : CoverId} {n m : NodeId}
    (hne : children ≠ []) (hchildren : ∀ child ∈ children, child < s.graph.size)
    (hs : Met s ⟨children, cover⟩ n s') (ht : Met t ⟨children.map f, cover⟩ m t') :
    Folded (placing f s.graph.size m) s' t' := by
  have hne' : children.map f ≠ [] := fun heq => hne (List.map_eq_nil_iff.1 heq)
  obtain ⟨_, hgraph⟩ := h.plain_met hne hs
  have hprovides := ht.provides h.sharing_kept.exact hne'
  have hnodes : s'.graph.nodes = s.graph.nodes.push ⟨children, cover⟩ := by rw [hgraph]; rfl
  obtain ⟨hconstant, hnode, honto⟩ := h.place hnodes hchildren hprovides
  exact
    { plain_kept := h.plain_kept.of_met hs hne
      sharing_kept := h.sharing_kept.of_met ht hne'
      folds :=
        { constant := hconstant
          node := hnode
          onto := honto
          covers := by rw [ht.graph_eq, hs.graph_eq]; exact h.folds.covers
          inputs := by rw [ht.graph_eq, hs.graph_eq]; exact h.inputs_placing m
          primaryInputCount := by
            rw [ht.graph_eq, hs.graph_eq]
            exact h.folds.primaryInputCount
          outputs := by rw [ht.graph_eq, hs.graph_eq]; exact h.outputs_placing m
          primaryOutputCount := by
            rw [ht.graph_eq, hs.graph_eq]
            exact h.folds.primaryOutputCount
          resets := by rw [ht.graph_eq, hs.graph_eq]; exact h.folds.resets }
      gateCover := by rw [ht.gateCover_eq, hs.gateCover_eq, h.gateCover]
      references_le := by
        have hle := ht.beside.2.1
        rw [List.length_map] at hle
        rw [hgraph, Graph.length_references_addNode]
        exact Nat.le_trans hle (Nat.add_le_add_right h.references_le _) }

/-- The image of a signal has room for one use more if the signal has. -/
theorem raise_isOk (h : Folded f s t) {signal : NodeId}
    (huses : s.graph.references.length + 1 < UInt32.size) :
    ∃ fanouts, t.fanouts.raise (f signal) 1 = .ok fanouts := by
  have hcount : t.graph.uses (f signal) ≤ t.graph.references.length := List.count_le_length
  have hle := h.references_le
  rw [← h.sharing_kept.wellFormed.fanouts_get] at hcount
  exact ⟨_, (Fanouts.raise_eq_ok_iff _ _).2 ⟨by omega, rfl⟩⟩

theorem inputs_length (h : Folded f s t) : t.graph.inputs.length = s.graph.inputs.length := by
  rw [h.folds.inputs, List.length_map]

theorem outputs_length (h : Folded f s t) :
    t.graph.outputs.length = s.graph.outputs.length := by
  rw [h.folds.outputs, List.length_map]

/-- Both networks have only primary inputs, or neither has. -/
theorem inputs_first_iff (h : Folded f s t) :
    t.graph.inputs.length = t.graph.primaryInputCount ↔
      s.graph.inputs.length = s.graph.primaryInputCount := by
  rw [h.inputs_length, h.folds.primaryInputCount]

/-- Both networks have only primary outputs, or neither has. -/
theorem outputs_first_iff (h : Folded f s t) :
    t.graph.outputs.length = t.graph.primaryOutputCount ↔
      s.graph.outputs.length = s.graph.primaryOutputCount := by
  rw [h.outputs_length, h.folds.primaryOutputCount]

/-- The registers that lack a next state are as many on both networks. -/
theorem paired_iff (h : Folded f s t) :
    t.graph.resets.length < t.graph.terminalCount .registerOutput ↔
      s.graph.resets.length < s.graph.terminalCount .registerOutput := by
  rw [Graph.terminalCount, Graph.terminalCount, h.folds.resets, h.inputs_length,
    h.folds.primaryInputCount]

theorem primaryOutput (h : Folded f s t) {signal : NodeId} {fanouts fanouts' : Fanouts}
    (hlt : signal < s.graph.size)
    (hfirst : s.graph.outputs.length = s.graph.primaryOutputCount)
    (hraised : s.fanouts.raise signal 1 = .ok fanouts)
    (hraised' : t.fanouts.raise (f signal) 1 = .ok fanouts') :
    Folded f { s with fanouts, graph := s.graph.pushPrimaryOutput signal }
      { t with fanouts := fanouts', graph := t.graph.pushPrimaryOutput (f signal) } where
  plain_kept := h.plain_kept.primaryOutput hlt hfirst hraised
  sharing_kept := h.sharing_kept.primaryOutput (h.folds.lt_size hlt)
    (h.outputs_first_iff.2 hfirst) hraised'
  folds :=
    { h.folds with
      outputs := by simp [h.folds.outputs]
      primaryOutputCount := congrArg (· + 1) h.folds.primaryOutputCount }
  gateCover := h.gateCover
  references_le := by
    rw [Graph.length_references_pushPrimaryOutput, Graph.length_references_pushPrimaryOutput]
    exact Nat.succ_le_succ h.references_le

theorem registerInput (h : Folded f s t) {signal : NodeId} (reset : Reset)
    {fanouts fanouts' : Fanouts} (hlt : signal < s.graph.size)
    (hpaired : s.graph.resets.length < s.graph.terminalCount .registerOutput)
    (hraised : s.fanouts.raise signal 1 = .ok fanouts)
    (hraised' : t.fanouts.raise (f signal) 1 = .ok fanouts') :
    Folded f { s with fanouts, graph := s.graph.pushRegisterInput signal reset }
      { t with fanouts := fanouts', graph := t.graph.pushRegisterInput (f signal) reset } where
  plain_kept := h.plain_kept.registerInput reset hlt hpaired hraised
  sharing_kept := h.sharing_kept.registerInput reset (h.folds.lt_size hlt)
    (h.paired_iff.2 hpaired) hraised'
  folds :=
    { h.folds with
      outputs := by simp [h.folds.outputs]
      resets := by simp [h.folds.resets] }
  gateCover := h.gateCover
  references_le := by
    rw [Graph.length_references_pushRegisterInput, Graph.length_references_pushRegisterInput]
    exact Nat.succ_le_succ h.references_le

theorem addCover (h : Folded f s t) {cover : Cover} (tidy : ∀ cube ∈ cover.cubes, cube.Tidy) :
    Folded f { s with graph := s.graph.addCover cover }
      { t with graph := t.graph.addCover cover } where
  plain_kept := h.plain_kept.addCover tidy
  sharing_kept := h.sharing_kept.addCover tidy
  folds := { h.folds with covers := by rw [Graph.addCover, h.folds.covers]; rfl }
  gateCover := h.gateCover
  references_le := h.references_le

theorem registerCover (h : Folded f s t) {kind : Gate} {c : CoverId}
    (hcover : s.graph.covers[c]? = some kind.cover) :
    Folded f
      { s with gateCover := fun other => if other = kind then some c else s.gateCover other }
      { t with gateCover := fun other => if other = kind then some c else t.gateCover other } where
  plain_kept := h.plain_kept.registerCover hcover
  sharing_kept := h.sharing_kept.registerCover (h.folds.covers ▸ hcover)
  folds := { h.folds with }
  gateCover := by rw [h.gateCover]
  references_le := h.references_le

end Folded
end Network
end LogicNet
