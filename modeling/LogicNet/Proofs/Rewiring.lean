import LogicNet.Proofs.Consistency

/-!
What a substitution does to the structure of a network. Wherever the replaced node was a child or an
output the replacement is one, dead gates included, and everything else stays as it is. The uses that
move are counted parent by parent and output by output; since the counter of a node is the number of
its uses, they are as many as the counter of the replaced node said.
-/

namespace LogicNet
namespace Network

/-- The second network is the first one with every use of `old` made a use of `new`. -/
structure Rewired (net : Network) (old new : NodeId) (net' : Network) : Prop where
  size : net'.graph.size = net.graph.size
  node : ∀ (n : NodeId) (children : List NodeId) (cover : CoverId),
    net.graph.nodes[n]? = some ⟨children, cover⟩ →
    net'.graph.nodes[n]? = some ⟨children.map (Graph.rename old new), cover⟩
  primaryOutputs : net'.graph.primaryOutputs = net.graph.primaryOutputs.map (Graph.rename old new)
  registerInputs : net'.graph.registerInputs = net.graph.registerInputs.map (Graph.rename old new)
  resets : net'.graph.resets = net.graph.resets
  /-- Nothing uses the replaced node any more, so no output depends on it. -/
  notMem_children : ∀ n, old ∉ net'.graph.childrenOf n
  notMem_outputs : old ∉ net'.graph.outputs
  unreached : ∀ output ∈ net'.graph.outputs, ¬ Reaches net'.graph.childrenOf output old
  children_old : net'.graph.children old = net.graph.children old
  /-- The replacement takes over what the counter of the replaced node held. -/
  fanout_old : net'.fanout old = .ok 0
  fanout_new : ∃ held moved, net.fanout new = .ok held ∧ net.fanout old = .ok moved ∧
    net'.fanout new = .ok (held + moved)
  fanout_other : ∀ n, n ≠ old → n ≠ new → net'.fanout n = net.fanout n
  /-- The network has changed in the parts above and in no other. -/
  rest : net' = { net with
    graph.nodes := net'.graph.nodes
    graph.outputs := net'.graph.outputs
    fanouts := net'.fanouts }

theorem fanout_of_lt {net : Network} {n : NodeId} (hn : n < net.graph.size) :
    net.fanout n = .ok (net.fanouts.get n) := by
  rw [fanout, (check_eq_ok_iff _ _).2 hn]
  rfl

/-- The counter of a node depends on the number of nodes and on its entry. -/
theorem fanout_congr {net net' : Network} {n : NodeId} (hsize : net'.graph.size = net.graph.size)
    (hget : net'.fanouts.get n = net.fanouts.get n) : net'.fanout n = net.fanout n := by
  simp only [fanout, Graph.check, hsize, hget]

end Network

open Network

namespace Graph

variable {g : Graph} {old new : NodeId}

theorem notMem_map_rename (hne : new ≠ old) (ns : List NodeId) : old ∉ ns.map (rename old new) := by
  rw [← List.count_eq_zero, count_map_rename hne, if_pos rfl]

/-- Without cycles no node is its own child, so a redirection of its uses leaves its children alone. -/
theorem nodes_redirect_self (hacyclic : Acyclic g.childrenOf) :
    (g.redirect old new).nodes[old]? = g.nodes[old]? := by
  rw [nodes_redirect]
  cases hnode : g.nodes[old]? with
  | none => rfl
  | some node =>
      have hself : old ∉ node.children := fun hmem =>
        hacyclic old (.single (by rwa [Descends, childrenOf_eq hnode]))
      rw [Option.map_some, map_rename_of_notMem hself]

/-- What is neither an output nor a child is not reached from the outputs. -/
theorem unreached_of_unused {n : NodeId} (hchildren : ∀ m, n ∉ g.childrenOf m)
    (houtputs : n ∉ g.outputs) : ∀ output ∈ g.outputs, ¬ Reaches g.childrenOf output n := by
  intro output houtput hreach
  cases hreach with
  | refl => exact houtputs houtput
  | tail _ hstep => exact hchildren _ hstep

end Graph

/-- A redirection that passed its checks rewires a well-formed network. -/
theorem Network.WellFormed.rewired {net net' : Network} (h : net.WellFormed) {old new : NodeId}
    (hredirected : Redirection net old new net') : Rewired net old new net' := by
  obtain ⟨hold, hnew, hne, _⟩ :=
    (checkSubstitution_eq_ok_iff h.graph.bounded old new).1 hredirected.checked
  have hne' : new ≠ old := Ne.symm hne
  have hwell' := h.of_redirection hredirected
  obtain ⟨fanouts, _, rfl⟩ := hredirected.result
  have hget : ∀ n, Fanouts.get fanouts n = if n = old then 0
      else if n = new then net.fanouts.get new + net.fanouts.get old else net.fanouts.get n := by
    intro n
    rw [h.fanouts_get, h.fanouts_get, h.fanouts_get, ← Graph.uses_redirect hne']
    exact hwell'.fanouts_get n
  have hsize : (net.graph.redirect old new).size = net.graph.size := Graph.redirect_size _ _ _
  have hchildren : ∀ n, old ∉ (net.graph.redirect old new).childrenOf n := fun n => by
    rw [Graph.childrenOf_redirect]
    exact Graph.notMem_map_rename hne' _
  have houtputs : old ∉ (net.graph.redirect old new).outputs := by
    rw [Graph.redirect_outputs]
    exact Graph.notMem_map_rename hne' _
  exact
    { size := hsize
      node := fun n children cover hn => by rw [Graph.nodes_redirect, hn]; rfl
      primaryOutputs := List.map_take.symm
      registerInputs := List.map_drop.symm
      resets := rfl
      notMem_children := hchildren
      notMem_outputs := houtputs
      unreached := Graph.unreached_of_unused hchildren houtputs
      children_old := by
        simp only [Graph.children, Graph.node, hsize, Graph.nodes_redirect_self h.graph.acyclic]
      fanout_old := by rw [fanout_of_lt (hsize.symm ▸ hold), hget, if_pos rfl]
      fanout_new := ⟨_, _, fanout_of_lt hnew, fanout_of_lt hold, by
        rw [fanout_of_lt (hsize.symm ▸ hnew), hget, if_neg hne', if_pos rfl]⟩
      fanout_other := fun n hold hnew => fanout_congr hsize (by rw [hget, if_neg hold, if_neg hnew])
      rest := rfl }

/-- Every substitution that is met rewires the network. -/
theorem Reachable.substitute_rewires {net : Network} (h : Reachable net) {old new : NodeId}
    (hmet : (substitute old new net).answer = .ok ()) :
    Rewired net old new (substitute old new net).state :=
  h.wellFormed.rewired (redirection_of_met hmet)

/-- A script with a node that a gate uses twice, that a gate without uses uses, and that drives two
outputs, one of them a register's. -/
def fanning : Action Network Nat := do
  let a ← addPrimaryInput
  let state ← addRegisterOutput
  let both ← gate .and [a, state]
  let twice ← gate .maj3 [both, a, both]
  let _ ← gate .not [both]
  let either ← gate .or [a, state]
  let _ ← addPrimaryOutput both
  let _ ← addPrimaryOutput twice
  let _ ← addPrimaryOutput either
  addRegisterInput both .one

theorem fanning_script : Script fanning :=
  .next (.call .addPrimaryInput) fun a => .next (.call .addRegisterOutput) fun state =>
    .next (.call (.gate .and [a, state])) fun both =>
    .next (.call (.gate .maj3 [both, a, both])) fun twice =>
    .next (.call (.gate .not [both])) fun _ => .next (.call (.gate .or [a, state])) fun either =>
    .next (.call (.addPrimaryOutput both)) fun _ => .next (.call (.addPrimaryOutput twice)) fun _ =>
    .next (.call (.addPrimaryOutput either)) fun _ => .call (.addRegisterInput both .one)

/-- The network that the script makes. -/
def fanned : Network := (fanning (Network.new .sharing)).state

theorem fanned_reachable : Reachable fanned := .run (.new .sharing) fanning_script

/-- The five uses of the node go to the one that has one use already. -/
theorem fanned_rewires : Reachable fanned ∧ (substitute 4 7 fanned).answer = .ok () ∧
    fanned.fanout 4 = .ok 5 ∧ (substitute 4 7 fanned).state.fanout 4 = .ok 0 ∧
    fanned.fanout 7 = .ok 1 ∧ (substitute 4 7 fanned).state.fanout 7 = .ok 6 ∧
    (substitute 4 7 fanned).state.graph.nodes[5]? = some ⟨[7, 2, 7], 5⟩ ∧
    (substitute 4 7 fanned).state.graph.primaryOutputs = [7, 5, 7] ∧
    (substitute 4 7 fanned).state.graph.registerInputs = [7] := by
  have hmet : (substitute 4 7 fanned).answer = .ok () := by decide +kernel
  have hrewired := Reachable.substitute_rewires fanned_reachable hmet
  have hmoved : fanned.fanout 4 = .ok 5 := by decide +kernel
  have hheld : fanned.fanout 7 = .ok 1 := by decide +kernel
  refine ⟨fanned_reachable, hmet, hmoved, hrewired.fanout_old, hheld, ?_,
    hrewired.node 5 [4, 2, 4] 5 (by decide +kernel), hrewired.primaryOutputs.trans (by decide +kernel),
    hrewired.registerInputs.trans (by decide +kernel)⟩
  obtain ⟨held, moved, hheld', hmoved', hsum⟩ := hrewired.fanout_new
  cases hheld.symm.trans hheld'
  cases hmoved.symm.trans hmoved'
  exact hsum

end LogicNet
