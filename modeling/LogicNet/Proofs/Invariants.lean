import LogicNet.Proofs.Uses

/-!
The invariants of a network. Every elementary change keeps a well-formed network well formed, and a
well-formed network passes its own check.
-/

namespace LogicNet
namespace Network

/-- What is true of every network that calls can lead to. -/
structure WellFormed (net : Network) : Prop where
  graph : net.graph.WellFormed
  fanouts_size : net.fanouts.size = net.graph.size
  fanouts_get : ∀ n, net.fanouts.get n = net.graph.uses n
  values_size : net.scratch.values.size = net.graph.size
  marks_size : net.scratch.marks.size = net.graph.size
  gateCover : ∀ kind c, net.gateCover kind = some c → net.graph.covers[c]? = some kind.cover

/-- A substitution passes its checks exactly if both names belong to nodes, they differ, and the
replacement does not reach the replaced node. -/
theorem checkSubstitution_eq_ok_iff {g : Graph} (hbound : Bounded g.childrenOf g.size)
    (old new : NodeId) : checkSubstitution g old new = .ok () ↔
      old < g.size ∧ new < g.size ∧ old ≠ new ∧ ¬ Reaches g.childrenOf new old := by
  unfold checkSubstitution Graph.check
  by_cases hold : old < g.size
  swap
  · simp [hold, Bind.bind, Except.bind]
  by_cases hnew : new < g.size
  swap
  · simp [hold, hnew, Bind.bind, Except.bind]
  by_cases hne : old = new
  · simp [hnew, hne, Bind.bind, Except.bind, throw, throwThe, MonadExceptOf.throw]
  obtain ⟨found, hrun, hfound⟩ := Graph.dependsOn_eq_ok hbound hnew old
  cases found with
  | true =>
      have hreach := hfound.1 rfl
      simp [hold, hnew, hne, hrun, hreach, Bind.bind, Except.bind, throw, throwThe,
        MonadExceptOf.throw]
  | false =>
      have hreach : ¬ Reaches g.childrenOf new old := fun h => by
        have := hfound.2 h
        cases this
      simp [hold, hnew, hne, hrun, hreach, Bind.bind, Except.bind, pure, Except.pure]

theorem checkRegisters_eq_ok {g : Graph} (h : g.WellFormed) : checkRegisters g = .ok () := by
  have hmatched := h.matched.registerInputs_length
  have hpaired := h.paired
  rw [Outputs.registerInputs_length] at hmatched
  rw [Inputs.registerOutputs_length, ← hmatched] at hpaired
  simp only [checkRegisters, Graph.terminalCount, hmatched, ne_eq, not_true_eq_false, if_false,
    if_neg (Nat.not_lt.2 (hmatched ▸ hpaired))]
  rfl

namespace WellFormed

variable {net net' : Network}

theorem new (options : Options) : (Network.new options).WellFormed where
  graph := .constants
  fanouts_size := rfl
  fanouts_get n := by
    match n with
    | 0 => rfl
    | 1 => rfl
    | n + 2 => rfl
  values_size := rfl
  marks_size := rfl
  gateCover kind c h := by cases h

theorem covers_of_addCover {g : Graph} {c : CoverId} {cover added : Cover}
    (h : g.covers[c]? = some cover) : (g.addCover added).covers[c]? = some cover := by
  rw [Graph.covers_addCover, if_neg, h]
  exact Nat.ne_of_lt (Array.getElem?_eq_some_iff.1 h).1

/-- A use more, by an output. -/
theorem of_output (h : net.WellFormed) (signal : NodeId) {fanouts : Fanouts}
    (signal_lt : signal < net.graph.size) (raised : net.fanouts.raise signal 1 = .ok fanouts)
    {g' : Graph} (hnodes : g'.nodes = net.graph.nodes) (hcovers : g'.covers = net.graph.covers)
    (hinputs : g'.toInputs = net.graph.toInputs)
    (houtputs : g'.outputs = net.graph.outputs ++ [signal]) (hmatched : g'.toOutputs.Matched)
    (hpaired : g'.resets.length ≤ g'.registerOutputs.length) :
    ({ net with fanouts, graph := g' } : Network).WellFormed := by
  have hsize : g'.size = net.graph.size := by rw [Graph.size, hnodes, Graph.size]
  obtain ⟨_, rfl⟩ := (Fanouts.raise_eq_ok_iff _ _).1 raised
  refine
    { graph := ?_
      fanouts_size := by rw [Array.size_setIfInBounds, hsize]; exact h.fanouts_size
      fanouts_get := ?_
      values_size := by rw [hsize]; exact h.values_size
      marks_size := by rw [hsize]; exact h.marks_size
      gateCover := by rw [hcovers]; exact h.gateCover }
  · refine h.graph.of_outputs hnodes hcovers hinputs (fun n hn => ?_) hmatched hpaired
    rcases List.mem_append.1 (houtputs ▸ hn) with hn | hn
    · exact h.graph.output_lt n hn
    · rw [List.mem_singleton.1 hn]
      exact signal_lt
  · intro n
    rw [Fanouts.get_set _ _ _ (h.fanouts_size ▸ signal_lt),
      Graph.uses_of_outputs hnodes signal n (.of_eq houtputs), ← h.fanouts_get n]
    by_cases heq : n = signal
    · rw [if_pos heq, if_pos heq, heq]
    · rw [if_neg heq, if_neg heq, Nat.add_zero]

/-- No input has the name of the next node. -/
theorem size_notMem_inputs (h : net.WellFormed) : net.graph.size ∉ net.graph.inputs := fun hmem =>
  Nat.lt_irrefl _ (h.graph.input_lt _ hmem).2

/-- An input more. -/
theorem of_input (h : net.WellFormed) {g' : Graph}
    (hnodes : g'.nodes = net.graph.nodes.push net.graph.inputNode)
    (hcovers : g'.covers = net.graph.covers.push Cover.identity)
    (hinputs : g'.inputs = net.graph.inputs ++ [net.graph.size])
    (houtputs : g'.toOutputs = net.graph.toOutputs) (hindexed : g'.toInputs.Indexed)
    (hpaired : g'.resets.length ≤ g'.registerOutputs.length) :
    ({ net.addInputNode with graph := g' } : Network).WellFormed := by
  have hidentity := h.graph.addCover Cover.identity (by decide)
  have hpushed : Graph.Pushed (net.graph.addCover Cover.identity) net.graph.inputNode g' :=
    { nodes := hnodes
      covers := hcovers
      cover_lt := by
        rw [Graph.addCover, Array.size_push]
        exact Nat.lt_succ_self _
      indexed := hindexed
      child_lt := fun child hchild => by cases hchild
      outputs := houtputs
      paired := hpaired
      kind := Or.inl ⟨hinputs, rfl⟩ }
  have hsize : g'.size = net.graph.size + 1 := hpushed.size
  have hreferences : g'.references = net.graph.references :=
    Graph.references_of_input hnodes (by rw [houtputs])
  exact
    { graph := hidentity.push hpushed
      fanouts_size := by simp [hsize, h.fanouts_size]
      fanouts_get := fun n => by
        rw [addInputNode_fanouts, Fanouts.get_push_zero, h.fanouts_get n]
        exact congrArg (List.count n) hreferences.symm
      values_size := by simp [Scratch.grow, hsize, h.values_size]
      marks_size := by simp [Scratch.grow, hsize, h.marks_size]
      gateCover := fun kind c hc => by
        rw [addInputNode_gateCover] at hc
        rw [hcovers]
        exact covers_of_addCover (h.gateCover kind c hc) }

theorem of_gate (h : net.WellFormed) {request : Request} {fanouts : Fanouts}
    (accepted : net.graph.Accepts request)
    (raised : Fanouts.raiseAll (net.fanouts.push 0) request.children = .ok fanouts) :
    ((net.addNode request fanouts).record request net.graph.size).WellFormed := by
  obtain ⟨hsize, hget⟩ := Fanouts.raiseAll_get raised fun n hn => by
    rw [Array.size_push, h.fanouts_size]
    exact Nat.lt_succ_of_lt (accepted.child_lt n hn)
  refine
    { graph := by rw [record_graph]; exact h.graph.addNode accepted
      fanouts_size := by simp [addNode, hsize, h.fanouts_size]
      fanouts_get := fun n => by
        simp only [record_graph, record_fanouts, addNode]
        rw [hget, Fanouts.get_push_zero, Graph.uses_addNode, h.fanouts_get n]
      values_size := by simp [addNode, Scratch.grow, h.values_size]
      marks_size := by simp [addNode, Scratch.grow, h.marks_size]
      gateCover := by rw [record_gateCover, record_graph]; exact h.gateCover }

theorem of_redirection (h : net.WellFormed) {old new : NodeId}
    (hredirected : Redirection net old new net') : net'.WellFormed := by
  obtain ⟨hold, hnew, hne, hreach⟩ :=
    (checkSubstitution_eq_ok_iff h.graph.bounded old new).1 hredirected.checked
  obtain ⟨fanouts, hmove, rfl⟩ := hredirected.result
  obtain ⟨_, rfl⟩ := (moveUses_eq_ok_iff (h.fanouts_size ▸ hnew)).1 hmove
  exact
    { graph := h.graph.redirect hnew (Ne.symm hne) hreach
      fanouts_size := by
        rw [Array.size_setIfInBounds, Array.size_setIfInBounds, Graph.redirect_size]
        exact h.fanouts_size
      fanouts_get := fun n => by
        rw [Fanouts.get_move (h.fanouts_size ▸ hold) (h.fanouts_size ▸ hnew),
          Graph.uses_redirect (Ne.symm hne), h.fanouts_get, h.fanouts_get]
      values_size := by rw [Graph.redirect_size]; exact h.values_size
      marks_size := by rw [Graph.redirect_size]; exact h.marks_size
      gateCover := h.gateCover }

/-- A network that grows stays well formed. -/
theorem of_growth (h : net.WellFormed) (hgrowth : Growth net net') : net'.WellFormed := by
  cases hgrowth with
  | primaryInput first =>
      refine h.of_input rfl rfl rfl rfl (h.graph.indexed.pushPrimary h.size_notMem_inputs) ?_
      have hnone := h.graph.paired
      rw [Inputs.registerOutputs_of_first first] at hnone
      exact hnone.trans (Nat.zero_le _)
  | registerOutput =>
      have hpaired : net.graph.resets.length ≤ net.graph.pushInput.registerOutputs.length := by
        rw [Graph.pushInput_toInputs, Inputs.registerOutputs_push h.graph.indexed.primary_le,
          List.length_append]
        exact Nat.le_succ_of_le h.graph.paired
      have hinput := h.of_input net.graph.pushInput_nodes rfl rfl rfl
        (h.graph.indexed.push h.size_notMem_inputs) hpaired
      rwa [← addInputNode_graph] at hinput
  | primaryOutput signal fanouts signal_lt first raised =>
      exact h.of_output signal signal_lt raised rfl rfl rfl rfl h.graph.matched.pushPrimary
        h.graph.paired
  | registerInput signal reset fanouts signal_lt paired raised =>
      refine h.of_output signal signal_lt raised rfl rfl rfl rfl h.graph.matched.pushRegister ?_
      rw [Graph.pushRegisterInput, Outputs.pushRegister, List.length_append,
        Inputs.registerOutputs_length]
      exact paired
  | cover cover tidy =>
      exact { h with
        graph := h.graph.addCover cover tidy
        gateCover := fun kind c hc => covers_of_addCover (h.gateCover kind c hc) }
  | gate request fanouts accepted _ raised => exact h.of_gate accepted raised
  | scratch scratch values_size marks_size =>
      exact { h with
        values_size := values_size.trans h.values_size
        marks_size := marks_size.trans h.marks_size }

theorem of_extension (h : net.WellFormed) (hextension : Extension net net') : net'.WellFormed := by
  cases hextension with
  | growth hgrowth => exact h.of_growth hgrowth
  | gateCover assigned _ right =>
      exact { h with
        gateCover := fun kind c hc => (right kind c hc).elim (h.gateCover kind c) id }
  | listeners listeners => exact { h with }
  | options options => exact { h with }

theorem of_change (h : net.WellFormed) (hchange : Change net net') : net'.WellFormed := by
  cases hchange with
  | extension hextension => exact h.of_extension hextension
  | redirection old new hredirected => exact h.of_redirection hredirected

theorem of_changes (h : net.WellFormed) (hchanges : Relation.ReflTransGen Change net net') :
    net'.WellFormed := by
  induction hchanges with
  | refl => exact h
  | tail _ hchange ih => exact ih.of_change hchange

theorem of_extensions (h : net.WellFormed)
    (hextensions : Relation.ReflTransGen Extension net net') : net'.WellFormed :=
  h.of_changes (Relation.ReflTransGen.mono (fun _ _ => Change.extension) _ _ hextensions)

/-- A well-formed network passes its own check. -/
theorem checkInvariants_eq_ok (h : net.WellFormed) : net.checkInvariants = .ok () := by
  have hnodes : net.graph.nodes.toList.zipIdx.forM
      (fun entry => checkNode net.graph entry.2 entry.1) = .ok () := by
    rw [forM_except_eq_ok_iff]
    rintro ⟨node, n⟩ hentry
    have hget : net.graph.nodes[n]? = some node := by
      simpa using List.mem_zipIdx_iff_getElem?.1 hentry
    have hcover := h.graph.cover_lt n node hget
    have hchildren : node.children.forM (fun child =>
        if child < net.graph.size then Except.ok ()
        else .error (Fault.danglingChild n child net.graph.size)) = .ok () := by
      rw [forM_except_eq_ok_iff]
      intro child hchild
      exact if_pos (h.graph.bounded n child (by rwa [Graph.childrenOf_eq hget]))
    simp only [checkNode, if_neg (Nat.not_le.2 hcover)]
    exact hchildren
  have houtputs : net.graph.outputs.forM (fun n =>
      if n < net.graph.size then Except.ok ()
      else .error (Fault.danglingOutput n net.graph.size)) = .ok () := by
    rw [forM_except_eq_ok_iff]
    exact fun n hn => if_pos (h.graph.output_lt n hn)
  have hfanouts : checkFanouts net.graph.useCounts net.fanouts net.graph.nodeIds = .ok () := by
    rw [checkFanouts, forM_except_eq_ok_iff]
    intro n hn
    rw [Graph.useCounts_getD (List.mem_range.1 hn), h.fanouts_get, if_pos rfl]
  unfold checkInvariants
  simp only [hnodes, houtputs, checkRegisters_eq_ok h.graph, hfanouts, Bind.bind, Except.bind]

/-- On a well-formed network a substitution that passes is met. -/
theorem substitute_cases (h : net.WellFormed) (old new : NodeId) :
    ((substitute old new net).state = net ∧ ∃ fault,
        (substitute old new net).answer = .error fault ∧
          (checkSubstitution net.graph old new = .error fault ∨
            net.moveUses old new = .error fault)) ∨
      Redirection net old new (substitute old new net).state ∧
        (substitute old new net).answer = .ok () := by
  refine (substitute_run old new net).imp_right fun ⟨hredirected, hanswer⟩ => ⟨hredirected, ?_⟩
  rw [hanswer, (h.of_redirection hredirected).checkInvariants_eq_ok]
  split <;> rfl

end WellFormed
end Network
end LogicNet
