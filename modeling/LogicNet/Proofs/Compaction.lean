import LogicNet.Proofs.Consistency
import LogicNet.Proofs.Simulation
import LogicNet.Proofs.Transfer

/-!
Compaction keeps what the network computes. The walk from the outputs lists the gates that are
copied in an order in which children come first, the outputs of the copy stand for those of the
source, and equal values of the outputs are equal answers of evaluation. With fewer than 2^32 uses
no counter of the copy gets full, so the copy is never refused.
-/

namespace LogicNet
namespace Network

/-- The given outputs of the source are those of the copy, which has no more uses than they need. -/
structure Wired (g : Graph) (nodes : NodeMap NodeId) (primary : List NodeId)
    (next : List NextState) (copy : Network) : Prop where
  agrees : Agrees g nodes copy
  primaryInputs : Images nodes g.primaryInputs copy.graph.primaryInputs
  registerOutputs : Images nodes g.registerOutputs copy.graph.registerOutputs
  primaryOutputs : Images nodes primary copy.graph.primaryOutputs
  registerInputs : Images nodes (next.map (·.signal)) copy.graph.registerInputs
  resets : copy.graph.resets = next.map (·.reset)
  uses_le : copy.graph.references.length + g.outputs.length ≤
    g.references.length + primary.length + next.length

namespace Wired

variable {g : Graph} {nodes : NodeMap NodeId} {primary : List NodeId} {next : List NextState}
  {copy : Network}

theorem inputs (h : Wired g nodes primary next copy) :
    Images nodes g.inputs copy.graph.inputs := by
  have himages := h.primaryInputs.append h.registerOutputs
  rwa [Inputs.primaryInputs_append, Inputs.primaryInputs_append] at himages

theorem outputs (h : Wired g nodes g.primaryOutputs g.nextStates copy) (hmatched : g.Matched) :
    Images nodes g.outputs copy.graph.outputs := by
  have himages := h.primaryOutputs.append h.registerInputs
  rwa [hmatched.signals, Outputs.primaryOutputs_append, Outputs.primaryOutputs_append] at himages

theorem resets_length (h : Wired g nodes primary next copy) :
    copy.graph.resets.length = next.length := by
  rw [h.resets, List.length_map]

/-- A use more is counted while the source has outputs left. -/
theorem raise_isOk (h : Wired g nodes primary next copy) (hroom : g.references.length < UInt32.size)
    (hleft : primary.length + next.length < g.outputs.length) (n : NodeId) :
    ∃ fanouts, copy.fanouts.raise n 1 = .ok fanouts := by
  refine ⟨_, (Fanouts.raise_eq_ok_iff n 1).2 ⟨?_, rfl⟩⟩
  have huses : copy.graph.uses n ≤ copy.graph.references.length := List.count_le_length
  have hle := h.uses_le
  rw [h.agrees.wellFormed.fanouts_get]
  omega

theorem primaryOutput (h : Wired g nodes primary [] copy)
    (hroom : g.references.length < UInt32.size) {signal n : NodeId} {rest : List NodeId}
    (hsplit : g.primaryOutputs = primary ++ signal :: rest) (hn : nodes[signal]? = some n) :
    (addPrimaryOutput n).Yields copy fun _ => Wired g nodes (primary ++ [signal]) [] := by
  have hlt := h.agrees.lt_size signal n hn
  have hmatched := h.agrees.wellFormed.graph.matched
  have hfirst := hmatched.first_iff.1 (List.length_eq_zero_iff.1 h.resets_length)
  obtain ⟨fanouts, hraised⟩ := h.raise_isOk hroom
    (by simp [← g.primaryOutputs_append, hsplit]) n
  have hrun := addPrimaryOutput_run hlt hfirst hraised
  refine ⟨_, by rw [hrun], ?_⟩
  rw [hrun]
  exact
    { agrees := h.agrees.extend
        (.single (.growth (.primaryOutput n fanouts hlt hfirst hraised))) h.agrees.scratch
      primaryInputs := h.primaryInputs
      registerOutputs := h.registerOutputs
      primaryOutputs := by
        rw [Graph.pushPrimaryOutput_toOutputs, Outputs.primaryOutputs_pushPrimary hfirst]
        exact h.primaryOutputs.snoc hn
      registerInputs := by
        rw [Graph.pushPrimaryOutput_toOutputs, Outputs.registerInputs_pushPrimary hfirst]
        exact .nil _
      resets := h.resets
      uses_le := by
        have hle := h.uses_le
        rw [Graph.length_references_pushPrimaryOutput, List.length_append,
          List.length_singleton]
        omega }

theorem registerInput (h : Wired g nodes g.primaryOutputs next copy) (hg : g.WellFormed)
    (hroom : g.references.length < UInt32.size) {state : NextState} {n : NodeId}
    {rest : List NextState} (hsplit : g.nextStates = next ++ state :: rest)
    (hn : nodes[state.signal]? = some n) :
    (addRegisterInput n state.reset).Yields copy fun _ =>
      Wired g nodes g.primaryOutputs (next ++ [state]) := by
  have hlt := h.agrees.lt_size state.signal n hn
  have hmatched := h.agrees.wellFormed.graph.matched
  have hpaired : copy.graph.resets.length < copy.graph.terminalCount .registerOutput := by
    have hle := hg.paired
    rw [← hg.matched.nextStates_length, hsplit, List.length_append, List.length_cons] at hle
    rw [Graph.terminalCount, ← Inputs.registerOutputs_length, h.resets_length,
      h.registerOutputs.length]
    omega
  obtain ⟨fanouts, hraised⟩ := h.raise_isOk hroom
    (by simp [← g.primaryOutputs_append, ← hg.matched.signals, hsplit]) n
  have hrun := addRegisterInput_run state.reset hlt hpaired hraised
  refine ⟨_, by rw [hrun], ?_⟩
  rw [hrun]
  exact
    { agrees := h.agrees.extend
        (.single (.growth (.registerInput n state.reset fanouts hlt hpaired hraised)))
        h.agrees.scratch
      primaryInputs := h.primaryInputs
      registerOutputs := h.registerOutputs
      primaryOutputs := by
        rw [Graph.pushRegisterInput_toOutputs, hmatched.primaryOutputs_pushRegister]
        exact h.primaryOutputs
      registerInputs := by
        rw [Graph.pushRegisterInput_toOutputs, hmatched.registerInputs_pushRegister,
          List.map_append]
        exact h.registerInputs.snoc hn
      resets := by
        rw [Graph.pushRegisterInput_toOutputs, Outputs.pushRegister_resets, h.resets,
          List.map_append]
        rfl
      uses_le := by
        have hle := h.uses_le
        rw [Graph.length_references_pushRegisterInput, List.length_append,
          List.length_singleton]
        omega }

/-- With the gates copied and the covers of their kinds known, the outputs are still missing. -/
theorem start {copying : Copying} {ns : List NodeId} {source : Gate → Option CoverId}
    (h : Gated g ns copying copy) (hnodup : ns.Nodup) (hlt : ∀ n ∈ ns, n < g.size)
    (hsource : ∀ kind c, source kind = some c → g.covers[c]? = some kind.cover) :
    Wired g copying.nodes [] [] { copy with gateCover := copying.gateCover source } := by
  have hmatched := h.agrees.wellFormed.graph.matched
  have hparts := copy.graph.primaryOutputs_append
  rw [h.outputs, List.append_eq_nil_iff] at hparts
  obtain ⟨hprimary, hregister⟩ := hparts
  have hright := (h.covered.gateCover_right hsource).extension
  exact
    { agrees := h.agrees.extend (.single hright) h.agrees.scratch
      primaryInputs := h.primaryInputs
      registerOutputs := h.registerOutputs
      primaryOutputs := by
        rw [hprimary]
        exact .nil _
      registerInputs := by
        rw [hregister]
        exact .nil _
      resets := by
        rw [List.map_nil, ← List.length_eq_zero_iff, ← hmatched.registerInputs_length, hregister,
          List.length_nil]
      uses_le := by
        have hle := Graph.length_flatMap_childrenOf_le hnodup hlt
        exact Nat.le_trans (Nat.add_le_add_right h.uses_le _) hle }

end Wired

theorem entry_eq_ok {nodes : NodeMap NodeId} {o n : NodeId} (h : nodes[o]? = some n) :
    nodes.entry o = .ok n := by
  rw [NodeMap.entry, h]

/-- With the inputs copied, the gates follow, then the covers of their kinds, then the outputs. -/
theorem copyRest_yields {net copy : Network} (hwell : net.WellFormed)
    (hroom : net.graph.references.length < UInt32.size) {nodes : NodeMap NodeId}
    (h : Imported net.graph net.graph.primaryInputs net.graph.registerOutputs nodes copy)
    {order : List NodeId} (hordered : Postordered net.graph.childrenOf order)
    (hlt : ∀ n ∈ order, n < net.graph.size) (hlive : ∀ n ∈ net.graph.outputs, n ∈ order) :
    (copyRest net order nodes).Yields copy fun nodes' =>
      Wired net.graph nodes' net.graph.primaryOutputs net.graph.nextStates := by
  have hg := hwell.graph
  unfold copyRest
  refine (gates_yields hg hordered hlt hroom h).bind fun copying middle hgated =>
    .modify_bind ?_
  have hplaced : ∀ n ∈ net.graph.outputs, ∃ image, copying.nodes[n]? = some image := by
    intro n hn
    refine hgated.placed n (hlt n (hlive n hn)) ?_
    cases hgate : net.graph.isGate n with
    | false => exact Or.inl rfl
    | true => exact Or.inr (List.mem_filter.2 ⟨hlive n hn, hgate⟩)
  have hstart := Wired.start hgated (hordered.nodup.filter net.graph.isGate)
    (fun n hn => hlt n (List.mem_filter.1 hn).1) hwell.gateCover
  refine (Action.Yields.forM (fun done => Wired net.graph copying.nodes done []) ?_ hstart).bind
    fun _ middle hprimary => ?_
  · intro done signal rest copy hsplit h
    obtain ⟨n, hn⟩ := hplaced signal (by simp [← net.graph.primaryOutputs_append, hsplit])
    exact .lift_bind (entry_eq_ok hn) ((h.primaryOutput hroom hsplit hn).bind
      fun _ _ h' => .pure h')
  refine (Action.Yields.forM (Wired net.graph copying.nodes net.graph.primaryOutputs) ?_
    hprimary).bind fun _ _ h => .pure h
  intro done state rest copy hsplit h
  obtain ⟨n, hn⟩ := hplaced state.signal
    (by simp [← net.graph.primaryOutputs_append, ← hg.matched.signals, hsplit])
  exact .lift_bind (entry_eq_ok hn) ((h.registerInput hg hroom hsplit hn).bind
    fun _ _ h' => .pure h')

/-- The walk from the outputs, on the scratch space of a network. -/
theorem postorderOfOutputs_yields {net : Network} (hwell : net.WellFormed)
    (hfresh : net.scratch.Fresh) (hroom : net.scratch.traversal.toNat + 1 < UInt32.size) :
    (withGraph (·.postorderOfOutputs)).Yields net fun order net' =>
      Postordered net.graph.childrenOf order ∧ (∀ n ∈ order, n < net.graph.size) ∧
      (∀ n ∈ net.graph.outputs, n ∈ order) ∧
      ∃ marks, net' = { net with
          scratch := { net.scratch with traversal := net.scratch.traversal + 1, marks } } ∧
        marks.size = net.graph.size ∧ net'.scratch.Fresh := by
  obtain ⟨order, marks, hanswer, hstate, hsize, hmarks, hordered, hmem⟩ :=
    Graph.postorder_run hwell.graph hwell.graph.output_lt hwell.marks_size hfresh hroom
  refine .get_bind ⟨order, hanswer, hordered, fun n hn => ?_, fun n hn => ?_, marks, ?_, hsize, ?_⟩
  · obtain ⟨start, hstart, hreach⟩ := (hmem n).1 hn
    exact hwell.graph.lt_size_of_reaches (hwell.graph.output_lt start hstart) hreach
  · exact (hmem n).2 ⟨n, hn, .refl⟩
  · exact congrArg (fun scratch => { net with scratch }) hstate
  · have hmarked := hfresh.marked hroom hmarks
    rwa [← hstate] at hmarked

/-- Compaction is not refused. It answers a copy with the outputs of the network, and leaves the
network as it was but for the marks and the number of the traversal. -/
theorem compact_yields {net : Network} (hwell : net.WellFormed)
    (huses : net.graph.references.length < UInt32.size) (hfresh : net.scratch.Fresh)
    (hroom : net.scratch.traversal.toNat + 1 < UInt32.size) :
    compact.Yields net fun result net' =>
      Wired net.graph result.2 net.graph.primaryOutputs net.graph.nextStates result.1 ∧
      ∃ marks, net' = { net with
          scratch := { net.scratch with traversal := net.scratch.traversal + 1, marks } } ∧
        marks.size = net.graph.size ∧ net'.scratch.Fresh := by
  unfold compact
  refine .get_bind (.elsewhere_bind (copyInputs_yields hwell.graph net.options)
    fun nodes inputs himported => ?_)
  refine (postorderOfOutputs_yields hwell hfresh hroom).bind
    fun order net' ⟨hordered, hlt, hlive, hleft⟩ => ?_
  refine .elsewhere_bind (copyRest_yields hwell huses himported hordered hlt hlive)
    fun nodes copy hwired => ?_
  exact .note_bind (.lift_bind hwired.agrees.wellFormed.checkInvariants_eq_ok
    (.pure ⟨hwired, hleft⟩))

end Network

open Network

/-- Compaction preserves what a network means. It is never refused, the terminals of the copy stand
for those of the network one by one, nodes and their images have the same function, and the copy,
the network before and the network after answer the same to every assignment. -/
theorem Reachable.compact_correct {net : Network} (h : Reachable net)
    (huses : net.graph.references.length < UInt32.size) (hfresh : net.scratch.Fresh)
    (hroom : net.scratch.traversal.toNat < UInt32.size - 2) :
    ∃ copy nodes marks, (compact net).answer = .ok (copy, nodes) ∧
      (compact net).state = { net with
        scratch := { net.scratch with traversal := net.scratch.traversal + 1, marks } } ∧
      Images nodes net.graph.primaryInputs copy.graph.primaryInputs ∧
      Images nodes net.graph.registerOutputs copy.graph.registerOutputs ∧
      Images nodes net.graph.primaryOutputs copy.graph.primaryOutputs ∧
      Images nodes net.graph.registerInputs copy.graph.registerInputs ∧
      copy.graph.resets = net.graph.resets ∧
      (∀ o n : NodeId, nodes[o]? = some n → ∀ v, copy.graph.value v n = net.graph.value v o) ∧
      ∀ inputs : List Bool, inputs.length = net.graph.inputs.length → ∃ outputs,
        (evaluate inputs net).answer = .ok outputs ∧
        (evaluate inputs (compact net).state).answer = .ok outputs ∧
        (evaluate inputs copy).answer = .ok outputs := by
  have hwell := h.wellFormed
  obtain ⟨⟨copy, nodes⟩, hanswer, hwired, marks, hstate, hsize, hmarked⟩ :=
    compact_yields hwell huses hfresh (by omega)
  have hregister : Images nodes net.graph.registerInputs copy.graph.registerInputs :=
    hwell.graph.matched.signals ▸ hwired.registerInputs
  refine ⟨copy, nodes, marks, hanswer, hstate, hwired.primaryInputs, hwired.registerOutputs,
    hwired.primaryOutputs, hregister, hwired.resets.trans hwell.graph.matched.resets,
    hwired.agrees.value,
    fun inputs hinputs => ⟨_, evaluate_answer hwell hfresh (by omega) hinputs, ?_, ?_⟩⟩
  · rw [hstate] at hmarked ⊢
    have hwell' : WellFormed { net with
        scratch := { net.scratch with traversal := net.scratch.traversal + 1, marks } } :=
      { hwell with marks_size := hsize }
    refine evaluate_answer hwell' hmarked ?_ hinputs
    show (net.scratch.traversal + 1).toNat + 1 < UInt32.size
    rw [Scratch.toNat_next (by omega)]
    omega
  · have hinputs' : inputs.length = copy.graph.inputs.length := by
      rw [hinputs, hwired.inputs.length]
    have hvalues := hwired.agrees.map_value (hwired.outputs hwell.graph.matched)
      (Graph.assigned inputs)
    rw [evaluate_answer hwired.agrees.wellFormed ?_ ?_ hinputs']
    · exact congrArg Except.ok hvalues
    · rw [hwired.agrees.scratch]
      exact .clear _
    · rw [hwired.agrees.scratch]
      show (0 : UInt32).toNat + 1 < UInt32.size
      decide

theorem detoured_compact : detoured.graph.references.length < UInt32.size ∧ detoured.scratch.Fresh ∧
    detoured.scratch.traversal.toNat < UInt32.size - 2 ∧
    ∃ copy nodes, (compact detoured).answer = .ok (copy, nodes) ∧
      copy.graph.resets = [.one] ∧ ∀ inputs : List Bool, inputs.length = 3 →
        (evaluate inputs copy).answer = (evaluate inputs detoured).answer := by
  have huses : detoured.graph.references.length < UInt32.size := by decide +kernel
  have hfresh : detoured.scratch.Fresh := by decide +kernel
  have hroom : detoured.scratch.traversal.toNat < UInt32.size - 2 := by decide +kernel
  obtain ⟨copy, nodes, _, hanswer, _, _, _, _, _, hresets, _, hevaluate⟩ :=
    Reachable.compact_correct detoured_reachable huses hfresh hroom
  have hsource : detoured.graph.resets = [.one] := by decide +kernel
  have hcount : detoured.graph.inputs.length = 3 := by decide +kernel
  refine ⟨huses, hfresh, hroom, copy, nodes, hanswer, hresets.trans hsource,
    fun inputs hinputs => ?_⟩
  obtain ⟨outputs, hnet, _, hcopy⟩ := hevaluate inputs (hinputs.trans hcount.symm)
  exact hcopy.trans hnet.symm

end LogicNet
