import LogicNet.Proofs.Recopying

/-!
Compaction is idempotent. Two gates that become one have images that the walk of the copy meets once,
at the place of the first of them, so the walk lists the gates of a copy in the order of their
creation. Therefore compaction of the copy takes the very steps that made it.
-/

namespace LogicNet

theorem filter_firstImages {f : NodeId → NodeId} {p q : NodeId → Bool} {ns : List NodeId}
    (h : ∀ n ∈ ns, p (f n) = q n) :
    (firstImages f ns).filter p = firstImages f (ns.filter q) := by
  induction ns using List.reverseRecOn with
  | nil => rfl
  | append_singleton ns n ih =>
      have hns := ih fun m hm => h m (List.mem_append_left _ hm)
      have hn := h n (by simp)
      rw [firstImages_snoc, List.filter_append, apply_ite (List.filter p), List.filter_append, hns]
      cases hq : q n with
      | false =>
          rw [hq] at hn
          simp [hn, hq]
      | true =>
          rw [hq] at hn
          have hiff : f n ∈ firstImages f ns ↔ f n ∈ firstImages f (ns.filter q) := by
            rw [← hns, List.mem_filter, hn, and_iff_left rfl]
          simp only [hiff, List.filter_cons_of_pos hn, List.filter_cons_of_pos hq, List.filter_nil,
            firstImages_snoc]

namespace Network

/-- The stages of a compaction: the inputs are copied, the walk lists what the outputs depend on, the
gates among it are copied, and the outputs are copied. -/
structure Stages (net : Network) (inputs : NodeMap NodeId) (start : Network) (order : List NodeId)
    (copying : Copying) (middle copy : Network) : Prop where
  copied : (copyInputs net.graph).Gives (Network.new net.options) inputs start
  walked : (withGraph (·.postorderOfOutputs) net).answer = .ok order
  gates : ((order.filter net.graph.isGate).foldlM (Copying.gate net.graph) ⟨inputs, ∅⟩).Gives
    start copying middle
  outputs : (copyOutputs net.graph copying.nodes).Gives
    { middle with gateCover := copying.gateCover net.gateCover } ⟨⟩ copy
  checked : copy.checkInvariants = .ok ()

theorem copyRest_gives_iff {net copy copy' : Network} {order : List NodeId}
    {nodes nodes' : NodeMap NodeId} :
    (copyRest net order nodes).Gives copy nodes' copy' ↔ ∃ copying middle,
      ((order.filter net.graph.isGate).foldlM (Copying.gate net.graph) ⟨nodes, ∅⟩).Gives
        copy copying middle ∧
      (copyOutputs net.graph copying.nodes).Gives
        { middle with gateCover := copying.gateCover net.gateCover } ⟨⟩ copy' ∧
      nodes' = copying.nodes := by
  unfold copyRest copyOutputs
  simp only [Action.gives_bind_iff (x := List.foldlM _ _ _), Action.gives_modify_bind_iff]
  refine exists_congr fun copying => exists_congr fun middle => and_congr_right fun _ => ?_
  constructor
  · intro h
    obtain ⟨_, primary, hprimary, h⟩ := Action.gives_bind_iff.1 h
    obtain ⟨_, next, hnext, h⟩ := Action.gives_bind_iff.1 h
    obtain ⟨rfl, rfl⟩ := Action.gives_pure_iff.1 h
    exact ⟨Action.gives_bind_iff.2 ⟨⟨⟩, primary, hprimary, hnext⟩, rfl⟩
  · rintro ⟨h, rfl⟩
    obtain ⟨_, primary, hprimary, hnext⟩ := Action.gives_bind_iff.1 h
    exact Action.gives_bind_iff.2 ⟨⟨⟩, primary, hprimary, Action.gives_bind_iff.2
      ⟨⟨⟩, copy', hnext, Action.gives_pure_iff.2 ⟨rfl, rfl⟩⟩⟩

theorem compact_eq_ok_iff {net copy : Network} {nodes : NodeMap NodeId} :
    (compact net).answer = .ok (copy, nodes) ↔ ∃ inputs start order copying middle,
      Stages net inputs start order copying middle copy ∧ nodes = copying.nodes := by
  have hgives : (compact net).answer = .ok (copy, nodes) ↔
      ∃ net', compact.Gives net (copy, nodes) net' := by
    simp only [Action.Gives, exists_and_left, exists_eq', and_true]
  rw [hgives]
  unfold compact
  simp only [Action.gives_get_bind_iff, Action.gives_elsewhere_bind_iff,
    Action.gives_bind_iff (x := withGraph _), Action.gives_note_bind_iff,
    Action.gives_lift_bind_iff, Action.gives_pure_iff, copyRest_gives_iff]
  constructor
  · rintro ⟨net', inputs, start, hinputs, order, _, horder, _, _, ⟨copying, middle, hgates, houtputs,
      rfl⟩, _, hchecked, hresult, rfl⟩
    cases hresult
    exact ⟨inputs, start, order, copying, middle, ⟨hinputs, horder.1, hgates, houtputs, hchecked⟩, rfl⟩
  · rintro ⟨inputs, start, order, copying, middle, h, rfl⟩
    exact ⟨_, inputs, start, h.copied, order, _, ⟨h.walked, rfl⟩, copying.nodes, copy,
      ⟨copying, middle, h.gates, h.outputs, rfl⟩, ⟨⟩, h.checked, rfl, rfl⟩

namespace Copying.Finished

variable {g copy : Graph} {share : Bool} {gates : List NodeId} {copying : Copying}
  {middle : Network} {o : NodeId}

theorem isGate_placeOf (h : Finished g share gates copying middle copy)
    (ho : Placed copying.nodes o) : copy.isGate (placeOf copying.nodes o) = g.isGate o := by
  rcases (h.placed_iff o).1 ho with ⟨value, rfl⟩ | hinput | hlive
  · rw [placeOf_eq (h.copied.mirrors.constants value), copy.isGate_constant, g.isGate_constant]
  · obtain ⟨image, himage, hplaced⟩ := h.inputs.exists_target hinput
    rw [placeOf_eq hplaced, h.wellFormed.isGate_input himage, h.source.isGate_input hinput]
  · obtain ⟨n, _, hn, hgate, _⟩ := h.gate hlive
    rw [placeOf_eq hn, hgate, hlive.1]

/-- Where things have gone goes along with their children. -/
theorem carries (h : Finished g share gates copying middle copy) :
    Carries g.childrenOf copy.childrenOf (Placed copying.nodes) (placeOf copying.nodes) where
  closed n hn child hchild := by
    obtain ⟨m, hm⟩ := hn
    obtain ⟨image, himage, _⟩ := h.reaches (.single hchild) hm
    exact ⟨image, himage⟩
  map n hn := by
    cases hgate : g.isGate n with
    | false =>
        rw [h.source.childless n hgate, h.wellFormed.childless _ (by rw [h.isGate_placeOf hn, hgate])]
        rfl
    | true =>
        obtain ⟨m, _, hm, _, himages, _⟩ := h.gate (h.liveGate_of_placed hn hgate)
        rw [placeOf_eq hm]
        exact himages.eq_map

/-- The gates of the copy, in the order of their creation, are those that gates have gone to, each
where one went to it first. -/
theorem gates_eq (h : Finished g share gates copying middle copy)
    (hnumbered : Numbered ([0, 1] ++ g.inputs ++ gates) copying.nodes middle) :
    copy.gates = firstImages (placeOf copying.nodes) gates := by
  have hplaced : ∀ n ∈ [0, 1] ++ g.inputs ++ gates, Placed copying.nodes n :=
    fun n hn => (h.copied.mirrors.placed_iff n).2 hn
  have hkept : ([0, 1] ++ g.inputs ++ gates).filter g.isGate = gates := by
    have hconstants : ([0, 1] : List NodeId).filter g.isGate = [] := rfl
    have hinputs : g.inputs.filter g.isGate = [] := List.filter_eq_nil_iff.2 fun n hn =>
      Bool.eq_false_iff.1 (h.source.isGate_input hn)
    have hgates : gates.filter g.isGate = gates :=
      List.filter_eq_self.2 fun n hn => ((h.live_iff n).1 hn).1
    rw [List.filter_append, List.filter_append, hconstants, hinputs, hgates]
    rfl
  have hsize : copy.size = middle.graph.size := by rw [Graph.size, h.nodes, Graph.size]
  rw [Graph.gates, Graph.nodeIds, hsize, ← hnumbered,
    filter_firstImages fun n hn => h.isGate_placeOf (hplaced n hn), hkept]

end Copying.Finished

/-- On marks of earlier traversals the walk from the outputs lists them in depth-first order. -/
theorem postorderOfOutputs_visits {net : Network} (hwell : net.WellFormed)
    (hfresh : net.scratch.Fresh) (hroom : net.scratch.traversal.toNat + 1 < UInt32.size)
    {order : List NodeId} (h : Visits net.graph.childrenOf unseen [] net.graph.outputs order) :
    (withGraph (·.postorderOfOutputs) net).answer = .ok order := by
  have hanswer := Graph.postorder_unseen hwell.graph hwell.graph.output_lt hwell.marks_size hfresh
    hroom h
  unfold withGraph
  rw [Action.get_bind_run]
  exact hanswer

section Stages

variable {net start middle copy : Network} {inputs : NodeMap NodeId} {order : List NodeId}
  {copying : Copying}

/-- What is true of a compact copy at the stages of its making. -/
theorem Stages.recopied (h : Stages net inputs start order copying middle copy)
    (hwell : net.WellFormed) (huses : net.graph.references.length < UInt32.size)
    (hfresh : net.scratch.Fresh) (hroom : net.scratch.traversal.toNat + 1 < UInt32.size)
    {places : NodeMap NodeId} (hplaces : Unmoved places start.graph.size) :
    Recopied net.graph net.options.share start places (order.filter net.graph.isGate) copying
      middle ∧
    Wired net.graph copying.nodes net.graph.primaryOutputs net.graph.nextStates copy ∧
    Copying.Finished net.graph net.options.share (order.filter net.graph.isGate) copying middle
      copy.graph := by
  have hg := hwell.graph
  have hanswer : (compact net).answer = .ok (copy, copying.nodes) :=
    compact_eq_ok_iff.2 ⟨inputs, start, order, copying, middle, h, rfl⟩
  have himported := (copyInputs_yields hg net.options).leaves.of_gives h.copied
  have hcopied := (copyInputs_copied hg net.options).of_gives h.copied
  obtain ⟨hnumbered, _⟩ := (copyInputs_again hg net.options).of_gives h.copied
  obtain ⟨hnodup, hmem⟩ := (postorderOfOutputs_lists hwell hfresh hroom).leaves order h.walked
  have hgates := hg.nodup_append_gates (hnodup.filter net.graph.isGate)
    fun n hn => (List.mem_filter.1 hn).2
  have hchildren : ∀ n ∈ order.filter net.graph.isGate, net.graph.childrenOf n ≠ [] := by
    intro n hn
    obtain ⟨hn, hgate⟩ := List.mem_filter.1 hn
    obtain ⟨output, houtput, hreach⟩ := (hmem n).1 hn
    exact (hg.arity n (hg.lt_size_of_reaches (hg.output_lt output houtput) hreach) hgate).1
  have hempty : Copying.Covered net.graph ⟨inputs, ∅⟩ start :=
    ⟨fun c c' hc => by simp at hc, himported.gateCover⟩
  have hrecopied := (gates_recopied hg
    { wellFormed := himported.agrees.wellFormed
      copied := hcopied
      numbered := by rwa [List.append_nil]
      again := .of_inputs hplaces
        (gates_eq_nil_of_imported himported.agrees.wellFormed.graph himported hcopied)
      terminals := fun _ => rfl } hgates hchildren).of_gives h.gates
  obtain ⟨result, hresult, hwired, _⟩ := compact_yields hwell huses hfresh hroom
  rw [hanswer] at hresult
  cases hresult
  have hsame := (copyOutputs_leaves net.graph copying.nodes _).of_gives h.outputs
  refine ⟨hrecopied, hwired,
    { source := hg
      wellFormed := hwired.agrees.wellFormed.graph
      live_iff := fun n => ?_
      copied := hrecopied.copied
      covered := (Copying.gates_covered _ hempty).of_gives h.gates
      nodes := hsame.nodes
      covers := hsame.covers
      inputs := hwired.inputs
      outputs := hwired.outputs hg.matched
      child_lt := child_lt_of_extensions (compact_extension hwell hanswer) }⟩
  rw [List.mem_filter, hmem, and_comm]
  rfl

/-- The walk from the outputs of a compact copy lists the gates in the order of their creation. -/
theorem Stages.walked_again (h : Stages net inputs start order copying middle copy)
    (hwell : net.WellFormed) (hfresh : net.scratch.Fresh)
    (hroom : net.scratch.traversal.toNat + 1 < UInt32.size)
    (hwired : Wired net.graph copying.nodes net.graph.primaryOutputs net.graph.nextStates copy)
    (hfinished : Copying.Finished net.graph net.options.share (order.filter net.graph.isGate)
      copying middle copy.graph)
    (hnumbered : Numbered ([0, 1] ++ net.graph.inputs ++ order.filter net.graph.isGate)
      copying.nodes middle) :
    ∃ order', (withGraph (·.postorderOfOutputs) copy).answer = .ok order' ∧
      order'.filter copy.graph.isGate = copy.graph.gates := by
  obtain ⟨order', hvisits⟩ :=
    Visits.exists_end hwell.graph.acyclic hwell.graph.bounded unseen [] net.graph.outputs
  have hwalked := postorderOfOutputs_visits hwell hfresh hroom hvisits
  rw [h.walked] at hwalked
  cases hwalked
  have houtputs : ∀ n ∈ net.graph.outputs, Placed copying.nodes n :=
    fun n hn => hfinished.outputs.placed hn
  have hplaced : ∀ n ∈ order, Placed copying.nodes n := by
    intro n hn
    rcases hvisits.reached hn with hn | ⟨output, houtput, hreach⟩
    · cases hn
    · exact (hfinished.carries.reaches hreach (houtputs output houtput)).1
  have hquotient := hvisits.quotient hfinished.carries hwired.agrees.wellFormed.graph.acyclic
    houtputs (by simp) (by simp)
  rw [← hfinished.outputs.eq_map] at hquotient
  refine ⟨firstImages (placeOf copying.nodes) order,
    postorderOfOutputs_visits hwired.agrees.wellFormed ?_ ?_ hquotient, ?_⟩
  · rw [hwired.agrees.scratch]
    exact .clear _
  · rw [hwired.agrees.scratch]
    show (0 : UInt32).toNat + 1 < UInt32.size
    decide
  · rw [filter_firstImages fun n hn => hfinished.isGate_placeOf (hplaced n hn),
      hfinished.gates_eq hnumbered]

/-- Compaction of a compact copy makes the copy, and leaves everything in its place. -/
theorem Stages.compact_again (h : Stages net inputs start order copying middle copy)
    (hwell : net.WellFormed) (huses : net.graph.references.length < UInt32.size)
    (hfresh : net.scratch.Fresh) (hroom : net.scratch.traversal.toNat + 1 < UInt32.size) :
    ∃ places, (compact copy).answer = .ok (copy, places) ∧ Unmoved places copy.graph.size := by
  obtain ⟨_, _, places, hstart, hplaces⟩ :=
    (copyInputs_again hwell.graph net.options).of_gives h.copied
  obtain ⟨hrecopied, hwired, hfinished⟩ := h.recopied hwell huses hfresh hroom hplaces
  obtain ⟨order', hwalked, hgates⟩ :=
    h.walked_again hwell hfresh hroom hwired hfinished hrecopied.numbered
  have hsame := (copyOutputs_leaves net.graph copying.nodes _).of_gives h.outputs
  have hsize : copy.graph.size = middle.graph.size := congrArg Array.size hsame.nodes
  have hprimary : copy.graph.primaryInputs = start.graph.primaryInputs :=
    (congrArg Inputs.primaryInputs hsame.toInputs).trans (hrecopied.terminals .primaryInput)
  have hregister : copy.graph.registerOutputs = start.graph.registerOutputs :=
    (congrArg Inputs.registerOutputs hsame.toInputs).trans (hrecopied.terminals .registerOutput)
  have hanswer : (compact net).answer = .ok (copy, copying.nodes) :=
    compact_eq_ok_iff.2 ⟨inputs, start, order, copying, middle, h, rfl⟩
  have hoptions := options_of_building (compact_building hwell hanswer)
  obtain ⟨redone, hredone, hplace⟩ := hrecopied.again copy.graph
    (.of_same hsame.nodes hsame.covers (congrArg Inputs.inputs hsame.toInputs))
  have hunmoved : Unmoved redone.nodes copy.graph.size := hsize ▸ hplace.nodes
  refine ⟨redone.nodes, compact_eq_ok_iff.2 ⟨places, start, order', redone, middle,
    { copied := ?_
      walked := hwalked
      gates := ?_
      outputs := ?_
      checked := h.checked }, rfl⟩, hunmoved⟩
  · rw [hoptions]
    unfold copyInputs at hstart ⊢
    rwa [hprimary, hregister]
  · have hgates' : copy.graph.gates = middle.graph.gates := by
      unfold Graph.gates Graph.nodeIds
      rw [hsize, Graph.isGate_congr hsame.toInputs]
    rwa [hgates, hgates']
  · have hbase := ((copyInputs_copied hwell.graph net.options).of_gives h.copied).slotted.covers_size
    have hkinds : redone.gateCover copy.gateCover = copying.gateCover net.gateCover := by
      rw [hbase] at hplace
      rw [hsame.gateCover]
      exact hplace.gateCover_again hrecopied.copied.slotted net.gateCover
    rw [hkinds, copyOutputs_again hwired.primaryOutputs hwired.registerInputs hwired.resets
      hwired.agrees.wellFormed.graph.matched hunmoved hwired.agrees.lt_size]
    exact h.outputs

end Stages
end Network

open Network

/-- Compaction is idempotent. The compact copy of a reachable network, in which gates may have become
one, is its own compact copy: nodes, covers, terminals, fanouts, sharing table, kinds of gate and
options are the very same, and every node goes to itself. -/
theorem Reachable.compact_idempotent {net : Network} (h : Reachable net)
    (huses : net.graph.references.length < UInt32.size) (hfresh : net.scratch.Fresh)
    (hroom : net.scratch.traversal.toNat < UInt32.size - 1) :
    ∃ copy nodes places, (compact net).answer = .ok (copy, nodes) ∧
      (compact copy).answer = .ok (copy, places) ∧
      ∀ o n : NodeId, places[o]? = some n ↔ o < copy.graph.size ∧ n = o := by
  have hwell := h.wellFormed
  have hroom' : net.scratch.traversal.toNat + 1 < UInt32.size := by omega
  obtain ⟨⟨copy, nodes⟩, hanswer, _⟩ := compact_yields hwell huses hfresh hroom'
  obtain ⟨inputs, start, order, copying, middle, hstages, rfl⟩ := compact_eq_ok_iff.1 hanswer
  obtain ⟨places, hagain, hplaces⟩ := hstages.compact_again hwell huses hfresh hroom'
  refine ⟨copy, copying.nodes, places, hanswer, hagain, fun o n => ?_⟩
  rw [hplaces]
  split
  · next hlt => simp [hlt, eq_comm]
  · next hle => simp [hle]

theorem folded_compact_twice : folded.graph.references.length < UInt32.size ∧
    folded.scratch.Fresh ∧ folded.scratch.traversal.toNat < UInt32.size - 1 ∧
    ∃ copy nodes places, (compact folded).answer = .ok (copy, nodes) ∧
      nodes[5]? = some 5 ∧ nodes[6]? = some 5 ∧ nodes[7]? = some 6 ∧
      (compact copy).answer = .ok (copy, places) ∧ places[5]? = some 5 ∧ places[6]? = some 6 := by
  have huses : folded.graph.references.length < UInt32.size := by decide +kernel
  have hfresh : folded.scratch.Fresh := by decide +kernel
  have hroom : folded.scratch.traversal.toNat < UInt32.size - 1 := by decide +kernel
  have hsize : (compact folded).answer.toOption.map (fun result =>
      (result.1.graph.size, result.2[5]?, result.2[6]?, result.2[7]?)) =
        some (7, some 5, some 5, some 6) := by decide +kernel
  obtain ⟨copy, nodes, places, hanswer, hagain, hplaces⟩ :=
    Reachable.compact_idempotent folded_reachable huses hfresh hroom
  rw [hanswer] at hsize
  simp only [Except.toOption, Option.map_some, Option.some.injEq, Prod.mk.injEq] at hsize
  obtain ⟨hsize, hleft, hright, htop⟩ := hsize
  exact ⟨huses, hfresh, hroom, copy, nodes, places, hanswer, hleft, hright, htop, hagain,
    (hplaces 5 5).2 ⟨by rw [hsize]; decide, rfl⟩, (hplaces 6 6).2 ⟨by rw [hsize]; decide, rfl⟩⟩

end LogicNet
