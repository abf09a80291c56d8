import LogicNet.Proofs.DepthFirst
import LogicNet.Proofs.Shape

/-!
Copying a copy. A copy is made by the same steps as what it was made from, if its gates are gone
through in the order of their creation: each input is created once more, each gate is asked for once
more by the same request, and where two gates have become one the second request left no trace. So
the copy of the copy is the copy itself, with everything in its place.
-/

namespace LogicNet

/-- Where a node has gone; what has not gone anywhere is read as gone to the constant false. -/
def placeOf (nodes : NodeMap NodeId) (o : NodeId) : NodeId := (nodes[o]?).getD 0

theorem placeOf_eq {nodes : NodeMap NodeId} {o n : NodeId} (h : nodes[o]? = some n) :
    placeOf nodes o = n := by
  rw [placeOf, h, Option.getD_some]

theorem Images.eq_map {nodes : NodeMap NodeId} {sources targets : List NodeId}
    (h : Images nodes sources targets) : targets = sources.map (placeOf nodes) := by
  have hplaces := congrArg (List.map fun image => image.getD 0) h
  rw [List.map_map, List.map_map] at hplaces
  exact (List.map_id targets).symm.trans hplaces

namespace Network

/-- The nodes have been numbered in the order in which they were placed. -/
def Numbered (kept : List NodeId) (nodes : NodeMap NodeId) (copy : Network) : Prop :=
  firstImages (placeOf nodes) kept = List.range copy.graph.size

/-- What is placed next goes to an older node or takes the next number. -/
theorem Numbered.place {kept : List NodeId} {nodes : NodeMap NodeId} {copy copy' : Network}
    {o n : NodeId} (h : Numbered kept nodes copy) (ho : o ∉ kept)
    (hn : (n < copy.graph.size ∧ copy'.graph.size = copy.graph.size) ∨
      (n = copy.graph.size ∧ copy'.graph.size = copy.graph.size + 1)) :
    Numbered (kept ++ [o]) (nodes.insert o n) copy' := by
  have hself : placeOf (nodes.insert o n) o = n :=
    placeOf_eq (by rw [getElem?_insert_node, if_pos rfl])
  have hkept : firstImages (placeOf (nodes.insert o n)) kept = List.range copy.graph.size := by
    rw [← h]
    unfold firstImages
    congr 1
    refine List.map_congr_left fun p hp => ?_
    rw [placeOf, getElem?_insert_node, if_neg, placeOf]
    rintro rfl
    exact ho hp
  rw [Numbered, firstImages_snoc, hself, hkept]
  rcases hn with ⟨hlt, hsize⟩ | ⟨rfl, hsize⟩
  · rw [if_pos (List.mem_range.2 hlt), hsize]
  · rw [if_neg (by simp), hsize, List.range_succ]

/-- The nodes below `size` have stayed in their places. -/
def Unmoved (nodes : NodeMap NodeId) (size : Nat) : Prop :=
  ∀ o : NodeId, nodes[o]? = if o < size then some o else none

theorem Unmoved.insert {nodes : NodeMap NodeId} {size : Nat} (h : Unmoved nodes size) :
    Unmoved (nodes.insert size size) (size + 1) := by
  intro o
  rw [getElem?_insert_node, h]
  by_cases heq : o = size
  · subst heq
    simp
  · rw [if_neg heq]
    have hiff : o < size ↔ o < size + 1 :=
      ⟨Nat.lt_succ_of_lt, fun hlt => Nat.lt_of_le_of_ne (Nat.le_of_lt_succ hlt) heq⟩
    exact if_congr hiff rfl rfl

theorem Unmoved.constants : Unmoved Copying.constants 2 := by
  intro o
  simp only [Copying.constants, getElem?_insert_node]
  rcases o with _ | _ | o
  · rfl
  · rfl
  · simp

/-- Everything that has been copied from a network has stayed in its place: its nodes, and the covers
after the first `base` ones. -/
structure InPlace (base : Nat) (copying : Copying) (copy : Graph) : Prop where
  nodes : Unmoved copying.nodes copy.size
  covers : ∀ c : CoverId, copying.covers[c]? =
    if base ≤ c ∧ c < copy.covers.size then some c else none

section Inputs

variable {options : Options} {copy : Network}

/-- Copying the inputs of a network makes the network. -/
def InputsAgain (options : Options) (copy : Network) : Prop :=
  copy.graph.primaryInputCount ≤ copy.graph.inputs.length ∧
    ∃ places, (copyInputs copy.graph).Gives (Network.new options) places copy ∧
      Unmoved places copy.graph.size

theorem Numbered.new (options : Options) :
    Numbered [0, 1] Copying.constants (Network.new options) := by
  have hfalse : placeOf Copying.constants 0 = 0 := placeOf_eq (Unmoved.constants 0)
  have htrue : placeOf Copying.constants 1 = 1 := placeOf_eq (Unmoved.constants 1)
  rw [Numbered, firstImages, List.map_cons, List.map_singleton, hfalse, htrue]
  rfl

theorem inputs_snoc_gives {create : Action Network NodeId} {nodes nodes' : NodeMap NodeId}
    {sources : List NodeId} {o n : NodeId} {s s' s'' : Network}
    (h : (Copying.inputs create nodes sources).Gives s nodes' s') (hcreate : create.Gives s' n s'') :
    (Copying.inputs create nodes (sources ++ [o])).Gives s (nodes'.insert o n) s'' :=
  Action.gives_foldlM_snoc_iff.2 ⟨nodes', s', h, Action.gives_bind_iff.2
    ⟨n, s'', hcreate, Action.gives_pure_iff.2 ⟨rfl, rfl⟩⟩⟩

theorem InputsAgain.new (options : Options) : InputsAgain options (Network.new options) :=
  ⟨Nat.le_refl _, Copying.constants, Action.gives_bind_iff.2 ⟨_, _,
    Action.gives_pure_iff.2 ⟨rfl, rfl⟩, Action.gives_pure_iff.2 ⟨rfl, rfl⟩⟩, .constants⟩

theorem addInputNode_size (net : Network) : net.addInputNode.graph.size = net.graph.size + 1 := by
  rw [addInputNode_graph, Graph.size, Graph.pushInput_nodes, Array.size_push, Graph.size]

theorem InputsAgain.primaryInput (h : InputsAgain options copy) :
    addPrimaryInput.Leaves copy fun _ => InputsAgain options := by
  intro n hn
  by_cases hfirst : copy.graph.inputs.length = copy.graph.primaryInputCount
  · obtain ⟨hanswer, hstate⟩ := addPrimaryInput_run hfirst
    obtain ⟨_, places, hgives, hunmoved⟩ := h
    obtain ⟨primary, middle, hprimary, hregisters⟩ := Action.gives_bind_iff.1 hgives
    rw [Inputs.registerOutputs_of_first hfirst] at hregisters
    obtain ⟨rfl, rfl⟩ := Action.gives_pure_iff.1 hregisters
    have hmore := inputs_snoc_gives (o := copy.graph.size) hprimary ⟨hanswer, hstate⟩
    rw [hstate]
    rw [← Inputs.primaryInputs_pushPrimary hfirst] at hmore
    refine ⟨Nat.le_of_eq (Inputs.first_pushPrimary hfirst).symm,
      places.insert copy.graph.size copy.graph.size,
      Action.gives_bind_iff.2 ⟨_, _, hmore, ?_⟩, ?_⟩
    · show (Copying.inputs _ _ copy.graph.pushPrimaryInput.registerOutputs).Gives _ _ _
      rw [Graph.pushPrimaryInput_toInputs, Inputs.registerOutputs_pushPrimary hfirst]
      exact Action.gives_pure_iff.2 ⟨rfl, rfl⟩
    · show Unmoved _ copy.graph.pushPrimaryInput.size
      have hsize : copy.graph.pushPrimaryInput.size = copy.graph.size + 1 := Array.size_push _
      rw [hsize]
      exact hunmoved.insert
  · unfold addPrimaryInput at hn
    rw [Action.get_bind_run, Action.require_bind_run_error hfirst] at hn
    cases hn

theorem InputsAgain.registerOutput (h : InputsAgain options copy) :
    addRegisterOutput.Leaves copy fun _ => InputsAgain options := by
  intro n hn
  obtain ⟨hanswer, hstate⟩ := addRegisterOutput_run copy
  obtain ⟨hle, places, hgives, hunmoved⟩ := h
  obtain ⟨primary, middle, hprimary, hregisters⟩ := Action.gives_bind_iff.1 hgives
  have hmore := inputs_snoc_gives (o := copy.graph.size) hregisters ⟨hanswer, hstate⟩
  have hinputs : copy.addInputNode.graph.toInputs = copy.graph.toInputs.push copy.graph.size := by
    rw [addInputNode_graph, Graph.pushInput_toInputs]
  rw [← Inputs.registerOutputs_push hle, ← hinputs] at hmore
  rw [← Inputs.primaryInputs_push hle, ← hinputs] at hprimary
  rw [hstate]
  refine ⟨?_, _, Action.gives_bind_iff.2 ⟨primary, middle, hprimary, hmore⟩, ?_⟩
  · rw [hinputs, Inputs.push_inputs, List.length_append]
    exact Nat.le_add_right_of_le hle
  · rw [addInputNode_size]
    exact hunmoved.insert

theorem InputAdded.size {net net' : Network} {n : NodeId} (h : InputAdded net n net') :
    n = net.graph.size ∧ net'.graph.size = net.graph.size + 1 := by
  refine ⟨h.name, ?_⟩
  rw [Graph.size, h.nodes, Array.size_push, Graph.size]

/-- Inputs are numbered as they are copied, and copying them once more makes the same network. -/
theorem inputs_again {create : Action Network NodeId}
    (hadded : ∀ net, create.Leaves net (InputAdded net))
    (hcreate : ∀ copy, InputsAgain options copy →
      create.Leaves copy fun _ => InputsAgain options)
    {before sources : List NodeId} (hnodup : (before ++ sources).Nodup) {nodes : NodeMap NodeId}
    (h : Numbered before nodes copy ∧ InputsAgain options copy) :
    (Copying.inputs create nodes sources).Leaves copy fun nodes' copy' =>
      Numbered (before ++ sources) nodes' copy' ∧ InputsAgain options copy' := by
  refine Action.Leaves.foldlM (fun done nodes copy =>
    Numbered (before ++ done) nodes copy ∧ InputsAgain options copy) ?_ (by simpa using h)
  intro done o rest nodes copy hsplit h
  refine ((hadded copy).and (hcreate copy h.2)).bind fun n copy' ⟨hinput, hagain⟩ => .pure ⟨?_, hagain⟩
  rw [hsplit, ← List.append_assoc] at hnodup
  rw [← List.append_assoc]
  exact h.1.place (notMem_of_nodup_append hnodup) (Or.inr hinput.size)

theorem copyInputs_again {g : Graph} (hg : g.WellFormed) (options : Options) :
    (copyInputs g).Leaves (Network.new options) fun nodes start =>
      Numbered ([0, 1] ++ g.inputs) nodes start ∧ InputsAgain options start := by
  have hnodup := hg.nodup_constants_inputs
  rw [← Inputs.primaryInputs_append, ← List.append_assoc] at hnodup ⊢
  exact (inputs_again addPrimaryInput_added (fun _ h => h.primaryInput)
    (List.nodup_append.1 hnodup).1 ⟨.new options, .new options⟩).bind fun nodes copy h =>
      inputs_again addRegisterOutput_added (fun _ h => h.registerOutput) hnodup h

end Inputs

theorem Met.gives {net net' : Network} {request : Request} {n : NodeId}
    (h : Met net request n net') : (node request.children request.cover).Gives net n net' := by
  unfold node
  rw [Action.gives_get_bind_iff, Action.gives_lift_bind_iff]
  cases h with
  | constant cover childless named =>
      refine ⟨cover, (Graph.cover_eq_ok_iff _ _ _).2 named, ?_⟩
      rw [childless]
      exact Action.gives_pure_iff.2 ⟨rfl, rfl⟩
  | shared n accepted found =>
      refine ⟨_, (Graph.cover_eq_ok_iff _ _ _).2 (Array.getElem?_eq_getElem accepted.cover_lt), ?_⟩
      rw [if_neg (by simpa using accepted.children_ne_nil), Action.gives_require_bind_iff,
        Action.gives_lift_bind_iff]
      refine ⟨accepted.length_le, ⟨⟩, (checkAll_eq_ok_iff _ _).2 accepted.child_lt, ?_⟩
      rw [show net.shared? ⟨request.children, request.cover⟩ = some n from found]
      exact Action.gives_note_bind_iff.2 (Action.gives_pure_iff.2 ⟨rfl, rfl⟩)
  | created fanouts accepted fresh raised =>
      refine ⟨_, (Graph.cover_eq_ok_iff _ _ _).2 (Array.getElem?_eq_getElem accepted.cover_lt), ?_⟩
      rw [if_neg (by simpa using accepted.children_ne_nil), Action.gives_require_bind_iff,
        Action.gives_lift_bind_iff]
      refine ⟨accepted.length_le, ⟨⟩, (checkAll_eq_ok_iff _ _).2 accepted.child_lt, ?_⟩
      rw [show net.shared? ⟨request.children, request.cover⟩ = none from fresh]
      have hrun := createNode_run request net
      simp only [raised] at hrun
      exact hrun

theorem gates_addNode {g : Graph} (hg : g.WellFormed) {request : Request}
    (accepted : g.Accepts request) : (g.addNode request).gates = g.gates ++ [g.size] := by
  have hpushed := hg.pushed_addNode accepted
  rw [Graph.gates, Graph.nodeIds, hpushed.size, List.range_succ, List.filter_append]
  exact congrArg (g.gates ++ ·)
    (List.filter_cons_of_pos ((hpushed.isGate_new hg).2 accepted.children_ne_nil))

section Gates

variable {g : Graph} {share : Bool} {inputs before : List NodeId} {base : Nat}
  {copying copying' redone : Copying} {start copy copy' middle : Network} {final : Graph}
  {c c' : CoverId} {o : NodeId}

theorem Copying.Slotted.bounds {gates : List NodeId} (h : Copying.Slotted g gates base copying copy)
    (hc : copying.covers[c]? = some c') : base ≤ c' ∧ c' < copy.graph.covers.size := by
  rw [h.covers, Option.map_eq_some_iff] at hc
  obtain ⟨i, hi, rfl⟩ := hc
  obtain ⟨hlt, _⟩ := List.idxOf?_eq_some_iff.1 hi
  rw [h.covers_size]
  exact ⟨Nat.le_add_right base i, Nat.add_lt_add_left hlt base⟩

theorem InPlace.gateCover_again {gates : List NodeId} (h : InPlace base redone copy.graph)
    (hslotted : Copying.Slotted g gates base copying copy) (source : Gate → Option CoverId) :
    redone.gateCover (copying.gateCover source) = copying.gateCover source := by
  funext kind
  simp only [Copying.gateCover, Option.bind_assoc]
  refine congrArg (source kind).bind (funext fun c => ?_)
  cases hc : copying.covers[c]? with
  | none => rfl
  | some c' =>
      rw [Option.bind_some, h.covers, if_pos (hslotted.bounds hc)]

/-- A cover that is copied to a place is copied from there to the same place. -/
theorem Copying.CoverCopied.again (hg : g.WellFormed) (h : InPlace base redone copy.graph)
    {before : List NodeId} (hslotted : Copying.Slotted g before base copying copy)
    (hcopied : Copying.CoverCopied g c copying copy c' copying' middle)
    (hgrown : Graph.Grown middle.graph final) :
    ∃ redone', (redone.cover final c').Gives copy (c', redone') middle ∧
      InPlace base redone' middle.graph := by
  unfold Copying.cover
  cases hcopied with
  | found c' named =>
      rw [h.covers, if_pos (hslotted.bounds named)]
      exact ⟨redone, Action.gives_pure_iff.2 ⟨rfl, rfl⟩, h⟩
  | added cover new source =>
      have hrun := addCover_run (hg.tidy _ cover source) copy
      have hcover : final.covers[copy.graph.covers.size]? = some cover :=
        hgrown.covers _ cover (by simp [Graph.addCover])
      rw [h.covers, if_neg fun hc => Nat.lt_irrefl _ hc.2]
      refine ⟨_, Action.gives_lift_bind_iff.2 ⟨cover, (Graph.cover_eq_ok_iff _ _ _).2 hcover,
        Action.gives_bind_iff.2 ⟨_, _, ⟨by rw [hrun], by rw [hrun]⟩,
          Action.gives_pure_iff.2 ⟨rfl, rfl⟩⟩⟩, h.nodes, fun d => ?_⟩
      have hbase : base ≤ copy.graph.covers.size := hslotted.covers_size ▸ Nat.le_add_right _ _
      rw [Std.ExtTreeMap.getElem?_insert, h.covers, Graph.addCover, Array.size_push]
      simp only [Std.LawfulEqCmp.compare_eq_iff_eq]
      by_cases heq : copy.graph.covers.size = d
      · subst heq
        rw [if_pos rfl, if_pos ⟨hbase, Nat.lt_succ_self _⟩]
      · rw [if_neg heq]
        refine if_congr (and_congr_right fun _ => ?_) rfl rfl
        exact ⟨Nat.lt_succ_of_lt, fun hlt => Nat.lt_of_le_of_ne (Nat.le_of_lt_succ hlt) (Ne.symm heq)⟩

theorem Copying.CoverCopied.wellFormed (hg : g.WellFormed) (hwell : copy.WellFormed)
    (h : Copying.CoverCopied g c copying copy c' copying' middle) :
    middle.WellFormed ∧ Graph.Grown copy.graph middle.graph ∧
      middle.graph.gates = copy.graph.gates := by
  cases h with
  | found c named => exact ⟨hwell, .of_same rfl rfl rfl, rfl⟩
  | added cover new source =>
      have hgrowth : Growth copy _ := .cover cover (hg.tidy _ cover source)
      exact ⟨hwell.of_growth hgrowth, hgrowth.grown, rfl⟩

/-- Children that have stayed in their places are found there. -/
theorem mapM_child_again {n : NodeId} {children : List NodeId}
    (h : ∀ child ∈ children, redone.nodes[child]? = some child) :
    (children.mapM (redone.child n) : Except Fault (List NodeId)) = .ok children := by
  have hfound : ∀ child ∈ children, redone.child n child = .ok (id child) := fun child hchild => by
    rw [Copying.child, h child hchild, id]
  rw [mapM_except_eq_ok hfound, List.map_id]

/-- Copying the gates of a network, in the order of their creation and from a graph that has them,
makes the network. -/
def GatesAgain (start : Network) (places : NodeMap NodeId) (copy : Network) : Prop :=
  ∀ final, Graph.Grown copy.graph final → ∃ again,
    (copy.graph.gates.foldlM (Copying.gate final) ⟨places, ∅⟩).Gives start again copy ∧
      InPlace start.graph.covers.size again copy.graph

theorem GatesAgain.of_inputs {places : NodeMap NodeId} (hplaces : Unmoved places start.graph.size)
    (hnone : start.graph.gates = []) : GatesAgain start places start := by
  intro final _
  rw [hnone]
  refine ⟨⟨places, ∅⟩, Action.gives_pure_iff.2 ⟨rfl, rfl⟩, hplaces, fun c => ?_⟩
  rw [if_neg fun hc => Nat.not_lt.2 hc.1 hc.2]
  exact Std.ExtTreeMap.getElem?_empty

/-- A gate that is copied goes to an older node, and nothing else has changed, or to a new one. -/
theorem Copying.GateCopied.older_or_new (hwell : copy.WellFormed) (hexact : copy.Exact)
    (hne : g.childrenOf o ≠ []) (h : Copying.GateCopied g o copying copy copying' copy') :
    ∃ n, copying'.nodes = copying.nodes.insert o n ∧
      ((n < copy.graph.size ∧ copy' = copy) ∨
      (n = copy.graph.size ∧ ∃ c request covered middle,
        Copying.CoverCopied g c copying copy request.cover covered middle ∧
        Met middle request n copy' ∧ copy'.graph = middle.graph.addNode request ∧
        middle.graph.Accepts request)) := by
  obtain ⟨source, images, c, covered, middle, n, hsource, hmap, hcover, hmet, rfl⟩ := h.steps
  obtain ⟨hnodes, htable, hoptions, hplaces, -⟩ := hcover.beside
  have hne' : images ≠ [] := by
    rw [Graph.childrenOf_eq hsource] at hne
    rw [← List.length_pos_iff, (Copying.mapM_child_iff.1 hmap).length]
    exact List.length_pos_iff.2 hne
  refine ⟨n, by rw [hplaces], ?_⟩
  rcases hmet.size_cases hne' (hexact.congr hnodes htable hoptions) with ⟨_, rfl, hn⟩ |
    ⟨hn, hgraph, accepted⟩
  · left
    rw [hnodes] at hn
    refine ⟨Graph.lt_size_of_nodes hn, ?_⟩
    cases hcover with
    | found c named => rfl
    | added cover new source =>
        -- A cover that has just been added is not that of an older node.
        exact absurd (hwell.graph.cover_lt n _ hn) (Nat.lt_irrefl _)
  · right
    rw [Graph.size, hnodes] at hn
    exact ⟨hn, source.cover, ⟨images, c⟩, covered, middle, hcover, hmet, hgraph, accepted⟩

/-- A gate that has gone to a new node can be copied from there. -/
theorem GatesAgain.gate {places : NodeMap NodeId} (h : GatesAgain start places copy)
    (hg : g.WellFormed) (hwell : copy.WellFormed)
    (hcopied : Copying.Copied g share inputs before copying copy)
    (hbase : start.graph.covers.size = 2 + inputs.length) (hne : g.childrenOf o ≠ [])
    (hstep : Copying.GateCopied g o copying copy copying' copy') : GatesAgain start places copy' := by
  obtain ⟨n, _, ⟨_, rfl⟩ | ⟨rfl, c, request, covered, middle, hcover, hmet, hgraph, accepted⟩⟩ :=
    hstep.older_or_new hwell hcopied.mirrors.exact hne
  · exact h
  obtain ⟨hmiddle, hbefore, hgates⟩ := hcover.wellFormed hg hwell
  have hsize : middle.graph.size = copy.graph.size := by
    rw [Graph.size, hcover.beside.1, Graph.size]
  intro final hfinal
  have hgrown := (grown_of_extensions (extensions_of_growth hmet.growths)).trans hfinal
  obtain ⟨redone, hgives, hplace⟩ := h final (hbefore.trans hgrown)
  rw [hbase] at hplace ⊢
  obtain ⟨redone', hcovered, hplace'⟩ := hcover.again hg hplace hcopied.slotted hgrown
  have hchildren : ∀ child ∈ request.children, redone.nodes[child]? = some child :=
    fun child hchild => by rw [hplace.nodes, if_pos (hsize ▸ accepted.child_lt child hchild)]
  have hnode : final.nodes[copy.graph.size]? = some request :=
    hfinal.nodes _ _ (by rw [hgraph, Graph.nodes_addNode, if_pos hsize.symm])
  refine ⟨{ redone' with nodes := redone'.nodes.insert copy.graph.size copy.graph.size }, ?_, ?_⟩
  · rw [hgraph, gates_addNode hmiddle.graph accepted, hgates, hsize]
    refine Action.gives_foldlM_snoc_iff.2 ⟨redone, copy, hgives, ?_⟩
    exact Action.gives_lift_bind_iff.2 ⟨_, (Graph.node_eq_ok_iff _ _ _).2 hnode,
      Action.gives_lift_bind_iff.2 ⟨_, mapM_child_again hchildren,
        Action.gives_bind_iff.2 ⟨_, middle, hcovered,
          Action.gives_bind_iff.2 ⟨_, copy', hmet.gives, Action.gives_pure_iff.2 ⟨rfl, rfl⟩⟩⟩⟩⟩
  · rw [hgraph]
    refine ⟨?_, hplace'.covers⟩
    rw [Graph.size_addNode, ← hsize]
    exact Unmoved.insert hplace'.nodes

theorem Numbered.gate {kept : List NodeId} (h : Numbered kept copying.nodes copy) (ho : o ∉ kept)
    (hwell : copy.WellFormed) (hexact : copy.Exact) (hne : g.childrenOf o ≠ [])
    (hstep : Copying.GateCopied g o copying copy copying' copy') :
    Numbered (kept ++ [o]) copying'.nodes copy' := by
  obtain ⟨n, hnodes, hn⟩ := hstep.older_or_new hwell hexact hne
  rw [hnodes]
  refine h.place ho (hn.imp (fun ⟨hlt, heq⟩ => ⟨hlt, by rw [heq]⟩) ?_)
  rintro ⟨hn, c, request, covered, middle, hcover, _, hgraph, _⟩
  refine ⟨hn, ?_⟩
  rw [hgraph, Graph.size_addNode, Graph.size, hcover.beside.1, Graph.size]

theorem Copying.GateCopied.terminals (h : Copying.GateCopied g o copying copy copying' copy')
    (list : Terminal) : copy'.graph.terminals list = copy.graph.terminals list := by
  obtain ⟨source, images, c, covered, middle, n, _, _, hcover, hmet, _⟩ := h.steps
  rw [hmet.beside.1 list]
  cases hcover with
  | found => rfl
  | added => cases list <;> rfl

theorem gates_eq_nil_of_imported {nodes : NodeMap NodeId} (hwell : start.graph.WellFormed)
    (h : Imported g g.primaryInputs g.registerOutputs nodes start)
    (hcopied : Copying.Copied g share g.inputs [] ⟨nodes, ∅⟩ start) : start.graph.gates = [] := by
  rw [Graph.gates, List.filter_eq_nil_iff]
  intro n hn
  rw [Bool.not_eq_true]
  obtain ⟨o, ho⟩ := (hcopied.mirrors.lt_size_iff n).1 (List.mem_range.1 hn)
  have hkept := (hcopied.mirrors.placed_iff o).1 ⟨n, ho⟩
  rw [List.append_nil, List.mem_append, Graph.mem_constants] at hkept
  rcases hkept with ⟨value, rfl⟩ | hkept
  · rw [hcopied.mirrors.constants] at ho
    cases ho
    exact start.graph.isGate_constant value
  · rw [← Inputs.primaryInputs_append] at hkept
    obtain ⟨image, himage, hplaced⟩ := (h.primaryInputs.append h.registerOutputs).exists_target hkept
    rw [ho] at hplaced
    cases hplaced
    rw [Inputs.primaryInputs_append] at himage
    exact hwell.isGate_input himage

/-- What is true while the gates are copied: they are numbered, copying them once more makes the same
network, and the terminals stay. -/
structure Recopied (g : Graph) (share : Bool) (start : Network) (places : NodeMap NodeId)
    (done : List NodeId) (copying : Copying) (copy : Network) : Prop where
  wellFormed : copy.WellFormed
  copied : Copying.Copied g share g.inputs done copying copy
  numbered : Numbered ([0, 1] ++ g.inputs ++ done) copying.nodes copy
  again : GatesAgain start places copy
  terminals : ∀ list, copy.graph.terminals list = start.graph.terminals list

/-- Copying the gates goes on as it has begun. -/
theorem gates_recopied (hg : g.WellFormed) {nodes places : NodeMap NodeId}
    (h : Recopied g share start places [] ⟨nodes, ∅⟩ start) {gates : List NodeId}
    (hnodup : ([0, 1] ++ g.inputs ++ gates).Nodup) (hne : ∀ n ∈ gates, g.childrenOf n ≠ []) :
    (gates.foldlM (Copying.gate g) ⟨nodes, ∅⟩).Leaves start
      (Recopied g share start places gates) := by
  have hbase := h.copied.slotted.covers_size
  refine Action.Leaves.foldlM (Recopied g share start places) ?_ h
  intro done o rest copying copy hsplit h copying' hrun
  have hstep := Copying.gate_copied g o copying copy copying' hrun
  have hnew : o ∉ [0, 1] ++ g.inputs ++ done := by
    rw [hsplit, ← List.append_assoc] at hnodup
    exact notMem_of_nodup_append hnodup
  have hchildren := hne o (by simp [hsplit])
  exact
    { wellFormed := h.wellFormed.of_changes (Relation.ReflTransGen.mono
        (fun _ _ hgrowth => .extension (.growth hgrowth)) _ _ (Copying.gate_moves g copying o copy))
      copied := h.copied.gate hnew hchildren hstep
      numbered := by
        rw [← List.append_assoc]
        exact h.numbered.gate hnew h.wellFormed h.copied.mirrors.exact hchildren hstep
      again := h.again.gate hg h.wellFormed h.copied hbase hchildren hstep
      terminals := fun list => (hstep.terminals list).trans (h.terminals list) }

end Gates

section Outputs

/-- Copies the outputs, when the nodes have been copied. -/
def copyOutputs (g : Graph) (nodes : NodeMap NodeId) : Action Network PUnit := do
  g.primaryOutputs.forM fun signal => do
    let _ ← addPrimaryOutput (← nodes.entry signal)
  g.nextStates.forM fun next => do
    let _ ← addRegisterInput (← nodes.entry next.signal) next.reset

theorem forM_congr {α β : Type} {f : α → Action Network PUnit} {f' : β → Action Network PUnit}
    {items : List α} {items' : List β}
    (h : List.Forall₂ (fun item item' => f item = f' item') items items') :
    items.forM f = items'.forM f' := by
  induction h with
  | nil => rfl
  | cons hitem _ ih =>
      show (_ >>= fun _ => _) = (_ >>= fun _ => _)
      rw [hitem, ih]

theorem forall₂_and {α β : Type} {R S : α → β → Prop} {items : List α} {items' : List β}
    (h : List.Forall₂ R items items') (h' : List.Forall₂ S items items') :
    List.Forall₂ (fun item item' => R item item' ∧ S item item') items items' := by
  induction h with
  | nil => exact .nil
  | cons hitem _ ih =>
      cases h' with
      | cons hitem' hrest' => exact .cons ⟨hitem, hitem'⟩ (ih hrest')

/-- Outputs that have gone to those of the copy are copied like those of the copy. -/
theorem copyOutputs_again {g copy : Graph} {nodes places : NodeMap NodeId}
    (hprimary : Images nodes g.primaryOutputs copy.primaryOutputs)
    (hregister : Images nodes (g.nextStates.map (·.signal)) copy.registerInputs)
    (hresets : copy.resets = g.nextStates.map (·.reset)) (hmatched : copy.Matched)
    (hplaces : Unmoved places copy.size)
    (hlt : ∀ o n : NodeId, nodes[o]? = some n → n < copy.size) :
    copyOutputs copy places = copyOutputs g nodes := by
  have hentry : ∀ {o n : NodeId}, nodes[o]? = some n → places.entry n = nodes.entry o := by
    intro o n ho
    rw [entry_eq_ok ho, entry_eq_ok (by rw [hplaces, if_pos (hlt o n ho)])]
  have hnext : List.Forall₂ (fun (next next' : NextState) =>
      nodes[next.signal]? = some next'.signal ∧ next.reset = next'.reset)
      g.nextStates copy.nextStates := by
    refine forall₂_and ?_ ?_
    · have hsignals := Images.forall₂_iff.1 hregister
      rwa [← hmatched.signals, List.forall₂_map_left_iff, List.forall₂_map_right_iff] at hsignals
    · have heq := List.forall₂_eq_eq_eq.symm ▸ hresets.symm
      rwa [← hmatched.resets, List.forall₂_map_left_iff, List.forall₂_map_right_iff] at heq
  unfold copyOutputs
  refine congrArg₂ (fun (x y : Action Network PUnit) => x >>= fun _ => y) ?_ ?_
  · exact (forM_congr ((Images.forall₂_iff.1 hprimary).imp fun o n ho => by rw [hentry ho])).symm
  · exact (forM_congr (hnext.imp fun next next' h => by rw [hentry h.1, h.2])).symm

/-- The networks are the same but for outputs and their uses. -/
structure SameBesideOutputs (net net' : Network) : Prop where
  nodes : net'.graph.nodes = net.graph.nodes
  covers : net'.graph.covers = net.graph.covers
  toInputs : net'.graph.toInputs = net.graph.toInputs
  gateCover : net'.gateCover = net.gateCover

theorem copyOutputs_leaves (g : Graph) (nodes : NodeMap NodeId) (net : Network) :
    (copyOutputs g nodes).Leaves net fun _ => SameBesideOutputs net := by
  have hprimary : ∀ n net', SameBesideOutputs net net' →
      (addPrimaryOutput n).Leaves net' fun _ => SameBesideOutputs net := fun n net' h =>
    .get_bind (.lift_bind fun _ _ => .require_bind fun _ => .lift_bind fun _ _ =>
      .set_bind (.pure { h with }))
  have hregister : ∀ n reset net', SameBesideOutputs net net' →
      (addRegisterInput n reset).Leaves net' fun _ => SameBesideOutputs net := fun n reset net' h =>
    .get_bind (.lift_bind fun _ _ => .require_bind fun _ => .lift_bind fun _ _ =>
      .set_bind (.pure { h with }))
  refine (Action.Leaves.forM (SameBesideOutputs net) ?_ ⟨rfl, rfl, rfl, rfl⟩).bind
    fun _ net' h => Action.Leaves.forM (SameBesideOutputs net) ?_ h
  · exact fun signal net' h => .lift_bind fun n _ => (hprimary n net' h).bind fun _ _ h => .pure h
  · exact fun state net' h => .lift_bind fun n _ =>
      (hregister n state.reset net' h).bind fun _ _ h => .pure h

end Outputs
end Network
end LogicNet
