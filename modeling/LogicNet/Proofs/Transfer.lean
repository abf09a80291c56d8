import LogicNet.Proofs.Soundness
import LogicNet.Proofs.Walk

/-!
Copying inputs and gates into a network of its own. A copy in progress agrees with the source: every
node that has been placed stands for one of the same value. Inputs are placed in their order; a gate
is placed after its children, and by soundness of building the copy's node for it has its value, a
new one or one shared with a gate that has become alike. The copy never has more uses than the
source.
-/

namespace LogicNet

/-- The targets are where the sources have gone, one after the other. -/
def Images (nodes : NodeMap NodeId) (sources targets : List NodeId) : Prop :=
  targets.map some = sources.map (nodes[·]?)

/-- The node has gone somewhere. -/
def Placed (nodes : NodeMap NodeId) (o : NodeId) : Prop := ∃ n, nodes[o]? = some n

section Images

variable {nodes : NodeMap NodeId} {sources targets : List NodeId} {o n : NodeId}

theorem getElem?_insert_node (nodes : NodeMap NodeId) (o n other : NodeId) :
    (nodes.insert o n)[other]? = if other = o then some n else nodes[other]? := by
  rw [Std.ExtTreeMap.getElem?_insert]
  simp only [Std.LawfulEqCmp.compare_eq_iff_eq, eq_comm (a := o)]

theorem Placed.insert (h : Placed nodes o) (other n : NodeId) :
    Placed (nodes.insert other n) o := by
  obtain ⟨m, hm⟩ := h
  rw [Placed]
  simp only [getElem?_insert_node]
  split
  · exact ⟨n, rfl⟩
  · exact ⟨m, hm⟩

theorem Placed.inserted (nodes : NodeMap NodeId) (o n : NodeId) : Placed (nodes.insert o n) o :=
  ⟨n, by rw [getElem?_insert_node, if_pos rfl]⟩

/-- Placing something new moves nothing else. -/
theorem insert_node_eq_some_iff (ho : ¬ Placed nodes o) (p m : NodeId) :
    (nodes.insert o n)[p]? = some m ↔ (p = o ∧ m = n) ∨ nodes[p]? = some m := by
  rw [getElem?_insert_node]
  split
  · next heq =>
      subst heq
      have hnone : nodes[p]? ≠ some m := fun hm => ho ⟨m, hm⟩
      simp [hnone, eq_comm]
  · next hne => simp [hne]

namespace Images

theorem nil (nodes : NodeMap NodeId) : Images nodes [] [] := rfl

theorem length (h : Images nodes sources targets) : targets.length = sources.length := by
  have hlength := congrArg List.length h
  rwa [List.length_map, List.length_map] at hlength

theorem forall₂_iff : Images nodes sources targets ↔
    List.Forall₂ (fun o n => nodes[o]? = some n) sources targets := by
  rw [Images, eq_comm, ← List.forall₂_eq_eq_eq, List.forall₂_map_left_iff,
    List.forall₂_map_right_iff]

theorem snoc (h : Images nodes sources targets) (hn : nodes[o]? = some n) :
    Images nodes (sources ++ [o]) (targets ++ [n]) := by
  rw [Images, List.map_append, List.map_append, h]
  simp [hn]

theorem insert (h : Images nodes sources targets) (n : NodeId) (ho : o ∉ sources) :
    Images (nodes.insert o n) sources targets := by
  rw [Images, h]
  apply List.map_congr_left
  intro source hsource
  rw [getElem?_insert_node, if_neg]
  rintro rfl
  exact ho hsource

theorem append {sources' targets' : List NodeId} (h : Images nodes sources targets)
    (h' : Images nodes sources' targets') :
    Images nodes (sources ++ sources') (targets ++ targets') := by
  rw [Images, List.map_append, List.map_append, h, h']

theorem exists_source (h : Images nodes sources targets) (hn : n ∈ targets) :
    ∃ o ∈ sources, nodes[o]? = some n := by
  have hmem : some n ∈ sources.map (nodes[·]?) := h ▸ List.mem_map_of_mem hn
  obtain ⟨o, ho, heq⟩ := List.mem_map.1 hmem
  exact ⟨o, ho, heq⟩

theorem exists_target (h : Images nodes sources targets) (ho : o ∈ sources) :
    ∃ n ∈ targets, nodes[o]? = some n := by
  have hmem : nodes[o]? ∈ targets.map some := by
    rw [h]
    exact List.mem_map_of_mem ho
  obtain ⟨n, hn, heq⟩ := List.mem_map.1 hmem
  exact ⟨n, hn, heq.symm⟩

theorem placed (h : Images nodes sources targets) (ho : o ∈ sources) : Placed nodes o := by
  obtain ⟨n, _, hn⟩ := h.exists_target ho
  exact ⟨n, hn⟩

/-- Where things have gone stays as further things are placed. -/
theorem mono {nodes' : NodeMap NodeId} (h : Images nodes sources targets)
    (hmono : ∀ o n : NodeId, nodes[o]? = some n → nodes'[o]? = some n) :
    Images nodes' sources targets := by
  rw [Images, h]
  apply List.map_congr_left
  intro o ho
  obtain ⟨n, hn⟩ := h.placed ho
  rw [hn, hmono o n hn]

end Images
end Images

namespace Network

/-- Children are found exactly where they have gone. -/
theorem Copying.mapM_child_iff {copying : Copying} {n : NodeId} {children images : List NodeId} :
    (children.mapM (copying.child n) : Except Fault (List NodeId)) = .ok images ↔
      Images copying.nodes children images := by
  have hchild : ∀ child image, copying.child n child = .ok image ↔
      copying.nodes[child]? = some image := fun child image => by
    rw [Copying.child]
    split <;> simp_all
  simp only [mapM_except_eq_ok_iff, hchild, Images.forall₂_iff]

/-- Only the constants have gone somewhere at first, each to itself. -/
theorem Copying.constants_eq_some_iff {o n : NodeId} : Copying.constants[o]? = some n ↔
    ∃ value : Bool, o = Graph.constant value ∧ n = Graph.constant value := by
  simp only [Copying.constants, getElem?_insert_node]
  constructor
  · intro ho
    split at ho
    · next heq =>
        cases ho
        exact ⟨true, heq, rfl⟩
    · split at ho
      · next heq =>
          cases ho
          exact ⟨false, heq, rfl⟩
      · simp at ho
  · rintro ⟨value, rfl, rfl⟩
    cases value <;> rfl

/-- The copy has, for every node placed so far, a node of the same value. -/
structure Agrees (g : Graph) (nodes : NodeMap NodeId) (copy : Network) : Prop where
  wellFormed : copy.WellFormed
  shares : copy.Shares
  scratch : copy.scratch = Scratch.clear copy.graph.size
  lt_size : ∀ o n : NodeId, nodes[o]? = some n → n < copy.graph.size
  value : ∀ o n : NodeId, nodes[o]? = some n → ∀ v, copy.graph.value v n = g.value v o

namespace Agrees

variable {g : Graph} {nodes : NodeMap NodeId} {copy copy' : Network}

theorem constants (hg : g.WellFormed) (options : Options) :
    Agrees g Copying.constants (Network.new options) := by
  have hwell := WellFormed.new options
  refine ⟨hwell, Shares.new options, rfl, fun o n ho => ?_, fun o n ho v => ?_⟩
  · obtain ⟨value, _, rfl⟩ := Copying.constants_eq_some_iff.1 ho
    show Graph.constant value < 2
    cases value <;> decide
  · obtain ⟨value, rfl, rfl⟩ := Copying.constants_eq_some_iff.1 ho
    rw [Graph.value_constant hwell.graph, Graph.value_constant hg]

/-- What has been placed stays so as the copy is extended. -/
theorem extend (h : Agrees g nodes copy) (hextensions : Relation.ReflTransGen Extension copy copy')
    (hscratch : copy'.scratch = Scratch.clear copy'.graph.size) : Agrees g nodes copy' := by
  obtain ⟨hwell, hshares⟩ := h.shares.of_extensions h.wellFormed hextensions
  have hgrown := grown_of_extensions hextensions
  refine ⟨hwell, hshares, hscratch, fun o n ho => ?_, fun o n ho v => ?_⟩
  · exact Nat.lt_of_lt_of_le (h.lt_size o n ho) hgrown.size_le
  · rw [hgrown.value h.wellFormed.graph hwell.graph v (h.lt_size o n ho), h.value o n ho]

theorem insert (h : Agrees g nodes copy) {o n : NodeId} (hn : n < copy.graph.size)
    (hvalue : ∀ v, copy.graph.value v n = g.value v o) : Agrees g (nodes.insert o n) copy := by
  refine ⟨h.wellFormed, h.shares, h.scratch, fun other m hm => ?_, fun other m hm v => ?_⟩
  · rw [getElem?_insert_node] at hm
    split at hm
    · cases hm
      exact hn
    · exact h.lt_size other m hm
  · rw [getElem?_insert_node] at hm
    split at hm
    · next heq =>
        cases hm
        rw [heq, hvalue]
    · exact h.value other m hm v

theorem lt_size_of_images (h : Agrees g nodes copy) {sources targets : List NodeId}
    (himages : Images nodes sources targets) : ∀ n ∈ targets, n < copy.graph.size := by
  intro n hn
  obtain ⟨o, _, ho⟩ := himages.exists_source hn
  exact h.lt_size o n ho

/-- Nodes and their images have the same values. -/
theorem map_value (h : Agrees g nodes copy) {sources targets : List NodeId}
    (himages : Images nodes sources targets) (v : Nat → Bool) :
    targets.map (copy.graph.value v) = sources.map (g.value v) := by
  have hsome :
      (targets.map (copy.graph.value v)).map some = (sources.map (g.value v)).map some := by
    calc
      (targets.map (copy.graph.value v)).map some
          = (targets.map some).map (Option.map (copy.graph.value v)) := by simp
      _ = sources.map fun o => (nodes[o]?).map (copy.graph.value v) := by
          rw [himages, List.map_map]
          rfl
      _ = (sources.map (g.value v)).map some := by
          rw [List.map_map]
          apply List.map_congr_left
          intro o ho
          obtain ⟨n, hn⟩ := himages.placed ho
          rw [hn, Option.map_some, h.value o n hn]
          rfl
  exact (List.map_inj_right fun _ _ => Option.some.inj).1 hsome

end Agrees

theorem clear_grow (size : Nat) : (Scratch.clear size).grow = Scratch.clear (size + 1) := by
  simp [Scratch.clear, Scratch.grow, Array.replicate_succ]

/-- A new input of the copy stands for the next input of the source. -/
theorem Agrees.input {g : Graph} {nodes : NodeMap NodeId} {copy copy' : Network}
    (h : Agrees g nodes copy) (hg : g.WellFormed) (hgrowth : Growth copy copy')
    (hscratch : copy'.scratch = copy.scratch.grow)
    (hsize : copy'.graph.size = copy.graph.size + 1)
    (hinputs : copy'.graph.inputs = copy.graph.inputs ++ [copy.graph.size]) {o : NodeId}
    (ho : g.inputs[copy.graph.inputs.length]? = some o) :
    Agrees g (nodes.insert o copy.graph.size) copy' := by
  have hextend : Agrees g nodes copy' := by
    refine h.extend (.single (.growth hgrowth)) ?_
    rw [hscratch, h.scratch, clear_grow, hsize]
  refine hextend.insert (by rw [hsize]; exact Nat.lt_succ_self _) fun v => ?_
  have hnew : copy'.graph.inputs[copy.graph.inputs.length]? = some copy.graph.size := by
    simp [hinputs]
  rw [Graph.value_input hextend.wellFormed.graph hnew, Graph.value_input hg ho]

/-- The inputs of the copy stand for the given inputs of the source, and nothing is used yet. -/
structure Imported (g : Graph) (primary registers : List NodeId) (nodes : NodeMap NodeId)
    (copy : Network) : Prop where
  agrees : Agrees g nodes copy
  constants : ∀ value, Placed nodes (Graph.constant value)
  primaryInputs : Images nodes primary copy.graph.primaryInputs
  registerOutputs : Images nodes registers copy.graph.registerOutputs
  unused : copy.graph.references = []
  gateCover : copy.gateCover = fun _ => none

theorem notMem_of_nodup_append {before after : List NodeId} {o : NodeId}
    (h : (before ++ o :: after).Nodup) : o ∉ before :=
  fun hmem => (List.nodup_append.1 h).2.2 o hmem o List.mem_cons_self rfl

namespace Imported

variable {g : Graph} {primary registers rest : List NodeId} {nodes : NodeMap NodeId}
  {copy : Network}

theorem start (hg : g.WellFormed) (options : Options) :
    Imported g [] [] Copying.constants (Network.new options) where
  agrees := .constants hg options
  constants value := by
    cases value with
    | false => exact (Placed.inserted _ 0 0).insert 1 1
    | true => exact .inserted _ 1 1
  primaryInputs := .nil _
  registerOutputs := .nil _
  unused := rfl
  gateCover := rfl

/-- The next input, of whichever kind. -/
theorem next (h : Imported g primary registers nodes copy) (hg : g.WellFormed) {o : NodeId}
    {after primary' registers' : List NodeId} (ho : g.inputs = primary ++ registers ++ o :: after)
    {g' : Graph} (hgrowth : Growth copy { copy.addInputNode with graph := g' })
    (hnodes : g'.nodes = copy.graph.nodes.push copy.graph.inputNode)
    (hinputs : g'.inputs = copy.graph.inputs ++ [copy.graph.size])
    (houtputs : g'.outputs = copy.graph.outputs)
    (hprimary : Images (nodes.insert o copy.graph.size) primary' g'.primaryInputs)
    (hregisters : Images (nodes.insert o copy.graph.size) registers' g'.registerOutputs) :
    Imported g primary' registers' (nodes.insert o copy.graph.size)
      { copy.addInputNode with graph := g' } where
  agrees := by
    refine h.agrees.input hg hgrowth (by simp) (by simp [Graph.size, hnodes]) hinputs ?_
    have hlength : copy.graph.inputs.length = (primary ++ registers).length := by
      rw [← Inputs.primaryInputs_append, List.length_append, List.length_append,
        h.primaryInputs.length, h.registerOutputs.length]
    rw [hlength, ho]
    simp
  constants value := (h.constants value).insert _ _
  primaryInputs := hprimary
  registerOutputs := hregisters
  unused := by
    rw [Graph.references_of_input hnodes houtputs, h.unused]
  gateCover := by
    rw [addInputNode_gateCover, h.gateCover]

theorem primaryInput (h : Imported g primary [] nodes copy) (hg : g.WellFormed) {o : NodeId}
    (ho : g.primaryInputs = primary ++ o :: rest) :
    addPrimaryInput.Yields copy fun n =>
      Imported g (primary ++ [o]) [] (nodes.insert o n) := by
  have hnone : copy.graph.registerOutputs = [] :=
    List.length_eq_zero_iff.1 h.registerOutputs.length
  have hfirst := h.agrees.wellFormed.graph.indexed.first_iff.1 hnone
  have hinputs : g.inputs = primary ++ [] ++ o :: (rest ++ g.registerOutputs) := by
    simp [← g.primaryInputs_append, ho]
  have hnodup := hg.inputs_nodup
  rw [hinputs] at hnodup
  obtain ⟨hanswer, hstate⟩ := addPrimaryInput_run hfirst
  refine ⟨_, hanswer, ?_⟩
  rw [hstate]
  refine h.next hg hinputs (.primaryInput hfirst) rfl rfl rfl ?_ ?_
  · rw [Graph.pushPrimaryInput_toInputs, Inputs.primaryInputs_pushPrimary hfirst]
    refine (h.primaryInputs.insert _ ?_).snoc (by rw [getElem?_insert_node, if_pos rfl])
    simpa using notMem_of_nodup_append hnodup
  · rw [Graph.pushPrimaryInput_toInputs, Inputs.registerOutputs_pushPrimary hfirst]
    exact .nil _

theorem registerOutput (h : Imported g g.primaryInputs registers nodes copy) (hg : g.WellFormed)
    {o : NodeId} (ho : g.registerOutputs = registers ++ o :: rest) :
    addRegisterOutput.Yields copy fun n =>
      Imported g g.primaryInputs (registers ++ [o]) (nodes.insert o n) := by
  have hinputs : g.inputs = g.primaryInputs ++ registers ++ o :: rest := by
    simp [← g.primaryInputs_append, ho]
  have hnodup := hg.inputs_nodup
  rw [hinputs] at hnodup
  have hnew := notMem_of_nodup_append hnodup
  rw [List.mem_append, not_or] at hnew
  have hle := h.agrees.wellFormed.graph.indexed.primary_le
  have hadded : { copy.addInputNode with graph := copy.graph.pushInput } = copy.addInputNode := by
    rw [← addInputNode_graph]
  have hgrowth : Growth copy { copy.addInputNode with graph := copy.graph.pushInput } := by
    rw [hadded]
    exact .registerOutput
  obtain ⟨hanswer, hstate⟩ := addRegisterOutput_run copy
  refine ⟨_, hanswer, ?_⟩
  rw [hstate, ← hadded]
  refine h.next hg hinputs hgrowth rfl rfl rfl ?_ ?_
  · rw [Graph.pushInput_toInputs, Inputs.primaryInputs_push hle]
    exact h.primaryInputs.insert _ hnew.1
  · rw [Graph.pushInput_toInputs, Inputs.registerOutputs_push hle]
    exact (h.registerOutputs.insert _ hnew.2).snoc (by rw [getElem?_insert_node, if_pos rfl])

end Imported

/-- All inputs are placed, in their order. -/
theorem copyInputs_yields {g : Graph} (hg : g.WellFormed) (options : Options) :
    (copyInputs g).Yields (Network.new options)
      (Imported g g.primaryInputs g.registerOutputs) := by
  have hprimary : (Copying.inputs addPrimaryInput Copying.constants g.primaryInputs).Yields
      (Network.new options) (Imported g g.primaryInputs []) := by
    refine Action.Yields.foldlM (fun done => Imported g done []) ?_ (.start hg options)
    intro done o rest nodes copy ho h
    exact .bind (h.primaryInput hg ho) fun n copy' h' => .pure h'
  refine hprimary.bind fun nodes copy h => Action.Yields.foldlM (Imported g g.primaryInputs) ?_ h
  intro done o rest nodes copy ho h
  exact .bind (h.registerOutput hg ho) fun n copy' h' => .pure h'

/-- What meeting a request leaves as it is, and what it adds. -/
theorem Met.beside {net net' : Network} {request : Request} {n : NodeId}
    (h : Met net request n net') :
    (∀ list : Terminal, net'.graph.terminals list = net.graph.terminals list) ∧
      net'.graph.references.length ≤ net.graph.references.length + request.children.length ∧
      (net.scratch = Scratch.clear net.graph.size →
        net'.scratch = Scratch.clear net'.graph.size) := by
  cases h with
  | constant cover childless named => exact ⟨fun _ => rfl, Nat.le_add_right _ _, id⟩
  | shared n accepted found => exact ⟨fun _ => rfl, Nat.le_add_right _ _, id⟩
  | created fanouts accepted fresh raised =>
      refine ⟨fun list => ?_, ?_, fun hscratch => ?_⟩
      · rw [record_graph]
        cases list <;> rfl
      · rw [record_graph]
        exact Nat.le_of_eq (Graph.length_references_addNode _ _)
      · rw [record_scratch, record_graph]
        simp only [addNode, hscratch, clear_grow, Graph.size_addNode]

/-- The uses that a new node makes are counted if all uses together are few enough. -/
theorem WellFormed.raiseAll_isOk {net : Network} (h : net.WellFormed) {children : List NodeId}
    (hchildren : ∀ child ∈ children, child < net.graph.size)
    (hroom : net.graph.references.length + children.length < UInt32.size) :
    ∃ fanouts, Fanouts.raiseAll (net.fanouts.push 0) children = .ok fanouts := by
  refine Fanouts.raiseAll_isOk (fun n hn => ?_) fun n => ?_
  · rw [Array.size_push, h.fanouts_size]
    exact Nat.lt_succ_of_lt (hchildren n hn)
  · have huses : net.graph.uses n ≤ net.graph.references.length := List.count_le_length
    have hcount : children.count n ≤ children.length := List.count_le_length
    rw [Fanouts.get_push_zero, h.fanouts_get]
    omega

/-- A request with few enough uses beside it is met. -/
theorem node_yields {net : Network} (hwell : net.WellFormed) {children : List NodeId} {c : CoverId}
    (accepted : net.graph.Accepts ⟨children, c⟩)
    (hroom : net.graph.references.length + children.length < UInt32.size) :
    (node children c).Yields net (Met net ⟨children, c⟩) := by
  obtain ⟨cover, hcover⟩ : ∃ cover, net.graph.covers[c]? = some cover :=
    ⟨_, Array.getElem?_eq_getElem accepted.cover_lt⟩
  have hchildren : ¬ children.isEmpty = true := by simpa using accepted.children_ne_nil
  have hcheck := (checkAll_eq_ok_iff net.graph children).2 accepted.child_lt
  obtain ⟨fanouts, hraised⟩ := hwell.raiseAll_isOk accepted.child_lt hroom
  have hanswer : ∃ n, (node children c net).answer = .ok n := by
    unfold node
    rw [Action.get_bind_run, (Graph.cover_eq_ok_iff _ _ _).2 hcover, Action.lift_ok_bind_run,
      if_neg hchildren, Action.require_bind_run accepted.length_le, hcheck,
      Action.lift_ok_bind_run]
    cases net.shared? ⟨children, c⟩ with
    | some n => exact ⟨n, by simp only [Action.note_bind_run, Action.pure_run]⟩
    | none =>
        have hcreate := createNode_run ⟨children, c⟩ net
        simp only [hraised] at hcreate
        exact ⟨_, hcreate.1⟩
  obtain ⟨n, hn⟩ := hanswer
  exact ⟨n, hn, node_met hn⟩

/-- The gates before a place of the order have been copied. -/
structure Gated (g : Graph) (before : List NodeId) (copying : Copying) (copy : Network) :
    Prop where
  agrees : Agrees g copying.nodes copy
  covered : Copying.Covered g copying copy
  placed : ∀ o < g.size, g.isGate o = false ∨ o ∈ before → Placed copying.nodes o
  primaryInputs : Images copying.nodes g.primaryInputs copy.graph.primaryInputs
  registerOutputs : Images copying.nodes g.registerOutputs copy.graph.registerOutputs
  outputs : copy.graph.outputs = []
  uses_le : copy.graph.references.length ≤ (before.flatMap g.childrenOf).length

namespace Gated

variable {g : Graph} {before : List NodeId} {copying : Copying} {copy : Network}

/-- Inputs and constants are all that is there at first. -/
theorem start {nodes : NodeMap NodeId} (hg : g.WellFormed)
    (h : Imported g g.primaryInputs g.registerOutputs nodes copy) :
    Gated g [] ⟨nodes, ∅⟩ copy where
  agrees := h.agrees
  covered := ⟨fun c c' hc => by simp at hc, h.gateCover⟩
  placed o _ ho := by
    rcases ho with ho | ho
    · by_cases hconstant : 1 < o
      · have hinput : o ∈ g.inputs := by
          by_contra hinput
          rw [(hg.isGate_iff o).2 ⟨hconstant, hinput⟩] at ho
          cases ho
        rcases g.mem_inputs_iff.1 hinput with hinput | hinput
        · exact h.primaryInputs.placed hinput
        · exact h.registerOutputs.placed hinput
      · rcases Nat.le_one_iff_eq_zero_or_eq_one.1 (Nat.le_of_not_lt hconstant) with rfl | rfl
        · exact h.constants false
        · exact h.constants true
    · cases ho
  primaryInputs := h.primaryInputs
  registerOutputs := h.registerOutputs
  outputs := (List.append_eq_nil_iff.1 h.unused).2
  uses_le := by rw [h.unused]; rfl

/-- Covers more change nothing else. -/
theorem recover (h : Gated g before copying copy) {copying' : Copying} {covers : Array Cover}
    (hnodes : copying'.nodes = copying.nodes)
    (hagrees : Agrees g copying.nodes { copy with graph.covers := covers })
    (hcovered : Copying.Covered g copying' { copy with graph.covers := covers }) :
    Gated g before copying' { copy with graph.covers := covers } where
  agrees := hnodes ▸ hagrees
  covered := hcovered
  placed := hnodes ▸ h.placed
  primaryInputs := hnodes ▸ h.primaryInputs
  registerOutputs := hnodes ▸ h.registerOutputs
  outputs := h.outputs
  uses_le := h.uses_le

/-- A cover of the source is copied, if it has not been. -/
theorem cover (h : Gated g before copying copy) (hg : g.WellFormed) {c : CoverId} {cover : Cover}
    (hcover : g.covers[c]? = some cover) :
    (copying.cover g c).Yields copy fun result copy' => Gated g before result.2 copy' ∧
      result.2.nodes = copying.nodes ∧ copy'.graph.covers[result.1]? = some cover := by
  have tidy := hg.tidy c cover hcover
  have hrun : ∃ result, (copying.cover g c copy).answer = .ok result ∧
      ((copying.cover g c copy).state = copy ∨
        (copying.cover g c copy).state = { copy with graph := copy.graph.addCover cover }) := by
    unfold Copying.cover
    cases copying.covers[c]? with
    | some copied => exact ⟨_, rfl, Or.inl rfl⟩
    | none =>
        simp only [(Graph.cover_eq_ok_iff _ _ _).2 hcover, Action.lift_ok_bind_run]
        rw [Action.bind_run_ok (addCover_run tidy copy)]
        exact ⟨_, rfl, Or.inr rfl⟩
  obtain ⟨⟨c', copying'⟩, hanswer, hstate⟩ := hrun
  obtain ⟨hcovered, hnodes, hfound⟩ :=
    (Copying.cover_copied g c copying copy _ hanswer).covered h.covered
  obtain ⟨other, hother, hcopied⟩ := hcovered.covers c c' hfound
  rw [hcover] at hother
  cases hother
  refine ⟨_, hanswer, ?_, hnodes, hcopied⟩
  rcases hstate with hstate | hstate
  · rw [hstate] at hcovered ⊢
    exact h.recover hnodes h.agrees hcovered
  · rw [hstate] at hcovered ⊢
    have hagrees := h.agrees.extend (.single (.growth (.cover cover tidy))) h.agrees.scratch
    exact h.recover hnodes hagrees hcovered

/-- Where a list of nodes that have been placed has gone. -/
theorem children (copying : Copying) (n : NodeId) {children : List NodeId}
    (hchildren : ∀ child ∈ children, Placed copying.nodes child) :
    ∃ images, (children.mapM (copying.child n) : Except Fault (List NodeId)) = .ok images ∧
      Images copying.nodes children images := by
  obtain ⟨images, hmap⟩ : ∃ images,
      (children.mapM (copying.child n) : Except Fault (List NodeId)) = .ok images := by
    refine exists_mapM_except fun child hchild => ?_
    obtain ⟨copied, hcopied⟩ := hchildren child hchild
    exact ⟨copied, by rw [Copying.child, hcopied]⟩
  exact ⟨images, hmap, Copying.mapM_child_iff.1 hmap⟩

/-- The node that meets the request for a copy of a gate stands for the gate. -/
theorem met (h : Gated g before copying copy) (hg : g.WellFormed) {n : NodeId} {source : Node}
    (hsource : g.nodes[n]? = some source) (hgate : g.isGate n = true) {cover : Cover}
    (hcover : g.covers[source.cover]? = some cover) {c : CoverId}
    (hcopied : copy.graph.covers[c]? = some cover) {images : List NodeId}
    (himages : Images copying.nodes source.children images) {copied : NodeId} {copy' : Network}
    (hmet : Met copy ⟨images, c⟩ copied copy') :
    Gated g (before ++ [n]) { copying with nodes := copying.nodes.insert n copied } copy' := by
  obtain ⟨hterminals, hreferences, hscratch⟩ := hmet.beside
  have hne := (hg.arity n (Graph.lt_size_of_nodes hsource) hgate).1
  rw [Graph.childrenOf_eq hsource] at hne
  have hinput := ((hg.isGate_iff n).1 hgate).2
  have hgrowth := hmet.growths
  have hextend : Agrees g copying.nodes copy' :=
    h.agrees.extend (extensions_of_growth hgrowth) (hscratch h.agrees.scratch)
  obtain ⟨hlt, hvalue⟩ := hmet.computes h.agrees.wellFormed h.agrees.shares hcopied
  have hcovered := h.covered.of_growth hgrowth
  exact
    { agrees := hextend.insert hlt fun v => by
        rw [hvalue v, h.agrees.map_value himages v, cover.onValues_of_ne_nil (by simpa using hne),
          Graph.value_gate hg hsource hcover hgate]
      covered := ⟨hcovered.covers, hcovered.gateCover⟩
      placed := fun o ho hplaced => by
        by_cases heq : o = n
        · subst heq
          exact .inserted _ _ _
        · refine (h.placed o ho (hplaced.imp_right fun hmem => ?_)).insert _ _
          simpa [heq] using hmem
      primaryInputs := by
        rw [show copy'.graph.primaryInputs = _ from hterminals .primaryInput]
        exact h.primaryInputs.insert copied fun hmem => hinput (g.mem_inputs_iff.2 (.inl hmem))
      registerOutputs := by
        rw [show copy'.graph.registerOutputs = _ from hterminals .registerOutput]
        exact h.registerOutputs.insert copied fun hmem => hinput (g.mem_inputs_iff.2 (.inr hmem))
      outputs := (hterminals .output).trans h.outputs
      uses_le := by
        have hbefore := h.uses_le
        rw [himages.length] at hreferences
        rw [List.flatMap_append, List.length_append, List.flatMap_singleton,
          Graph.childrenOf_eq hsource]
        omega }

/-- A gate is copied once its children have been. -/
theorem gate (h : Gated g before copying copy) (hg : g.WellFormed) {n : NodeId} (hn : n < g.size)
    (hgate : g.isGate n = true) (hchildren : ∀ child ∈ g.childrenOf n, Placed copying.nodes child)
    (hroom : ((before ++ [n]).flatMap g.childrenOf).length < UInt32.size) :
    (copying.gate g n).Yields copy (Gated g (before ++ [n])) := by
  obtain ⟨source, hsource⟩ := Graph.exists_node hn
  obtain ⟨cover, hcover⟩ : ∃ cover, g.covers[source.cover]? = some cover :=
    ⟨_, Array.getElem?_eq_getElem (hg.cover_lt n source hsource)⟩
  obtain ⟨hne, hlong⟩ := hg.arity n hn hgate
  rw [Graph.childrenOf_eq hsource] at hchildren hne hlong
  obtain ⟨images, hmap, himages⟩ := children copying n hchildren
  refine .lift_bind ((Graph.node_eq_ok_iff g n source).2 hsource) (.lift_bind hmap ?_)
  refine (h.cover hg hcover).bind fun ⟨c', copying'⟩ middle ⟨h', hnodes, hcopied⟩ => ?_
  rw [← hnodes] at himages
  have accepted : middle.graph.Accepts ⟨images, c'⟩ :=
    { cover_lt := (Array.getElem?_eq_some_iff.1 hcopied).1
      children_ne_nil := by
        rw [← List.length_pos_iff, himages.length]
        exact List.length_pos_iff.2 hne
      length_le := by rw [himages.length]; exact hlong
      child_lt := h'.agrees.lt_size_of_images himages }
  have hspare : middle.graph.references.length + images.length < UInt32.size := by
    have hbefore := h'.uses_le
    rw [List.flatMap_append, List.length_append, List.flatMap_singleton,
      Graph.childrenOf_eq hsource] at hroom
    rw [himages.length]
    omega
  exact (node_yields h'.agrees.wellFormed accepted hspare).bind fun copied last hmet =>
    .pure (h'.met hg hsource hgate hcover hcopied himages hmet)

end Gated

/-- All gates of the order are copied, one after the other. -/
theorem gates_yields {g : Graph} (hg : g.WellFormed) {order : List NodeId}
    (hordered : Postordered g.childrenOf order) (hlt : ∀ n ∈ order, n < g.size)
    (hroom : g.references.length < UInt32.size) {nodes : NodeMap NodeId} {copy : Network}
    (h : Imported g g.primaryInputs g.registerOutputs nodes copy) :
    ((order.filter g.isGate).foldlM (Copying.gate g) ⟨nodes, ∅⟩).Yields copy
      (Gated g (order.filter g.isGate)) := by
  refine Action.Yields.foldlM (Gated g) ?_ (.start hg h)
  intro before n rest copying copy hsplit h
  have hmem : n ∈ order.filter g.isGate := by
    rw [hsplit]
    exact List.mem_append_right before List.mem_cons_self
  obtain ⟨hn, hgate⟩ := List.mem_filter.1 hmem
  refine h.gate hg (hlt n hn) hgate (fun child hchild => ?_) ?_
  · refine h.placed child (hg.bounded n child hchild) ?_
    cases hkind : g.isGate child with
    | false => exact Or.inl rfl
    | true => exact Or.inr (hordered.mem_of_filter hsplit hchild hkind)
  · have hnodup : (before ++ [n]).Nodup := by
      have hall := hordered.nodup.filter g.isGate
      rw [hsplit, List.append_cons] at hall
      exact (List.nodup_append.1 hall).1
    have hle := Graph.length_flatMap_childrenOf_le hnodup fun m hm => hlt m ?_
    · omega
    · have hm : m ∈ order.filter g.isGate := by
        rw [hsplit, List.append_cons]
        exact List.mem_append_left rest hm
      exact (List.mem_filter.1 hm).1

end Network
end LogicNet
