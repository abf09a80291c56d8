import LogicNet.Proofs.Outcome
import LogicNet.Proofs.Run
import LogicNet.Proofs.Walk

/-!
What one call tells the listeners. A call that builds tells of each gate that it has appended,
refused or not, and of nothing else; whatever walks or looks up tells of nothing; and a substitution
that is met tells of each node whose children it has replaced. Beside this stands what is true of
the marks along the way: nothing sets one ahead of the traversal number but a caller who asks for
it.
-/

namespace LogicNet

section Fresh

variable {s : Scratch}

theorem Scratch.Fresh.grow (h : s.Fresh) : s.grow.Fresh := by
  intro mark hmark
  rcases Array.mem_push.1 hmark with hmark | rfl
  · exact h mark hmark
  · exact Nat.zero_le _

theorem Scratch.Fresh.setMark (h : s.Fresh) (n : NodeId) {mark : UInt32}
    (hle : mark.toNat ≤ s.traversal.toNat) : (s.setMark n mark).Fresh := by
  intro other hother
  rcases Array.mem_or_eq_of_mem_setIfInBounds hother with hother | rfl
  · exact h other hother
  · exact hle

theorem Scratch.Fresh.clearMarks : s.clearMarks.Fresh := by
  intro mark hmark
  obtain ⟨_, _, rfl⟩ := Array.mem_map.1 hmark
  exact Nat.zero_le _

/-- A walk sets no mark but its own. -/
theorem Walk.step_marks (g : Graph) (pass : UInt32) (walk : Walk) :
    ∀ mark ∈ (walk.step g pass).marks, mark ∈ walk.marks ∨ mark = pass := by
  intro mark hmark
  unfold step at hmark
  split at hmark
  · exact Or.inl hmark
  · split at hmark
    · exact Or.inl hmark
    · split at hmark
      · exact Or.inl hmark
      · exact Array.mem_or_eq_of_mem_setIfInBounds hmark

theorem Walk.run_marks (g : Graph) (pass : UInt32) (fuel : Nat) (walk : Walk) :
    ∀ mark ∈ (Walk.run g pass fuel walk).marks, mark ∈ walk.marks ∨ mark = pass := by
  induction fuel generalizing walk with
  | zero => exact fun _ hmark => Or.inl hmark
  | succ fuel ih =>
      intro mark hmark
      rw [Walk.run] at hmark
      split at hmark
      · exact Or.inl hmark
      · rcases ih _ mark hmark with hmark | hpass
        · exact walk.step_marks g pass mark hmark
        · exact Or.inr hpass

end Fresh

/-- Silent, and no mark gets ahead of the traversal number. -/
def Tame {α : Type} (x : Action Scratch α) : Prop :=
  x.Logs fun s s' h => (s.Fresh → s'.Fresh) ∧ h = []

namespace Tame

variable {g : Graph}

theorem logging :
    Action.Logging fun (s s' : Scratch) (h : List Delivery) => (s.Fresh → s'.Fresh) ∧ h = [] where
  refl _ := ⟨id, rfl⟩
  trans h h' := ⟨fun hs => h'.1 (h.1 hs), by rw [h.2, h'.2]; rfl⟩

theorem bind {α β : Type} {x : Action Scratch α} {f : α → Action Scratch β} (hx : Tame x)
    (hf : ∀ a, Tame (f a)) : Tame (x >>= f) := Action.Logs.bind logging hx hf

theorem pure {α : Type} (a : α) : Tame (Pure.pure a) := Action.Logs.pure logging a

theorem look : Tame (get : Action Scratch Scratch) := Action.Logs.get logging

theorem lift {α : Type} (x : Except Fault α) : Tame (liftM x : Action Scratch α) :=
  Action.Logs.lift logging x

theorem require (condition : Prop) [Decidable condition] (fault : Fault) :
    Tame (Action.require condition fault) := Action.Logs.require logging condition fault

theorem note (note : Note) : Tame (Action.note note) := Action.Logs.note logging note

theorem update {f : Scratch → Scratch} (h : ∀ s, s.Fresh → (f s).Fresh) :
    Tame (modify f : Action Scratch PUnit) := fun s => ⟨h s, rfl⟩

theorem nextTraversal : Tame Scratch.nextTraversal := by
  intro s
  refine .get_bind (.require_bind ⟨id, rfl⟩ fun hroom => .set_bind ⟨fun h mark hmark => ?_, rfl⟩)
  exact (h mark hmark).trans ((Scratch.toNat_next hroom).symm ▸ Nat.le_succ _)

/-- A refused walk may have taken a traversal number, but it has set no mark. -/
theorem postorder (starts : List NodeId) : Tame (g.postorder starts) := by
  intro s
  unfold Graph.postorder
  by_cases hroom : s.traversal.toNat + 1 < UInt32.size
  · have hnext := (Tame.nextTraversal s).1
    rw [Action.Ends, Action.bind_run_ok (Scratch.nextTraversal_run hroom)]
    rw [Scratch.nextTraversal_run hroom] at hnext
    have hwalk : Action.Ends (do
        g.checkAll starts.reverse
        let walk := Walk.run g (s.traversal + 1) (g.walkFuel starts) ⟨(← get).marks, starts, #[]⟩
        modify fun s => { s with marks := walk.marks }
        Action.note (.walked starts.length walk.listed.size)
        return walk.listed.toList : Action Scratch (List NodeId))
        { s with traversal := s.traversal + 1 } fun s' h => (s.Fresh → s'.Fresh) ∧ h = [] := by
      refine .lift_bind ⟨hnext, rfl⟩ fun _ _ => .get_bind (.modify_bind (.note_bind
        ⟨fun h mark hmark => ?_, rfl⟩))
      rcases Walk.run_marks _ _ _ _ mark hmark with hmark | rfl
      · exact hnext h mark hmark
      · exact Nat.le_refl _
    exact hwalk
  · rw [Action.Ends, Action.bind_run_error (Scratch.nextTraversal_run_full hroom)]
    exact ⟨id, rfl⟩

theorem postorderOfOutputs : Tame g.postorderOfOutputs := postorder _

theorem live : Tame g.live := bind postorderOfOutputs fun _ => pure _

theorem depths : Tame g.depths := bind postorderOfOutputs fun _ => lift _

theorem summary : Tame g.summary :=
  bind depths fun _ => bind (lift _) fun _ => bind (note _) fun _ => pure _

theorem heard_acceptances (values : Array Bool) (order : List NodeId) :
    heard (g.acceptances values order) = [] := by
  have hone : ∀ n values, heard (g.nodeAcceptance n values) = [] := by
    intro n values
    unfold Graph.nodeAcceptance Graph.acceptance
    split
    · split <;> rfl
    · rfl
  rw [Graph.acceptances, heard_flatMap]
  exact List.flatMap_eq_nil_iff.2 fun n _ => hone n _

theorem evaluate (inputs : List Bool) : Tame (g.evaluate inputs) :=
  bind (require _ _) fun _ => bind postorderOfOutputs fun _ => bind (lift _) fun _ =>
    bind (Action.Logs.report logging (heard_acceptances _ _)) fun _ => pure _

theorem evaluateWords (inputs : List Word) : Tame (g.evaluateWords inputs) :=
  bind (require _ _) fun _ => bind postorderOfOutputs fun _ => bind (lift _) fun _ => pure _

end Tame

namespace Graph

variable {g g' : Graph}

/-- The nodes with children from a place on, in the order of their creation. -/
def parentsFrom (g : Graph) (size : Nat) : List NodeId :=
  (List.range' size (g.size - size)).filter fun n => !(g.childrenOf n).isEmpty

theorem parentsFrom_size (g : Graph) : g.parentsFrom g.size = [] := by
  rw [parentsFrom, Nat.sub_self]
  rfl

theorem parentsFrom_append {size : Nat} (hsize : size ≤ g.size) (hle : g.size ≤ g'.size)
    (hnodes : ∀ n < g.size, g'.nodes[n]? = g.nodes[n]?) :
    g'.parentsFrom size = g.parentsFrom size ++ g'.parentsFrom g.size := by
  have hrange : List.range' size (g'.size - size) =
      List.range' size (g.size - size) ++ List.range' g.size (g'.size - g.size) := by
    have hcount : g'.size - size = g.size - size + (g'.size - g.size) := by omega
    have hstart : size + 1 * (g.size - size) = g.size := by omega
    rw [hcount, ← List.range'_append, hstart]
  have hold : ∀ n ∈ List.range' size (g.size - size),
      (!(g'.childrenOf n).isEmpty) = !(g.childrenOf n).isEmpty := by
    intro n hn
    have hlt : n < g.size := by
      have := List.mem_range'_1.1 hn
      omega
    unfold childrenOf
    rw [hnodes n hlt]
  rw [parentsFrom, hrange, List.filter_append, List.filter_congr hold]
  rfl

theorem parentsFrom_of_size_eq (h : g'.size = g.size) : g'.parentsFrom g.size = [] := by
  rw [← h, parentsFrom_size]

theorem parentsFrom_push {node : Node} (h : g'.nodes = g.nodes.push node) :
    g'.parentsFrom g.size = if node.children = [] then [] else [g.size] := by
  have hsize : g'.size = g.size + 1 := by rw [size, h, Array.size_push, size]
  have hchildren : g'.childrenOf g.size = node.children :=
    childrenOf_eq (by simp [h, size])
  rw [parentsFrom, hsize, show g.size + 1 - g.size = 1 by omega]
  by_cases hnil : node.children = [] <;> simp [hchildren, hnil]

end Graph

/-- The nodes that are there stay as they are, and listeners hear of each node with children that is
added, in the order of creation, and of nothing else. -/
structure Network.Tells (net net' : Network) (h : List Delivery) : Prop where
  listeners_eq : net'.listeners = net.listeners
  size_le : net.graph.size ≤ net'.graph.size
  nodes_eq : ∀ n < net.graph.size, net'.graph.nodes[n]? = net.graph.nodes[n]?
  heard_eq : h = (net'.graph.parentsFrom net.graph.size).flatMap fun n =>
    net.listeners.onAdded.map (·, .added n)

/-- Besides, no mark gets ahead of the traversal number. -/
structure Network.Builds (net net' : Network) (h : List Delivery) : Prop where
  tells : net.Tells net' h
  fresh : net.scratch.Fresh → net'.scratch.Fresh

namespace Network

variable {net net' : Network}

namespace Tells

theorem of_nodes_eq (hnodes : net'.graph.nodes = net.graph.nodes)
    (hlisteners : net'.listeners = net.listeners) : net.Tells net' [] := by
  have hsize : net'.graph.size = net.graph.size := congrArg Array.size hnodes
  refine ⟨hlisteners, hsize.ge, fun n _ => by rw [hnodes], ?_⟩
  rw [Graph.parentsFrom_of_size_eq hsize]
  rfl

theorem of_push {node : Node} (hnodes : net'.graph.nodes = net.graph.nodes.push node)
    (hlisteners : net'.listeners = net.listeners) {h : List Delivery}
    (hheard : h = if node.children = [] then [] else
      net.listeners.onAdded.map (·, .added net.graph.size)) : net.Tells net' h := by
  refine ⟨hlisteners, ?_, fun n hn => ?_, ?_⟩
  · rw [Graph.size, Graph.size, hnodes, Array.size_push]
    exact Nat.le_succ _
  · have hne : n ≠ net.graph.nodes.size := Nat.ne_of_lt hn
    rw [hnodes, Array.getElem?_push, if_neg hne]
  · rw [hheard, Graph.parentsFrom_push hnodes]
    split
    · rfl
    · rw [List.flatMap_singleton]

theorem trans {net'' : Network} {h h' : List Delivery} (hfirst : net.Tells net' h)
    (hnext : net'.Tells net'' h') : net.Tells net'' (h ++ h') where
  listeners_eq := hnext.listeners_eq.trans hfirst.listeners_eq
  size_le := hfirst.size_le.trans hnext.size_le
  nodes_eq n hn := by
    rw [hnext.nodes_eq n (Nat.lt_of_lt_of_le hn hfirst.size_le), hfirst.nodes_eq n hn]
  heard_eq := by
    rw [Graph.parentsFrom_append hfirst.size_le hnext.size_le hnext.nodes_eq, List.flatMap_append,
      hfirst.heard_eq, hnext.heard_eq, hfirst.listeners_eq]

/-- Where nobody listens nothing is heard. -/
theorem heard_eq_nil {h : List Delivery} (htells : net.Tells net' h)
    (hnobody : net.listeners.onAdded = []) : h = [] := by
  rw [htells.heard_eq, hnobody]
  exact List.flatMap_eq_nil_iff.2 fun _ _ => rfl

end Tells

namespace Builds

theorem logging : Action.Logging Builds where
  refl _ := ⟨.of_nodes_eq rfl rfl, id⟩
  trans h h' := ⟨h.tells.trans h'.tells, fun hs => h'.fresh (h.fresh hs)⟩

theorem refl (net : Network) : net.Builds net [] := logging.refl net

theorem of_nodes_eq (hnodes : net'.graph.nodes = net.graph.nodes)
    (hlisteners : net'.listeners = net.listeners) (hscratch : net'.scratch = net.scratch) :
    net.Builds net' [] := ⟨.of_nodes_eq hnodes hlisteners, fun h => hscratch ▸ h⟩

/-- An input is added without a word. -/
theorem of_addInputNode (hgraph : net'.graph.nodes = net.graph.nodes.push net.graph.inputNode)
    (hlisteners : net'.listeners = net.addInputNode.listeners)
    (hscratch : net'.scratch = net.addInputNode.scratch) : net.Builds net' [] := by
  rw [addInputNode_listeners] at hlisteners
  rw [addInputNode_scratch] at hscratch
  exact ⟨.of_push hgraph hlisteners rfl, fun h => hscratch ▸ h.grow⟩

end Builds

theorem addPrimaryInput_builds : addPrimaryInput.Logs Builds := fun net =>
  .get_bind (.require_bind (.refl net) fun _ => .modify_bind (.note_bind
    (Builds.of_addInputNode rfl rfl rfl)))

theorem addRegisterOutput_builds : addRegisterOutput.Logs Builds := fun net =>
  .get_bind (.modify_bind (.note_bind
    (Builds.of_addInputNode (congrArg (·.nodes) (addInputNode_graph net)) rfl rfl)))

theorem addPrimaryOutput_builds (signal : NodeId) : (addPrimaryOutput signal).Logs Builds :=
  fun net => .get_bind (.lift_bind (.refl net) fun _ _ => .require_bind (.refl net) fun _ =>
    .lift_bind (.refl net) fun _ _ => .set_bind (Builds.of_nodes_eq rfl rfl rfl))

theorem addRegisterInput_builds (signal : NodeId) (reset : Reset) :
    (addRegisterInput signal reset).Logs Builds :=
  fun net => .get_bind (.lift_bind (.refl net) fun _ _ => .require_bind (.refl net) fun _ =>
    .lift_bind (.refl net) fun _ _ => .set_bind (Builds.of_nodes_eq rfl rfl rfl))

theorem addCover_builds (cover : Cover) : (addCover cover).Logs Builds := by
  intro net
  rw [Action.Ends]
  cases hstray : cover.firstStray? with
  | none =>
      rw [addCover_run ((Cover.firstStray?_eq_none_iff cover).1 hstray)]
      exact .of_nodes_eq rfl rfl rfl
  | some cube =>
      rw [addCover_run_error hstray]
      exact .refl net

theorem createNode_builds {request : Request} (hne : request.children ≠ []) :
    (createNode request).Logs Builds := by
  intro net
  refine .get_bind (.lift_bind (.refl net) fun fanouts _ => .set_bind (.note_bind
    (.report_bind ?_)))
  show net.Builds ((net.addNode request fanouts).record request net.graph.size)
    (heard (net.listeners.deliveries (.added net.graph.size)) ++ [])
  have hnodes : ((net.addNode request fanouts).record request net.graph.size).graph.nodes =
      net.graph.nodes.push request := by
    rw [record_graph]
    rfl
  refine ⟨.of_push hnodes (record_listeners _ _ _) ?_, fun h => ?_⟩
  · rw [heard_deliveries, List.append_nil, if_neg hne]
    rfl
  · rw [record_scratch]
    exact h.grow

theorem node_builds (children : List NodeId) (cover : CoverId) :
    (node children cover).Logs Builds := by
  intro net
  refine .get_bind (.lift_bind (.refl net) fun function _ => ?_)
  by_cases hnil : children.isEmpty = true
  · rw [if_pos hnil]
    exact .refl net
  · have hne : children ≠ [] := by simpa using hnil
    rw [if_neg hnil]
    refine .require_bind (.refl net) fun _ => .lift_bind (.refl net) fun _ _ => ?_
    cases net.shared? ⟨children, cover⟩ with
    | some n => exact .note_bind (Builds.refl net)
    | none => exact createNode_builds hne net

theorem coverOfGate_builds (kind : Gate) : (coverOfGate kind).Logs Builds := by
  refine .bind Builds.logging (.get Builds.logging) fun net => ?_
  cases net.gateCover kind with
  | some c => exact .pure Builds.logging c
  | none =>
      exact .bind Builds.logging (addCover_builds _) fun c => .bind Builds.logging
        (.note Builds.logging _) fun _ => .bind Builds.logging
          (.modify fun net => .of_nodes_eq rfl rfl rfl) fun _ => .pure Builds.logging c

theorem gate_builds (kind : Gate) (operands : List NodeId) : (gate kind operands).Logs Builds :=
  .bind Builds.logging (.require Builds.logging _ _) fun _ =>
    .bind Builds.logging (coverOfGate_builds kind) fun c => node_builds operands c

theorem coverNode_builds (children : List NodeId) (cover : Cover) :
    (coverNode children cover).Logs Builds := by
  unfold coverNode
  split
  · exact .pure Builds.logging _
  · exact .bind Builds.logging (addCover_builds cover) fun c => node_builds children c

theorem tableNode_builds (children : List NodeId) (table : TruthTable) :
    (tableNode children table).Logs Builds := by
  unfold tableNode
  split
  · exact .pure Builds.logging _
  · exact .bind Builds.logging (.require Builds.logging _ _) fun _ => coverNode_builds children _

theorem copyNode_builds (other : Graph) (source : NodeId) (children : List NodeId) :
    (copyNode other source children).Logs Builds :=
  .bind Builds.logging (.require Builds.logging _ _) fun _ =>
    .bind Builds.logging (.lift Builds.logging _) fun _ => coverNode_builds children _

theorem copyInputs_builds (g : Graph) : (copyInputs g).Logs Builds := by
  have hone : ∀ {create : Action Network NodeId}, create.Logs Builds →
      ∀ (nodes : NodeMap NodeId) sources, (Copying.inputs create nodes sources).Logs Builds :=
    fun hcreate nodes sources => .foldlM Builds.logging (fun _ _ =>
      .bind Builds.logging hcreate fun _ => .pure Builds.logging _) sources nodes
  exact .bind Builds.logging (hone addPrimaryInput_builds _ _) fun _ =>
    hone addRegisterOutput_builds _ _

theorem copyGate_builds (g : Graph) (copying : Copying) (n : NodeId) :
    (copying.gate g n).Logs Builds := by
  have hcover : ∀ c, (copying.cover g c).Logs Builds := by
    intro c
    unfold Copying.cover
    split
    · exact .pure Builds.logging _
    · exact .bind Builds.logging (.lift Builds.logging _) fun _ =>
        .bind Builds.logging (addCover_builds _) fun _ => .pure Builds.logging _
  exact .bind Builds.logging (.lift Builds.logging _) fun source =>
    .bind Builds.logging (.lift Builds.logging _) fun children =>
    .bind Builds.logging (hcover source.cover) fun _ =>
    .bind Builds.logging (node_builds children _) fun _ => .pure Builds.logging _

theorem copyRest_builds (net : Network) (order : List NodeId) (nodes : NodeMap NodeId) :
    (copyRest net order nodes).Logs Builds := by
  have hprimary : ∀ (copying : Copying) (signal : NodeId), Action.Logs Builds (do
      let _ ← addPrimaryOutput (← copying.nodes.entry signal)) := fun copying signal =>
    .bind Builds.logging (.lift Builds.logging _) fun n =>
      .bind Builds.logging (addPrimaryOutput_builds n) fun _ => .pure Builds.logging _
  have hregister : ∀ (copying : Copying) (next : NextState), Action.Logs Builds (do
      let _ ← addRegisterInput (← copying.nodes.entry next.signal) next.reset) :=
    fun copying next => .bind Builds.logging (.lift Builds.logging _) fun n =>
      .bind Builds.logging (addRegisterInput_builds n next.reset) fun _ => .pure Builds.logging _
  have hkinds : ∀ kinds : Gate → Option CoverId, Action.Logs Builds
      (modify fun copy => { copy with gateCover := kinds } : Action Network PUnit) :=
    fun kinds => .modify fun copy => .of_nodes_eq rfl rfl rfl
  unfold copyRest
  exact .bind Builds.logging (.foldlM Builds.logging (copyGate_builds net.graph) _ _) fun copying =>
    .bind Builds.logging (hkinds _) fun _ =>
    .bind Builds.logging (.forM Builds.logging (hprimary copying) _) fun _ =>
    .bind Builds.logging (.forM Builds.logging (hregister copying) _) fun _ =>
    .pure Builds.logging _

theorem onScratch_builds {α : Type} {x : Action Scratch α} (h : Tame x) :
    (onScratch x).Logs Builds := by
  intro net
  obtain ⟨hfresh, hsilent⟩ := h net.scratch
  show net.Builds { net with scratch := (x net.scratch).state } (heard (x net.scratch).journal)
  rw [hsilent]
  exact ⟨.of_nodes_eq rfl rfl, hfresh⟩

theorem withGraph_builds {α : Type} {x : Graph → Action Scratch α} (h : ∀ g, Tame (x g)) :
    (withGraph x).Logs Builds :=
  .bind Builds.logging (.get Builds.logging) fun net => onScratch_builds (h net.graph)

theorem onNode_builds {α : Type} (n : NodeId) {x : Action Scratch α} (h : Tame x) :
    (onNode n x).Logs Builds :=
  .bind Builds.logging (.get Builds.logging) fun _ =>
    .bind Builds.logging (.lift Builds.logging _) fun _ => onScratch_builds h

/-- The copy is made where nobody listens. -/
theorem compact_builds : compact.Logs Builds := by
  intro net
  have hinputs := (copyInputs_builds net.graph (Network.new net.options)).tells
  refine .get_bind (.elsewhere_bind (hinputs.heard_eq_nil rfl) (.refl net) fun nodes _ => ?_)
  refine (withGraph_builds (fun _ => Tame.postorderOfOutputs) net).bind (fun _ _ h => h)
    fun order net' h hwalked => ?_
  have hrest := (copyRest_builds net order nodes
    (copyInputs net.graph (Network.new net.options)).state).tells
  have hnobody : (copyInputs net.graph (Network.new net.options)).state.listeners.onAdded = [] := by
    rw [hinputs.listeners_eq]
    rfl
  have hdone : net.Builds net' (h ++ []) := by rwa [List.append_nil]
  exact .elsewhere_bind (hrest.heard_eq_nil hnobody) hdone fun _ _ =>
    .note_bind (.lift_bind hdone fun _ _ => hdone)

end Network

namespace Operation

open Network

/-- The mark that a call is to set. -/
def mark? : {α : Type} → Operation α → Option UInt32
  | _, setMark _ mark => some mark
  | _, _ => none

/-- What builds tells of the nodes that it adds, and sets no mark ahead of the traversal number
unless it is told to. -/
theorem perform_builds {α : Type} (op : Operation α) (h : op.substitution? = none)
    (h' : op.configures = false) (hmark : op.mark? = none) : op.perform.Logs Builds := by
  cases op with
  | addPrimaryInput => exact addPrimaryInput_builds
  | addRegisterOutput => exact addRegisterOutput_builds
  | addPrimaryOutput signal => exact addPrimaryOutput_builds signal
  | addRegisterInput signal reset => exact addRegisterInput_builds signal reset
  | addCover cover => exact addCover_builds cover
  | node children cover => exact node_builds children cover
  | gate kind operands => exact gate_builds kind operands
  | buffer operand => exact .pure Builds.logging operand
  | coverNode children cover => exact coverNode_builds children cover
  | tableNode children table => exact tableNode_builds children table
  | copyNode other source children => exact copyNode_builds other source children
  | substitute old new => cases h
  | setOptions options => cases h'
  | subscribeAdded => cases h'
  | subscribeModified => cases h'
  | unsubscribe subscription => cases h'
  | setValue n value => exact onNode_builds n (Tame.update fun _ h => h)
  | increment n =>
      exact onNode_builds n (.bind .look fun _ => .bind (.update fun _ h => h) fun _ => .pure _)
  | decrement n =>
      exact onNode_builds n (.bind .look fun _ => .bind (.update fun _ h => h) fun _ => .pure _)
  | clearValues => exact onScratch_builds (Tame.update fun _ h => h)
  | setMark n mark => cases hmark
  | clearMarks => exact onScratch_builds (Tame.update fun _ _ => Scratch.Fresh.clearMarks)
  | nextTraversal => exact onScratch_builds Tame.nextTraversal
  | postorder starts => exact withGraph_builds fun _ => Tame.postorder starts
  | postorderOfOutputs => exact withGraph_builds fun _ => Tame.postorderOfOutputs
  | live => exact withGraph_builds fun _ => Tame.live
  | evaluate inputs => exact withGraph_builds fun _ => Tame.evaluate inputs
  | evaluateWords inputs => exact withGraph_builds fun _ => Tame.evaluateWords inputs
  | evaluateAll =>
      exact .bind Builds.logging (.get Builds.logging) fun _ => .bind Builds.logging
        (.lift Builds.logging _) fun _ => .mapM Builds.logging
          (fun inputs => withGraph_builds fun _ => Tame.evaluate inputs) _
  | depths => exact withGraph_builds fun _ => Tame.depths
  | summary => exact withGraph_builds fun _ => Tame.summary
  | compact => exact compact_builds

/-- What builds tells of the nodes that it adds. -/
theorem perform_tells {α : Type} (op : Operation α) (h : op.substitution? = none)
    (h' : op.configures = false) (net : Network) :
    net.Tells (net.after op) (heard (op.perform net).journal) := by
  cases hmark : op.mark? with
  | none => exact (op.perform_builds h h' hmark net).tells
  | some mark =>
      cases op with
      | setMark n mark =>
          have hends : (Network.setMark n mark).Ends net net.Tells :=
            .get_bind (.lift_bind (.of_nodes_eq rfl rfl) fun _ _ => Tells.of_nodes_eq rfl rfl)
          exact hends
      | _ => cases hmark

end Operation

namespace Graph

variable {g : Graph}

/-- The changes of the nodes that have a node among their children, in the order of their creation
and each with its children before the change. -/
def rewrites (g : Graph) (old : NodeId) : List Event :=
  (g.parents old).map fun n => .modified n (g.childrenOf n)

/-- The gates from a place on, in the order of their creation. -/
def gatesFrom (g : Graph) (size : Nat) : List NodeId :=
  (List.range' size (g.size - size)).filter g.isGate

/-- In a well-formed graph the gates are the nodes with children. -/
theorem WellFormed.gatesFrom_eq (h : g.WellFormed) (size : Nat) :
    g.gatesFrom size = g.parentsFrom size := by
  refine List.filter_congr fun (n : Nat) hn => ?_
  have hlt : n < g.size := by
    have := List.mem_range'_1.1 hn
    omega
  cases hgate : g.isGate n with
  | false => rw [h.childless n hgate]; rfl
  | true => simpa using (h.arity n hlt hgate).1

theorem gatesFrom_of_size_le {size : Nat} (h : g.size ≤ size) : g.gatesFrom size = [] := by
  rw [gatesFrom, Nat.sub_eq_zero_of_le h]
  rfl

end Graph

namespace Network

/-- The events of a call: the nodes that a substitution changes, each with its children before that,
or the gates that any other call appends. -/
def events (net : Network) (call : Call) : List Event :=
  match call.replaced? net with
  | some (old, _) => net.graph.rewrites old
  | none => ((net.after call.operation).graph.gatesFrom net.graph.size).map .added

/-- The deliveries of events, each to the listeners of its kind in their order. -/
def deliveries (net : Network) (events : List Event) : List Delivery :=
  events.flatMap fun event => (net.listeners.called event).map (·, event)

variable {net net' : Network} {old new : NodeId}

theorem substitute_heard_of_refused {fault : Fault}
    (h : checkSubstitution net.graph old new = .error fault ∨
      net.moveUses old new = .error fault) :
    heard (substitute old new net).journal = [] := by
  rw [substitute_eq, Action.get_bind_run]
  cases hcheck : checkSubstitution net.graph old new with
  | error fault => rw [Action.lift_error_bind_run]; rfl
  | ok _ =>
      rw [Action.lift_ok_bind_run, h.resolve_left (by simp [hcheck]), Action.lift_error_bind_run]
      rfl

theorem substitute_heard (h : Redirection net old new net') :
    heard (substitute old new net).journal =
      net.deliveries (net.graph.rewrites old) := by
  obtain ⟨fanouts, hmove, _⟩ := h.result
  rw [substitute_eq, Action.get_bind_run, h.checked, Action.lift_ok_bind_run, hmove,
    Action.lift_ok_bind_run, Action.set_bind_run, Action.report_bind_run, heard_append,
    Action.note_bind_run, heard_noted, heard_flatMap, deliveries, Graph.rewrites,
    List.flatMap_map]
  -- Checking the invariants makes no deliveries.
  split <;> simp [Action.get_bind_run]

theorem events_of_added {call : Call} (h : call.replaced? net = none) :
    net.events call = ((net.after call.operation).graph.gatesFrom net.graph.size).map .added := by
  rw [events, h]

theorem events_of_replaced {call : Call} (h : call.replaced? net = some (old, new)) :
    net.events call = net.graph.rewrites old := by
  rw [events, h]

/-- A substitution tells of the nodes that it changes, and if it is refused it tells nothing. -/
theorem heard_substitution (hwell : net.WellFormed) (old new : NodeId) :
    heard (substitute old new net).journal =
      net.deliveries (net.events ⟨Unit, .substitute old new⟩) := by
  rcases hwell.substitute_cases old new with ⟨hsame, fault, hfault, hrefused⟩ | ⟨hdone, hok⟩
  · have hnone : Call.replaced? net ⟨Unit, .substitute old new⟩ = none :=
      Call.replaced?_of_error hfault
    have hgates : (net.after (.substitute old new)).graph.gatesFrom net.graph.size = [] := by
      show (substitute old new net).state.graph.gatesFrom _ = []
      rw [hsame, Graph.gatesFrom_of_size_le (Nat.le_refl _)]
    rw [substitute_heard_of_refused hrefused, events_of_added hnone, hgates]
    rfl
  · have hsome : Call.replaced? net ⟨Unit, .substitute old new⟩ = some (old, new) :=
      Call.replaced?_of_ok hok
    rw [substitute_heard hdone, events_of_replaced hsome]

/-- A call that is no substitution tells of the gates that it appends. -/
theorem heard_of_added (hwell : net.WellFormed) {α : Type} (op : Operation α)
    (h : op.substitution? = none) : heard (op.perform net).journal =
      net.deliveries (((net.after op).graph.gatesFrom net.graph.size).map .added) := by
  cases hconfigures : op.configures with
  | false =>
      rw [(op.perform_tells h hconfigures net).heard_eq, deliveries, List.flatMap_map,
        (hwell.after op).graph.gatesFrom_eq]
      rfl
  | true =>
      -- A call about listeners or options adds nothing and tells nothing.
      have hsilent : heard (op.perform net).journal = [] ∧
          (net.after op).graph.size = net.graph.size := by
        cases op with
        | setOptions _ | subscribeAdded | subscribeModified | unsubscribe _ => exact ⟨rfl, rfl⟩
        | _ => cases hconfigures
      rw [hsilent.1, Graph.gatesFrom_of_size_le hsilent.2.le]
      rfl

/-- What a call tells: its events, each to the listeners of its kind in their order. -/
theorem heard_call (hwell : net.WellFormed) (call : Call) :
    heard (call.operation.perform net).journal = net.deliveries (net.events call) := by
  obtain ⟨Answer, op⟩ := call
  cases hsubstitution : op.substitution? with
  | none =>
      have hnone : Call.replaced? net ⟨Answer, op⟩ = none := by
        unfold Call.replaced?
        split
        · exact hsubstitution
        · rfl
      rw [events_of_added hnone]
      exact heard_of_added hwell op hsubstitution
  | some pair =>
      cases op with
      | substitute old new => exact heard_substitution hwell old new
      | _ => cases hsubstitution

end Network
end LogicNet
