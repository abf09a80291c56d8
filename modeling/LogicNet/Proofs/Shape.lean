import LogicNet.Proofs.Compaction
import LogicNet.Proofs.Mirror
import Mathlib.Data.Set.Card

/-!
The shape of a compact copy. It has the constants, the inputs and the gates that some output depends
on, and nothing else; gates keep the order of their children, the content of their covers and
whether they share a cover; and two of them become one exactly if sharing is on and their images
are alike. Children come before the nodes above them, and every gate is still needed by an output.
-/

namespace LogicNet
namespace Graph

variable {g copy : Graph}

/-- A gate that some output depends on. -/
def LiveGate (g : Graph) (n : NodeId) : Prop :=
  g.isGate n = true ∧ ∃ output ∈ g.outputs, Reaches g.childrenOf output n

/-- What the compact copy of a graph looks like, given where its nodes have gone and whether the
copy was made with sharing. -/
structure CompactedTo (g : Graph) (share : Bool) (nodes : NodeMap NodeId) (copy : Graph) :
    Prop where
  /-- The constants, the inputs and the live gates have gone somewhere, and nothing else has. -/
  placed_iff : ∀ o, Placed nodes o ↔ (∃ value, o = constant value) ∨ o ∈ g.inputs ∨ g.LiveGate o
  /-- The nodes of the copy are exactly where they have gone. -/
  lt_size_iff : ∀ n : Nat, n < copy.size ↔ ∃ o : NodeId, nodes[o]? = some n
  constants : ∀ value, nodes[constant value]? = some (constant value)
  /-- The inputs go to the inputs, position by position. -/
  inputs : Images nodes g.inputs copy.inputs
  /-- A live gate goes to a gate with the images of its children and with an equal cover. -/
  gates : ∀ o, g.LiveGate o → ∃ n cover, nodes[o]? = some n ∧ copy.isGate n = true ∧
    Images nodes (g.childrenOf o) (copy.childrenOf n) ∧
    g.nodeCover o = .ok cover ∧ copy.nodeCover n = .ok cover
  /-- Two live gates use one entry of the cover table exactly if their images do. -/
  slot_eq_iff : ∀ a b m n : NodeId, g.LiveGate a → g.LiveGate b → nodes[a]? = some m →
    nodes[b]? = some n → (g.slot a = g.slot b ↔ copy.slot m = copy.slot n)
  /-- Without sharing nothing becomes one. -/
  apart : share = false → ∀ a b n : NodeId, nodes[a]? = some n → nodes[b]? = some n → a = b
  /-- With sharing two live gates become one exactly if they use one entry of the cover table and
  their children have gone to the same nodes. -/
  merged_iff : share = true → ∀ a b, g.LiveGate a → g.LiveGate b →
    (nodes[a]? = nodes[b]? ↔ g.slot a = g.slot b ∧
      (g.childrenOf a).map (nodes[·]?) = (g.childrenOf b).map (nodes[·]?))
  live : ∀ n < copy.size, copy.isGate n = true → copy.LiveGate n
  child_lt : ∀ n, ∀ child ∈ copy.childrenOf n, child < n
  /-- Beside the covers of the constants and of the inputs there is one for each that a live gate
  uses. -/
  covers_size : copy.covers.size =
    2 + g.inputs.length + {c | ∃ o, g.LiveGate o ∧ g.slot o = some c}.ncard

end Graph

namespace Network

variable {net net' : Network}

/-- A network that grows gets at most one node, whose children are older. -/
theorem Growth.nodes_cases (h : Growth net net') : net'.graph.nodes = net.graph.nodes ∨
    ∃ node : Node, net'.graph.nodes = net.graph.nodes.push node ∧
      ∀ child ∈ node.children, child < net.graph.size := by
  cases h with
  | primaryInput first =>
      exact Or.inr ⟨net.graph.inputNode, by simp, by simp [Graph.inputNode]⟩
  | registerOutput =>
      exact Or.inr ⟨net.graph.inputNode, by simp, by simp [Graph.inputNode]⟩
  | gate request fanouts accepted _ _ =>
      refine Or.inr ⟨request, ?_, accepted.child_lt⟩
      rw [record_graph]
      rfl
  | _ => exact Or.inl rfl

theorem Growth.child_lt (h : Growth net net')
    (hbefore : ∀ n, ∀ child ∈ net.graph.childrenOf n, child < n) :
    ∀ n, ∀ child ∈ net'.graph.childrenOf n, child < n := by
  rcases h.nodes_cases with hnodes | ⟨node, hnodes, hnode⟩
  · rwa [Graph.childrenOf_congr hnodes]
  · have hchildren : net'.graph.childrenOf = (net.graph.addNode node).childrenOf :=
      Graph.childrenOf_congr hnodes
    intro n child hchild
    rw [hchildren, Graph.childrenOf_addNode] at hchild
    split at hchild
    · next heq => exact heq ▸ hnode child hchild
    · exact hbefore n child hchild

/-- Without redirections children are older than the nodes above them. -/
theorem child_lt_of_extensions {options : Options}
    (h : Relation.ReflTransGen Extension (Network.new options) net) :
    ∀ n, ∀ child ∈ net.graph.childrenOf n, child < n := by
  induction h with
  | refl =>
      intro n child hchild
      rw [show (Network.new options).graph.childrenOf n = [] from
        Graph.WellFormed.childrenOf_constants n] at hchild
      cases hchild
  | tail _ hstep ih =>
      cases hstep with
      | growth hgrowth => exact hgrowth.child_lt ih
      | _ => exact ih

namespace Copying

/-- A copy that is complete: since its gates were copied it has only got outputs. -/
structure Finished (g : Graph) (share : Bool) (gates : List NodeId) (copying : Copying)
    (middle : Network) (copy : Graph) : Prop where
  source : g.WellFormed
  wellFormed : copy.WellFormed
  live_iff : ∀ n, n ∈ gates ↔ g.LiveGate n
  copied : Copied g share g.inputs gates copying middle
  covered : Covered g copying middle
  nodes : copy.nodes = middle.graph.nodes
  covers : copy.covers = middle.graph.covers
  inputs : Images copying.nodes g.inputs copy.inputs
  outputs : Images copying.nodes g.outputs copy.outputs
  child_lt : ∀ n, ∀ child ∈ copy.childrenOf n, child < n

namespace Finished

variable {g copy : Graph} {share : Bool} {gates : List NodeId} {copying : Copying}
  {middle : Network} {a b m n o : NodeId}

theorem placed_iff (h : Finished g share gates copying middle copy) (o : NodeId) :
    Placed copying.nodes o ↔
      (∃ value, o = Graph.constant value) ∨ o ∈ g.inputs ∨ g.LiveGate o := by
  rw [h.copied.mirrors.placed_iff, List.mem_append, List.mem_append, Graph.mem_constants,
    h.live_iff, or_assoc]

theorem lt_size_iff (h : Finished g share gates copying middle copy) (n : Nat) :
    n < copy.size ↔ ∃ o : NodeId, copying.nodes[o]? = some n := by
  rw [← h.copied.mirrors.lt_size_iff, Graph.size, h.nodes, Graph.size]

/-- What becomes of a live gate. -/
theorem image (h : Finished g share gates copying middle copy) (ho : g.LiveGate o) :
    ∃ source n node, g.nodes[o]? = some source ∧ copying.nodes[o]? = some n ∧
      copy.nodes[n]? = some node ∧ Images copying.nodes source.children node.children ∧
      copying.covers[source.cover]? = some node.cover ∧ node.children ≠ [] := by
  obtain ⟨source, n, node, hsource, hn, hnode, himages, hcover⟩ :=
    (h.copied.mirrors.gates o ((h.live_iff o).2 ho)).image
  have hne := (h.source.arity o (Graph.lt_size_of_nodes hsource) ho.1).1
  rw [Graph.childrenOf_eq hsource] at hne
  refine ⟨source, n, node, hsource, hn, by rw [h.nodes, hnode], himages, hcover, ?_⟩
  rw [← List.length_pos_iff, himages.length]
  exact List.length_pos_iff.2 hne

theorem gate (h : Finished g share gates copying middle copy) (ho : g.LiveGate o) :
    ∃ n cover, copying.nodes[o]? = some n ∧ copy.isGate n = true ∧
      Images copying.nodes (g.childrenOf o) (copy.childrenOf n) ∧
      g.nodeCover o = .ok cover ∧ copy.nodeCover n = .ok cover := by
  obtain ⟨source, n, node, hsource, hn, hnode, himages, hcopied, hne⟩ := h.image ho
  obtain ⟨cover, hcover, hcover'⟩ := h.covered.covers _ _ hcopied
  refine ⟨n, cover, hn, ?_, ?_, ?_, ?_⟩
  · by_contra hgate
    refine hne ?_
    rw [← Graph.childrenOf_eq hnode]
    exact h.wellFormed.childless n (by simpa using hgate)
  · rwa [Graph.childrenOf_eq hsource, Graph.childrenOf_eq hnode]
  · rw [Graph.nodeCover, (Graph.node_eq_ok_iff g o source).2 hsource]
    exact (Graph.cover_eq_ok_iff _ _ _).2 hcover
  · rw [Graph.nodeCover, (Graph.node_eq_ok_iff copy n node).2 hnode]
    exact (Graph.cover_eq_ok_iff _ _ _).2 (by rw [h.covers, hcover'])

theorem slot_eq_iff (h : Finished g share gates copying middle copy) (ha : g.LiveGate a)
    (hb : g.LiveGate b) (hm : copying.nodes[a]? = some m) (hn : copying.nodes[b]? = some n) :
    g.slot a = g.slot b ↔ copy.slot m = copy.slot n := by
  obtain ⟨source, m', node, hsource, hm', hnode, _, hcopied, _⟩ := h.image ha
  obtain ⟨source', n', node', hsource', hn', hnode', _, hcopied', _⟩ := h.image hb
  rw [hm] at hm'
  cases hm'
  rw [hn] at hn'
  cases hn'
  rw [Graph.slot_eq hsource, Graph.slot_eq hsource', Graph.slot_eq hnode, Graph.slot_eq hnode',
    Option.some.injEq, Option.some.injEq]
  constructor
  · intro heq
    rw [heq, hcopied'] at hcopied
    exact (Option.some.inj hcopied).symm
  · intro heq
    rw [heq] at hcopied
    exact h.copied.slotted.eq hcopied hcopied'

/-- Live gates whose covers and children have gone to the same places are one with sharing on. -/
theorem merged_iff (h : Finished g share gates copying middle copy) (hshare : share = true)
    (ha : g.LiveGate a) (hb : g.LiveGate b) : copying.nodes[a]? = copying.nodes[b]? ↔
      g.slot a = g.slot b ∧ (g.childrenOf a).map (copying.nodes[·]?) =
        (g.childrenOf b).map (copying.nodes[·]?) := by
  obtain ⟨source, m, node, hsource, hm, hnode, himages, hcopied, hne⟩ := h.image ha
  obtain ⟨source', n, node', hsource', hn, hnode', himages', hcopied', _⟩ := h.image hb
  rw [h.slot_eq_iff ha hb hm hn, hm, hn, Graph.slot_eq hnode, Graph.slot_eq hnode',
    Graph.childrenOf_eq hsource, Graph.childrenOf_eq hsource', ← himages, ← himages',
    List.map_inj_right fun _ _ => Option.some.inj, Option.some.injEq, Option.some.injEq]
  constructor
  · rintro rfl
    rw [hnode] at hnode'
    cases hnode'
    exact ⟨rfl, rfl⟩
  · rintro ⟨hcover, hchildren⟩
    have hsame : node = node' := by
      cases node
      cases node'
      simp_all
    subst hsame
    rw [h.nodes] at hnode hnode'
    exact h.copied.mirrors.exact.eq (h.copied.mirrors.share_eq.trans hshare) hne hnode hnode'

/-- A gate that has gone somewhere is live. -/
theorem liveGate_of_placed (h : Finished g share gates copying middle copy)
    (ho : Placed copying.nodes o) (hgate : g.isGate o = true) : g.LiveGate o := by
  rcases (h.placed_iff o).1 ho with ⟨value, rfl⟩ | hinput | hlive
  · exact absurd hgate (Bool.eq_false_iff.1 (g.isGate_constant value))
  · exact absurd hgate (Bool.eq_false_iff.1 (h.source.isGate_input hinput))
  · exact hlive

/-- Paths of the source that start at something placed have images. -/
theorem reaches (h : Finished g share gates copying middle copy) (hreach : Reaches g.childrenOf a b)
    (hm : copying.nodes[a]? = some m) :
    ∃ n, copying.nodes[b]? = some n ∧ Reaches copy.childrenOf m n := by
  induction hreach with
  | refl => exact ⟨m, hm, .refl⟩
  | @tail b child _ hstep ih =>
      obtain ⟨n, hn, hpath⟩ := ih
      -- Constants and inputs have no children, so the path goes on from a gate.
      obtain ⟨n', _, hn', _, himages, _⟩ :=
        h.gate (h.liveGate_of_placed ⟨n, hn⟩ (h.source.isGate_of_child hstep))
      rw [hn] at hn'
      cases hn'
      obtain ⟨image, himage, hchild⟩ := himages.exists_target hstep
      exact ⟨image, hchild, hpath.tail himage⟩

theorem live (h : Finished g share gates copying middle copy) (hn : n < copy.size)
    (hgate : copy.isGate n = true) : copy.LiveGate n := by
  refine ⟨hgate, ?_⟩
  obtain ⟨o, ho⟩ := (h.lt_size_iff n).1 hn
  rcases (h.placed_iff o).1 ⟨n, ho⟩ with ⟨value, rfl⟩ | hinput | ⟨_, output, houtput, hreach⟩
  · rw [h.copied.mirrors.constants] at ho
    cases ho
    exact absurd hgate (Bool.eq_false_iff.1 (copy.isGate_constant value))
  · obtain ⟨image, himage, hplaced⟩ := h.inputs.exists_target hinput
    rw [ho] at hplaced
    cases hplaced
    exact absurd hgate (Bool.eq_false_iff.1 (h.wellFormed.isGate_input himage))
  · obtain ⟨image, himage, hplaced⟩ := h.outputs.exists_target houtput
    obtain ⟨n', hn', hpath⟩ := h.reaches hreach hplaced
    rw [ho] at hn'
    cases hn'
    exact ⟨image, himage, hpath⟩

theorem covers_size (h : Finished g share gates copying middle copy) : copy.covers.size =
    2 + g.inputs.length + {c | ∃ o, g.LiveGate o ∧ g.slot o = some c}.ncard := by
  have hslots : {c | ∃ o, g.LiveGate o ∧ g.slot o = some c} =
      ((g.slots gates).toFinset : Set CoverId) := by
    ext c
    simp only [List.coe_toFinset, Graph.mem_slots, h.live_iff]
  rw [hslots, Set.ncard_coe_finset, List.toFinset_card_of_nodup (g.slots_nodup gates), h.covers,
    h.copied.slotted.covers_size]

theorem compactedTo (h : Finished g share gates copying middle copy) :
    g.CompactedTo share copying.nodes copy where
  placed_iff := h.placed_iff
  lt_size_iff := h.lt_size_iff
  constants := h.copied.mirrors.constants
  inputs := h.inputs
  gates _ ho := h.gate ho
  slot_eq_iff _ _ _ _ ha hb hm hn := h.slot_eq_iff ha hb hm hn
  apart := h.copied.mirrors.apart
  merged_iff hshare _ _ ha hb := h.merged_iff hshare ha hb
  live _ hn hgate := h.live hn hgate
  child_lt := h.child_lt
  covers_size := h.covers_size

end Finished
end Copying

/-- The networks have the same nodes and covers. -/
def SameBody (net net' : Network) : Prop :=
  net'.graph.nodes = net.graph.nodes ∧ net'.graph.covers = net.graph.covers

theorem addPrimaryOutput_sameBody (signal : NodeId) {start net : Network}
    (h : SameBody start net) : (addPrimaryOutput signal).Leaves net fun _ => SameBody start :=
  .get_bind (.lift_bind fun _ _ => .require_bind fun _ => .lift_bind fun _ _ =>
    .set_bind (.pure h))

theorem addRegisterInput_sameBody (signal : NodeId) (reset : Reset) {start net : Network}
    (h : SameBody start net) :
    (addRegisterInput signal reset).Leaves net fun _ => SameBody start :=
  .get_bind (.lift_bind fun _ _ => .require_bind fun _ => .lift_bind fun _ _ =>
    .set_bind (.pure h))

/-- After the inputs the gates are copied, and then nodes and covers stay. -/
theorem copyRest_copied {net copy : Network} (hg : net.graph.WellFormed) {share : Bool}
    {nodes : NodeMap NodeId} (hnone : copy.gateCover = fun _ => none)
    (h : Copying.Copied net.graph share net.graph.inputs [] ⟨nodes, ∅⟩ copy)
    {order : List NodeId} (hnodup : order.Nodup) (hlt : ∀ n ∈ order, n < net.graph.size) :
    (copyRest net order nodes).Leaves copy fun nodes' copy' => ∃ copying middle,
      nodes' = copying.nodes ∧
      Copying.Copied net.graph share net.graph.inputs (order.filter net.graph.isGate) copying
        middle ∧
      Copying.Covered net.graph copying middle ∧ SameBody middle copy' := by
  have hgates := hg.nodup_append_gates (hnodup.filter net.graph.isGate)
    fun n hn => (List.mem_filter.1 hn).2
  have hchildren : ∀ n ∈ order.filter net.graph.isGate, net.graph.childrenOf n ≠ [] := by
    intro n hn
    obtain ⟨hn, hgate⟩ := List.mem_filter.1 hn
    exact (hg.arity n (hlt n hn) hgate).1
  have hempty : Copying.Covered net.graph ⟨nodes, ∅⟩ copy :=
    ⟨fun c c' hc => by simp at hc, hnone⟩
  unfold copyRest
  refine ((h.gates hgates hchildren).and (Copying.gates_covered _ hempty)).bind
    fun copying middle ⟨hcopied, hcovered⟩ => .modify_bind ?_
  have hstart : SameBody middle { middle with gateCover := copying.gateCover net.gateCover } :=
    ⟨rfl, rfl⟩
  refine (Action.Leaves.forM (SameBody middle) ?_ hstart).bind fun _ copy' hprimary => ?_
  · exact fun signal copy' h => .lift_bind fun n _ =>
      (addPrimaryOutput_sameBody n h).bind fun _ _ h' => .pure h'
  refine (Action.Leaves.forM (SameBody middle) ?_ hprimary).bind fun _ copy' hsame => ?_
  · exact fun state copy' h => .lift_bind fun n _ =>
      (addRegisterInput_sameBody n state.reset h).bind fun _ _ h' => .pure h'
  exact .pure ⟨copying, middle, rfl, hcopied, hcovered, hsame⟩

/-- The walk from the outputs lists the nodes that some output depends on. -/
theorem postorderOfOutputs_lists {net : Network} (hwell : net.WellFormed)
    (hfresh : net.scratch.Fresh) (hroom : net.scratch.traversal.toNat + 1 < UInt32.size) :
    (withGraph (·.postorderOfOutputs)).Yields net fun order _ => order.Nodup ∧
      ∀ n, n ∈ order ↔ ∃ output ∈ net.graph.outputs, Reaches net.graph.childrenOf output n := by
  obtain ⟨order, _, hanswer, _, _, _, hordered, hmem⟩ :=
    Graph.postorder_run hwell.graph hwell.graph.output_lt hwell.marks_size hfresh hroom
  exact .get_bind ⟨order, hanswer, hordered.nodup, hmem⟩

/-- A compact copy is its source but for gates that no output depends on. -/
theorem compact_copied {net : Network} (hwell : net.WellFormed) (hfresh : net.scratch.Fresh)
    (hroom : net.scratch.traversal.toNat + 1 < UInt32.size) :
    compact.Leaves net fun result _ => ∃ gates copying middle, result.2 = copying.nodes ∧
      (∀ n, n ∈ gates ↔ net.graph.LiveGate n) ∧
      Copying.Copied net.graph net.options.share net.graph.inputs gates copying middle ∧
      Copying.Covered net.graph copying middle ∧ SameBody middle result.1 := by
  have hstart : (copyInputs net.graph).Leaves (Network.new net.options) fun nodes copy =>
      copy.gateCover = (fun _ => none) ∧
      Copying.Copied net.graph net.options.share net.graph.inputs [] ⟨nodes, ∅⟩ copy :=
    fun nodes hnodes => ⟨gateCover_eq_of_growth (copyInputs_moves net.graph _),
      copyInputs_copied hwell.graph net.options nodes hnodes⟩
  unfold compact
  refine .get_bind (.elsewhere_bind hstart fun nodes copy ⟨hnone, hinputs⟩ => ?_)
  refine (postorderOfOutputs_lists hwell hfresh hroom).leaves.bind
    fun order net' ⟨hnodup, hmem⟩ => ?_
  have hlt : ∀ n ∈ order, n < net.graph.size := by
    intro n hn
    obtain ⟨output, houtput, hreach⟩ := (hmem n).1 hn
    exact hwell.graph.lt_size_of_reaches (hwell.graph.output_lt output houtput) hreach
  refine .elsewhere_bind (copyRest_copied hwell.graph hnone hinputs hnodup hlt)
    fun nodes copy ⟨copying, middle, hplaces, hcopied, hcovered, hsame⟩ => ?_
  refine .note_bind (.lift_bind fun _ _ => .pure ⟨_, copying, middle, hplaces, fun n => ?_,
    hcopied, hcovered, hsame⟩)
  rw [List.mem_filter, hmem, and_comm]
  rfl

end Network

open Network

/-- A script with two gates that a substitution makes alike, and with a gate that nothing uses. -/
def folding : Action Network Nat := do
  let a ← addPrimaryInput
  let b ← addPrimaryInput
  let c ← addPrimaryInput
  let left ← gate .and [a, b]
  let right ← gate .and [a, c]
  let top ← gate .xor [left, right]
  let _ ← gate .or [a, b]
  substitute c b
  addPrimaryOutput top

theorem folding_script : Script folding :=
  .next (.call .addPrimaryInput) fun a => .next (.call .addPrimaryInput) fun b =>
    .next (.call .addPrimaryInput) fun c => .next (.call (.gate .and [a, b])) fun left =>
    .next (.call (.gate .and [a, c])) fun right =>
    .next (.call (.gate .xor [left, right])) fun top =>
    .next (.call (.gate .or [a, b])) fun _ => .next (.call (.substitute c b)) fun _ =>
    .call (.addPrimaryOutput top)

/-- The network that the script makes. -/
def folded : Network := (folding (Network.new .sharing)).state

theorem folded_reachable : Reachable folded := .run (.new .sharing) folding_script

/-- In every reachable network compaction keeps exactly what the outputs need, in the shape that it
has there. -/
theorem Reachable.compact_shape {net : Network} (h : Reachable net)
    (huses : net.graph.references.length < UInt32.size) (hfresh : net.scratch.Fresh)
    (hroom : net.scratch.traversal.toNat < UInt32.size - 1) :
    ∃ copy nodes, (compact net).answer = .ok (copy, nodes) ∧
      net.graph.CompactedTo net.options.share nodes copy.graph := by
  have hwell := h.wellFormed
  have hroom' : net.scratch.traversal.toNat + 1 < UInt32.size := by omega
  obtain ⟨⟨copy, nodes⟩, hanswer, hwired, _⟩ := compact_yields hwell huses hfresh hroom'
  obtain ⟨gates, copying, middle, hplaces, hlive, hcopied, hcovered, hsame⟩ :=
    compact_copied hwell hfresh hroom' _ hanswer
  cases hplaces
  have hfinished : Copying.Finished net.graph net.options.share gates copying middle copy.graph :=
    { source := hwell.graph
      wellFormed := hwired.agrees.wellFormed.graph
      live_iff := hlive
      copied := hcopied
      covered := hcovered
      nodes := hsame.1
      covers := hsame.2
      inputs := hwired.inputs
      outputs := hwired.outputs hwell.graph.matched
      child_lt := child_lt_of_extensions (compact_extension hwell hanswer) }
  exact ⟨copy, copying.nodes, hanswer, hfinished.compactedTo⟩

theorem folded_compact : folded.graph.references.length < UInt32.size ∧ folded.scratch.Fresh ∧
    folded.scratch.traversal.toNat < UInt32.size - 1 ∧
    ∃ copy nodes, (compact folded).answer = .ok (copy, nodes) ∧ nodes[5]? = nodes[6]? ∧
      ¬ Placed nodes 8 := by
  have huses : folded.graph.references.length < UInt32.size := by decide +kernel
  have hfresh : folded.scratch.Fresh := by decide +kernel
  have hroom : folded.scratch.traversal.toNat < UInt32.size - 1 := by decide +kernel
  obtain ⟨copy, nodes, hanswer, hshape⟩ :=
    Reachable.compact_shape folded_reachable huses hfresh hroom
  have hlive : ∀ o ∈ folded.graph.childrenOf 7, folded.graph.isGate o = true →
      folded.graph.LiveGate o :=
    fun o ho hgate => ⟨hgate, 7, by decide +kernel, .single ho⟩
  refine ⟨huses, hfresh, hroom, copy, nodes, hanswer, ?_, fun hplaced => ?_⟩
  · refine (hshape.merged_iff (by decide +kernel) 5 6 (hlive 5 (by decide +kernel)
      (by decide +kernel)) (hlive 6 (by decide +kernel) (by decide +kernel))).2
      ⟨by decide +kernel, ?_⟩
    have hchildren : folded.graph.childrenOf 5 = folded.graph.childrenOf 6 := by decide +kernel
    rw [hchildren]
  · have hunread : ∀ n < folded.graph.size, 8 ∉ folded.graph.childrenOf n := by decide +kernel
    rcases (hshape.placed_iff 8).1 hplaced with ⟨value, hvalue⟩ | hinput | ⟨_, output, hout, hreach⟩
    · cases value <;> cases hvalue
    · exact absurd hinput (by decide +kernel)
    · rcases hreach.cases_tail with heq | ⟨n, _, hstep⟩
      · rw [← heq] at hout
        exact absurd hout (by decide +kernel)
      · exact hunread n (Graph.lt_size_of_mem_childrenOf hstep) hstep

end LogicNet
