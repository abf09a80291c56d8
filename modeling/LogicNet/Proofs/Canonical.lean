import LogicNet.Proofs.Idempotence
import LogicNet.Proofs.Persistence
import LogicNet.Proofs.Run

/-!
Compaction restores what sharing promises. Redirections leave entries of the sharing table behind
that no node answers to any more, and while sharing is off gates are made without entries. A compact
copy is built without a redirection and under one set of options, so its table is exact: each of its
gates is the one that is found for its own children and cover, and a kind of gate whose cover has
been copied finds the images of the gates that used it.
-/

namespace LogicNet

/-- A gate is one that its children and its cover can be asked for. -/
theorem Graph.WellFormed.accepts_gate {g : Graph} (h : g.WellFormed) {n : NodeId} {node : Node}
    (hnode : g.nodes[n]? = some node) (hne : node.children ≠ []) : g.Accepts node := by
  have hchildren := Graph.childrenOf_eq hnode
  have hgate : g.isGate n = true := by
    by_contra hgate
    refine hne ?_
    rw [← hchildren]
    exact h.childless n (by simpa using hgate)
  exact
    { cover_lt := h.cover_lt n node hnode
      children_ne_nil := hne
      length_le := hchildren ▸ (h.arity n (Graph.lt_size_of_nodes hnode) hgate).2
      child_lt := fun child hchild => h.bounded n child (hchildren.symm ▸ hchild) }

theorem Graph.WellFormed.children_ne_nil {g : Graph} (h : g.WellFormed) {n : NodeId} {node : Node}
    (hnode : g.nodes[n]? = some node) (hgate : g.isGate n = true) : node.children ≠ [] := by
  rw [← Graph.childrenOf_eq hnode]
  exact (h.arity n (Graph.lt_size_of_nodes hnode) hgate).1

namespace Network

variable {net net' : Network}

/-- As long as the options stay as they are, what is added keeps the table exact. -/
theorem Exact.of_building (h : net.Exact) (hwell : net.WellFormed) (hbuilding : Building net net') :
    net'.Exact := by
  rcases hbuilding.extension.table_cases with ⟨hnodes, htable⟩ | ⟨node, hnodes, htable, hnew⟩
  · exact h.congr hnodes htable hbuilding.options_eq
  refine h.push hnodes hbuilding.options_eq htable fun hne => ?_
  rcases hnew with hcover | hnone
  · -- The cover has just been added, so no node that is found uses it.
    by_contra hsome
    obtain ⟨n, hfound⟩ := Option.ne_none_iff_exists'.1 hsome
    have hlt := hwell.graph.cover_lt n node ((h node n hne).1 hfound).2
    rw [hcover] at hlt
    exact Nat.lt_irrefl _ hlt
  · exact hnone

/-- What has been built under one set of options has an exact table. -/
theorem exact_of_building {options : Options}
    (h : Relation.ReflTransGen Building (Network.new options) net) : net.Exact := by
  have hall : net.WellFormed ∧ net.Exact := by
    induction h with
    | refl => exact ⟨.new options, .new options⟩
    | tail _ hstep ih =>
        exact ⟨ih.1.of_extension hstep.extension, ih.2.of_building ih.1 hstep⟩
  exact hall.2

/-- Every gate is found by its own children and cover, without any other effect than notes, and no
two gates have the same ones. -/
structure Canonical (net : Network) : Prop where
  found : ∀ (n : NodeId) (request : Node), net.graph.nodes[n]? = some request →
    net.graph.isGate n = true → ∃ notes : List Note,
      node request.children request.cover net = ⟨.ok n, net, notes.map .noted⟩
  unique : ∀ (m n : NodeId) (request : Node), net.graph.isGate m = true →
    net.graph.isGate n = true → net.graph.nodes[m]? = some request →
    net.graph.nodes[n]? = some request → m = n

/-- With sharing on the request for a gate that there is already is settled. -/
theorem Exact.settled (h : net.Exact) (hwell : net.WellFormed) (hshare : net.options.share = true)
    {n : NodeId} {node : Node} (hnode : net.graph.nodes[n]? = some node)
    (hne : node.children ≠ []) : Settled net node n := by
  refine .recorded n (hwell.graph.accepts_gate hnode hne) ?_
  rw [← shared?_eq hshare]
  exact (h node n hne).2 ⟨hshare, hnode⟩

theorem Exact.canonical (h : net.Exact) (hwell : net.WellFormed)
    (hshare : net.options.share = true) : Canonical net where
  found _ _ hnode hgate :=
    (h.settled hwell hshare hnode (hwell.graph.children_ne_nil hnode hgate)).node_run hshare
  unique _ _ _ hm _ hnode hnode' :=
    h.eq hshare (hwell.graph.children_ne_nil hnode hm) hnode hnode'

/-- A kind of gate that has a cover finds the gate with this cover and the operands as children. -/
theorem Settled.gate_run {kind : Gate} {operands : List NodeId} {c : CoverId} {n : NodeId}
    (h : Settled net ⟨operands, c⟩ n) (hshare : net.options.share = true)
    (hknown : net.gateCover kind = some c) (harity : operands.length = kind.arity) :
    ∃ notes : List Note, gate kind operands net = ⟨.ok n, net, notes.map .noted⟩ := by
  obtain ⟨notes, hrun⟩ := h.node_run hshare
  refine ⟨notes, ?_⟩
  unfold gate
  rw [Action.require_bind_run harity, Action.bind_run_ok (coverOfGate_of_known hknown), hrun]
  rfl

/-- Whoever has walked had a traversal number left to take. -/
theorem room_of_walked {order : List NodeId}
    (h : (withGraph (·.postorderOfOutputs) net).answer = .ok order) :
    net.scratch.traversal.toNat + 1 < UInt32.size := by
  by_contra hfull
  have hwalk : (net.graph.postorderOfOutputs net.scratch).answer = .ok order := by
    unfold withGraph at h
    rwa [Action.get_bind_run] at h
  unfold Graph.postorderOfOutputs Graph.postorder at hwalk
  rw [Action.bind_run_error (Scratch.nextTraversal_run_full hfull)] at hwalk
  cases hwalk

/-- The kinds of gate that the live gates of a network have are known in the copy: asked for with
the images of the children of such a gate, a kind answers the image of the gate, without any other
effect than notes. -/
def KeepsKinds (net : Network) (nodes : NodeMap NodeId) (copy : Network) : Prop :=
  ∀ (n : NodeId) (kind : Gate) (c : CoverId), net.graph.LiveGate n → net.graph.slot n = some c →
    net.gateCover kind = some c → (net.graph.childrenOf n).length = kind.arity →
    ∃ images m, Images nodes (net.graph.childrenOf n) images ∧ nodes[n]? = some m ∧
      ∃ notes : List Note, gate kind images copy = ⟨.ok m, copy, notes.map .noted⟩

/-- What the stages of a compaction with sharing on make of the table and of the kinds of gate. -/
theorem Stages.canonical {start middle copy : Network} {inputs : NodeMap NodeId}
    {order : List NodeId} {copying : Copying}
    (h : Stages net inputs start order copying middle copy) (hwell : net.WellFormed)
    (huses : net.graph.references.length < UInt32.size) (hfresh : net.scratch.Fresh)
    (hshare : net.options.share = true) : Canonical copy ∧ KeepsKinds net copying.nodes copy := by
  have hroom := room_of_walked h.walked
  have hbuilding := compact_building hwell
    (compact_eq_ok_iff.2 ⟨inputs, start, order, copying, middle, h, rfl⟩)
  have hoptions : copy.options.share = true := by rw [options_of_building hbuilding]; exact hshare
  have hexact := exact_of_building hbuilding
  obtain ⟨_, _, places, _, hplaces⟩ := (copyInputs_again hwell.graph net.options).of_gives h.copied
  obtain ⟨_, hwired, hfinished⟩ := h.recopied hwell huses hfresh hroom hplaces
  have hcopy := hwired.agrees.wellFormed
  refine ⟨hexact.canonical hcopy hoptions, fun n kind c hlive hslot hknown harity => ?_⟩
  obtain ⟨source, m, image, hsource, hm, himage, himages, hcover, hne⟩ := hfinished.image hlive
  rw [Graph.slot_eq hsource, Option.some.injEq] at hslot
  rw [Graph.childrenOf_eq hsource] at harity ⊢
  -- The copy has the kinds of gate whose covers have been copied, and that of a live gate has been.
  have hkind : copy.gateCover kind = some image.cover := by
    have hsame := (copyOutputs_leaves net.graph copying.nodes _).of_gives h.outputs
    rw [hsame.gateCover]
    show (net.gateCover kind).bind _ = some image.cover
    rw [hknown, ← hslot]
    exact hcover
  have hsettled := hexact.settled hcopy hoptions himage hne
  exact ⟨image.children, m, himages, hm,
    hsettled.gate_run hoptions hkind (himages.length.trans harity)⟩

end Network

open Network

/-- A compact copy is canonical. Of every reachable network with sharing on, whatever substitutions
and phases without sharing it has seen, the compact copy meets the request for any of its gates by
that gate and has no two alike, and it keeps the kinds of gate that live gates have. -/
theorem Reachable.compact_canonical {net : Network} (h : Reachable net)
    (hshare : net.options.share = true) (huses : net.graph.references.length < UInt32.size)
    (hfresh : net.scratch.Fresh) :
    (net.scratch.traversal.toNat < UInt32.size - 1 →
      ∃ copy nodes, (compact net).answer = .ok (copy, nodes)) ∧
    ∀ copy nodes, (compact net).answer = .ok (copy, nodes) →
      Canonical copy ∧ KeepsKinds net nodes copy := by
  have hwell := h.wellFormed
  refine ⟨fun hroom => ?_, fun copy nodes hanswer => ?_⟩
  · obtain ⟨⟨copy, nodes⟩, hanswer, _⟩ := compact_yields hwell huses hfresh (by omega)
    exact ⟨copy, nodes, hanswer⟩
  · obtain ⟨inputs, start, order, copying, middle, hstages, rfl⟩ := compact_eq_ok_iff.1 hanswer
    exact hstages.canonical hwell huses hfresh hshare

/-- Calls that make two gates alike while sharing is off. -/
def loosening : List Call :=
  [⟨_, .addPrimaryInput⟩, ⟨_, .addPrimaryInput⟩, ⟨_, .setOptions .plain⟩, ⟨_, .gate .and [2, 3]⟩,
    ⟨_, .gate .and [2, 3]⟩, ⟨_, .gate .xor [4, 5]⟩, ⟨_, .setOptions .sharing⟩,
    ⟨_, .substitute 3 2⟩, ⟨_, .addPrimaryOutput 6⟩]

/-- The network that the calls make. -/
def loosened : Network := (Network.new .sharing).afterAll loosening

theorem loosened_reachable : Reachable loosened := by
  repeat apply Reachable.run _ (.call _)
  exact .new .sharing

/-- In the network a request for the two gates makes a third one. In its copy they are one, which
the request finds. -/
theorem loosened_compact : Reachable loosened ∧ loosened.options.share = true ∧
    loosened.graph.references.length < UInt32.size ∧ loosened.scratch.Fresh ∧
    loosened.graph.nodes[4]? = loosened.graph.nodes[5]? ∧
    (gate .and [2, 2] loosened).answer = .ok 7 ∧
    ∃ copy nodes, (compact loosened).answer = .ok (copy, nodes) ∧ Canonical copy ∧
      ∃ images m notes, Images nodes [2, 2] images ∧ nodes[4]? = some m ∧
        gate .and images copy = ⟨.ok m, copy, List.map .noted notes⟩ := by
  have hshare : loosened.options.share = true := by decide +kernel
  have huses : loosened.graph.references.length < UInt32.size := by decide +kernel
  have hfresh : loosened.scratch.Fresh := by decide +kernel
  obtain ⟨hanswers, hcanonical⟩ :=
    Reachable.compact_canonical loosened_reachable hshare huses hfresh
  obtain ⟨copy, nodes, hanswer⟩ := hanswers (by decide +kernel)
  obtain ⟨hcopy, hkinds⟩ := hcanonical copy nodes hanswer
  have hbelow : 4 ∈ loosened.graph.childrenOf 6 := by decide +kernel
  have hlive : loosened.graph.LiveGate 4 :=
    ⟨by decide +kernel, 6, by decide +kernel, .single hbelow⟩
  obtain ⟨images, m, himages, hm, notes, hrun⟩ :=
    hkinds 4 .and 4 hlive (by decide +kernel) (by decide +kernel) (by decide +kernel)
  have hchildren : loosened.graph.childrenOf 4 = [2, 2] := by decide +kernel
  rw [hchildren] at himages
  exact ⟨loosened_reachable, hshare, huses, hfresh, by decide +kernel, by decide +kernel, copy,
    nodes, hanswer, hcopy, images, m, notes, himages, hm, hrun⟩

end LogicNet
