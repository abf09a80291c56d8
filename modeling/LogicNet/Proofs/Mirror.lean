import LogicNet.Proofs.Exact
import LogicNet.Proofs.Transfer

/-!
A copy mirrors its source node by node. What has been placed so far are the constants and the
inputs, each at a node of its own, and the gates, each at a node that applies the copy of its cover
to where its children have gone; the nodes of the copy are exactly the places. A gate goes to an
older node only if sharing is on. Covers are copied once, in the order of their first use.
-/

namespace LogicNet
namespace Graph

variable {g : Graph} {n : NodeId} {c : CoverId} {ns : List NodeId}

theorem mem_constants {n : Nat} : n ∈ [0, 1] ↔ ∃ value, n = constant value := by
  constructor
  · intro hn
    rcases List.mem_pair.1 hn with rfl | rfl
    · exact ⟨false, rfl⟩
    · exact ⟨true, rfl⟩
  · rintro ⟨value, rfl⟩
    cases value <;> decide

/-- The name of the cover that a node applies. -/
def slot (g : Graph) (n : NodeId) : Option CoverId := (g.nodes[n]?).map (·.cover)

/-- The names of the covers that nodes apply, in the order of their first use. -/
def slots (g : Graph) (ns : List NodeId) : List CoverId := (ns.filterMap g.slot).eraseDups

theorem slot_eq {node : Node} (h : g.nodes[n]? = some node) : g.slot n = some node.cover := by
  rw [slot, h]
  rfl

theorem mem_slots : c ∈ g.slots ns ↔ ∃ n ∈ ns, g.slot n = some c := by
  rw [slots, List.mem_eraseDups, List.mem_filterMap]

theorem eraseDups_snoc (cs : List CoverId) (c : CoverId) :
    (cs ++ [c]).eraseDups = if c ∈ cs then cs.eraseDups else cs.eraseDups ++ [c] := by
  rw [List.eraseDups_append]
  split
  · next hc => simp [List.removeAll, hc]
  · next hc => simp [List.removeAll, hc, List.eraseDups_cons]

theorem slots_snoc (ns : List NodeId) (h : g.slot n = some c) :
    g.slots (ns ++ [n]) = if c ∈ g.slots ns then g.slots ns else g.slots ns ++ [c] := by
  have hmap : (ns ++ [n]).filterMap g.slot = ns.filterMap g.slot ++ [c] := by
    simp [h]
  simp only [slots, hmap, eraseDups_snoc, List.mem_eraseDups]

theorem slots_nodup (g : Graph) (ns : List NodeId) : (g.slots ns).Nodup := by
  unfold slots
  induction ns.filterMap g.slot using List.reverseRecOn with
  | nil => exact List.nodup_nil
  | append_singleton cs c ih =>
      rw [eraseDups_snoc]
      split
      · exact ih
      · next hc =>
          refine ih.append (List.nodup_singleton c) fun d hd hdc => hc ?_
          rw [← List.mem_singleton.1 hdc]
          exact List.mem_eraseDups.1 hd

theorem WellFormed.nodup_constants_inputs (h : g.WellFormed) : ([0, 1] ++ g.inputs).Nodup := by
  refine List.nodup_append.2 ⟨by decide, h.inputs_nodup, fun n hn m hm heq => ?_⟩
  have hlt := (h.input_lt m hm).1
  rw [← heq] at hlt
  rcases List.mem_pair.1 hn with rfl | rfl
  · cases hlt
  · exact Nat.lt_irrefl _ hlt

/-- Constants, inputs and gates are apart. -/
theorem WellFormed.nodup_append_gates (h : g.WellFormed) {gates : List NodeId}
    (hnodup : gates.Nodup) (hgates : ∀ n ∈ gates, g.isGate n = true) :
    ([0, 1] ++ g.inputs ++ gates).Nodup := by
  refine List.nodup_append.2 ⟨h.nodup_constants_inputs, hnodup, fun n hn m hm heq => ?_⟩
  obtain ⟨hlt, hinput⟩ := (h.isGate_iff m).1 (hgates m hm)
  rw [← heq] at hlt hinput
  rcases List.mem_append.1 hn with hn | hn
  · rcases List.mem_pair.1 hn with rfl | rfl
    · cases hlt
    · exact Nat.lt_irrefl _ hlt
  · exact hinput hn

end Graph

namespace Network
namespace Copying

/-- A gate has gone to a node that applies the copy of its cover to where its children have gone. -/
structure Mirrored (g : Graph) (copying : Copying) (copy : Graph) (o : NodeId) : Prop where
  image : ∃ source n node, g.nodes[o]? = some source ∧ copying.nodes[o]? = some n ∧
    copy.nodes[n]? = some node ∧ Images copying.nodes source.children node.children ∧
    copying.covers[source.cover]? = some node.cover

/-- The nodes in `kept` have been placed, and the nodes of the copy are their places; those in
`gates` are gates. -/
structure Mirrors (g : Graph) (share : Bool) (kept gates : List NodeId) (copying : Copying)
    (copy : Network) : Prop where
  share_eq : copy.options.share = share
  exact : copy.Exact
  placed_iff : ∀ o, Placed copying.nodes o ↔ o ∈ kept
  lt_size_iff : ∀ n : Nat, n < copy.graph.size ↔ ∃ o : NodeId, copying.nodes[o]? = some n
  constants : ∀ value, copying.nodes[Graph.constant value]? = some (Graph.constant value)
  apart : share = false → ∀ a b n : NodeId, copying.nodes[a]? = some n →
    copying.nodes[b]? = some n → a = b
  gates : ∀ o ∈ gates, Mirrored g copying copy.graph o

/-- The covers that `gates` apply have been copied, in the order of their first use, and come after
`base` others. -/
structure Slotted (g : Graph) (gates : List NodeId) (base : Nat) (copying : Copying)
    (copy : Network) : Prop where
  covers : ∀ c, copying.covers[c]? = ((g.slots gates).idxOf? c).map (base + ·)
  covers_size : copy.graph.covers.size = base + (g.slots gates).length

variable {g : Graph} {share : Bool} {kept gates : List NodeId} {copying copying' : Copying}
  {copy copy' : Network} {o n : NodeId} {node : Node}

theorem Mirrored.mono {graph graph' : Graph} (h : Mirrored g copying graph o)
    (hnodes : ∀ p m : NodeId, copying.nodes[p]? = some m → copying'.nodes[p]? = some m)
    (hcovers : ∀ c c' : CoverId, copying.covers[c]? = some c' → copying'.covers[c]? = some c')
    (hgraph : ∀ (m : NodeId) (other : Node), graph.nodes[m]? = some other →
      graph'.nodes[m]? = some other) : Mirrored g copying' graph' o := by
  obtain ⟨source, n, node, hsource, hn, hnode, himages, hcover⟩ := h.image
  exact ⟨source, n, node, hsource, hnodes o n hn, hgraph n node hnode, himages.mono hnodes,
    hcovers _ _ hcover⟩

namespace Mirrors

theorem not_placed (h : Mirrors g share kept gates copying copy) (ho : o ∉ kept) :
    ¬ Placed copying.nodes o := fun hplaced => ho ((h.placed_iff o).1 hplaced)

/-- Something new is placed at a node that is new as well unless sharing is on. -/
theorem place (h : Mirrors g share kept gates copying copy) (ho : o ∉ kept)
    (hprovides : Provides copy node n copy') {covers : Std.ExtTreeMap CoverId CoverId}
    (hcovers : ∀ c c' : CoverId, copying.covers[c]? = some c' → covers[c]? = some c') :
    Mirrors g share (kept ++ [o]) gates ⟨copying.nodes.insert o n, covers⟩ copy' := by
  have hinsert : ∀ p m : NodeId, (copying.nodes.insert o n)[p]? = some m ↔
      (p = o ∧ m = n) ∨ copying.nodes[p]? = some m :=
    insert_node_eq_some_iff (h.not_placed ho)
  have hmono := fun p m hp => (hinsert p m).2 (Or.inr hp)
  refine
    { share_eq := by rw [hprovides.options, h.share_eq]
      exact := hprovides.exact
      placed_iff := fun p => ?_
      lt_size_iff := fun m => ?_
      constants := fun value => hmono _ _ (h.constants value)
      apart := fun hoff => ?_
      gates := fun p hp => (h.gates p hp).mono hmono hcovers hprovides.kept }
  · rw [List.mem_append, List.mem_singleton, ← h.placed_iff p]
    simp only [Placed, hinsert, exists_or, exists_and_left, exists_eq, and_true]
    exact or_comm
  · rw [hprovides.lt_size_iff, h.lt_size_iff]
    simp only [hinsert, exists_or, exists_and_right, exists_eq, true_and]
    exact or_comm
  · -- With sharing off `n` is a new node, so nothing else is placed there.
    have hnew : ∀ p : NodeId, copying.nodes[p]? ≠ some n := by
      intro p hp
      have hlt := (h.lt_size_iff n).2 ⟨p, hp⟩
      rw [hprovides.new (h.share_eq.trans hoff)] at hlt
      exact Nat.lt_irrefl _ hlt
    intro a b m hplaceda hplacedb
    rcases (hinsert a m).1 hplaceda with ⟨rfl, rfl⟩ | ha
    · rcases (hinsert b m).1 hplacedb with ⟨rfl, _⟩ | hb
      · rfl
      · exact absurd hb (hnew b)
    · rcases (hinsert b m).1 hplacedb with ⟨rfl, rfl⟩ | hb
      · exact absurd ha (hnew a)
      · exact h.apart hoff a b m ha hb

theorem start (g : Graph) (options : Options) :
    Mirrors g options.share [0, 1] [] ⟨Copying.constants, ∅⟩ (Network.new options) where
  share_eq := rfl
  exact := .new options
  placed_iff o := by
    rw [Graph.mem_constants]
    constructor
    · rintro ⟨n, hn⟩
      obtain ⟨value, ho, _⟩ := constants_eq_some_iff.1 hn
      exact ⟨value, ho⟩
    · rintro ⟨value, ho⟩
      exact ⟨_, constants_eq_some_iff.2 ⟨value, ho, rfl⟩⟩
  lt_size_iff n := by
    have hlt : n < (Network.new options).graph.size ↔ n ∈ [0, 1] := by
      show n < 2 ↔ n ∈ [0, 1]
      simp only [List.mem_cons, List.not_mem_nil, or_false]
      omega
    rw [hlt, Graph.mem_constants]
    constructor
    · rintro ⟨value, hn⟩
      exact ⟨_, constants_eq_some_iff.2 ⟨value, rfl, hn⟩⟩
    · rintro ⟨o, ho⟩
      obtain ⟨value, _, hn⟩ := constants_eq_some_iff.1 ho
      exact ⟨value, hn⟩
  constants value := constants_eq_some_iff.2 ⟨value, rfl, rfl⟩
  apart _ a b n ha hb := by
    obtain ⟨value, rfl, rfl⟩ := constants_eq_some_iff.1 ha
    obtain ⟨value', rfl, heq⟩ := constants_eq_some_iff.1 hb
    exact heq
  gates o ho := by cases ho

end Mirrors

/-- What copying a cover leaves as it is, and what it says about the cover. -/
theorem CoverCopied.beside {c c' : CoverId} (h : CoverCopied g c copying copy c' copying' copy') :
    copy'.graph.nodes = copy.graph.nodes ∧ copy'.table = copy.table ∧
      copy'.options = copy.options ∧ copying'.nodes = copying.nodes ∧
      copying'.covers[c]? = some c' ∧
      ∀ d d' : CoverId, copying.covers[d]? = some d' → copying'.covers[d]? = some d' := by
  cases h with
  | found c' named => exact ⟨rfl, rfl, rfl, rfl, named, fun _ _ hd => hd⟩
  | added cover new source =>
      refine ⟨rfl, rfl, rfl, rfl, by simp, fun d d' hd => ?_⟩
      rw [Std.ExtTreeMap.getElem?_insert, if_neg, hd]
      rw [Std.LawfulEqCmp.compare_eq_iff_eq]
      rintro rfl
      rw [new] at hd
      cases hd

/-- A gate that is copied is mirrored, and so are those before it. -/
theorem Mirrors.gate (h : Mirrors g share kept gates copying copy) (ho : o ∉ kept)
    (hne : g.childrenOf o ≠ []) (hcopied : GateCopied g o copying copy copying' copy') :
    Mirrors g share (kept ++ [o]) (gates ++ [o]) copying' copy' := by
  obtain ⟨source, images, c, covered, middle, n, hsource, hmap, hcover, hmet, rfl⟩ :=
    hcopied.steps
  obtain ⟨hnodes, htable, hoptions, hplaces, hnamed, hcovers⟩ := hcover.beside
  have himages := mapM_child_iff.1 hmap
  have hne' : images ≠ [] := by
    rw [Graph.childrenOf_eq hsource] at hne
    rw [← List.length_pos_iff, himages.length]
    exact List.length_pos_iff.2 hne
  have hexact := h.exact.congr hnodes htable hoptions
  have hprovides := (hmet.provides hexact hne').of_nodes_eq hnodes hoptions
  have hplaced := h.place ho hprovides hcovers
  rw [hplaces]
  refine { hplaced with gates := fun p hp => ?_ }
  rcases List.mem_append.1 hp with hp | hp
  · exact hplaced.gates p hp
  · rw [List.mem_singleton.1 hp]
    have hself : (copying.nodes.insert o n)[o]? = some n := by
      rw [getElem?_insert_node, if_pos rfl]
    have hmono : ∀ q m : NodeId, copying.nodes[q]? = some m →
        (copying.nodes.insert o n)[q]? = some m :=
      fun q m hq => (insert_node_eq_some_iff (h.not_placed ho) q m).2 (Or.inr hq)
    exact ⟨source, n, ⟨images, c⟩, hsource, hself, hprovides.node, himages.mono hmono, hnamed⟩

theorem idxOf?_snoc {cs : List CoverId} {c : CoverId} (hc : c ∉ cs) (d : CoverId) :
    (cs ++ [c]).idxOf? d = if d = c then some cs.length else cs.idxOf? d := by
  rw [List.idxOf?, List.findIdx?_append]
  by_cases hd : d = c
  · subst hd
    have hnone : cs.findIdx? (· == d) = none := List.idxOf?_eq_none_iff.2 hc
    simp [hnone]
  · simp [hd, Ne.symm hd]

namespace Slotted

variable {base : Nat} {c c' : CoverId}

/-- Two covers do not go to one place. -/
theorem eq (h : Slotted g gates base copying copy) {d : CoverId}
    (hc : copying.covers[c]? = some c') (hd : copying.covers[d]? = some c') : c = d := by
  rw [h.covers, Option.map_eq_some_iff] at hc hd
  obtain ⟨i, hi, hplace⟩ := hc
  obtain ⟨j, hj, rfl⟩ := hd
  obtain ⟨_, hi, _⟩ := List.idxOf?_eq_some_iff.1 hi
  obtain ⟨_, hj, _⟩ := List.idxOf?_eq_some_iff.1 hj
  have heq : i = j := by omega
  subst heq
  exact hi.symm.trans hj

theorem named_iff (h : Slotted g gates base copying copy) :
    (∃ d, copying.covers[c]? = some d) ↔ c ∈ g.slots gates := by
  rw [h.covers]
  constructor
  · rintro ⟨d, hd⟩
    obtain ⟨i, hi, _⟩ := Option.map_eq_some_iff.1 hd
    obtain ⟨hlt, rfl, _⟩ := List.idxOf?_eq_some_iff.1 hi
    exact List.getElem_mem hlt
  · intro hc
    cases hi : (g.slots gates).idxOf? c with
    | none => exact absurd hc (List.idxOf?_eq_none_iff.1 hi)
    | some i => exact ⟨_, rfl⟩

/-- A cover takes the next place if it has none. -/
theorem cover (h : Slotted g gates base copying copy) (hslot : g.slot o = some c)
    (hcopied : CoverCopied g c copying copy c' copying' copy') :
    Slotted g (gates ++ [o]) base copying' copy' := by
  cases hcopied with
  | found c' named =>
      have hin := h.named_iff.1 ⟨c', named⟩
      refine ⟨fun d => ?_, ?_⟩
      · rw [Graph.slots_snoc gates hslot, if_pos hin, h.covers]
      · rw [Graph.slots_snoc gates hslot, if_pos hin, h.covers_size]
  | added cover new source =>
      have hout : c ∉ g.slots gates := fun hin => by
        obtain ⟨d, hd⟩ := h.named_iff.2 hin
        rw [new] at hd
        cases hd
      refine ⟨fun d => ?_, ?_⟩
      · rw [Graph.slots_snoc gates hslot, if_neg hout, idxOf?_snoc hout,
          Std.ExtTreeMap.getElem?_insert, h.covers_size]
        simp only [Std.LawfulEqCmp.compare_eq_iff_eq, eq_comm (a := c)]
        split
        · rfl
        · exact h.covers d
      · rw [Graph.slots_snoc gates hslot, if_neg hout, Graph.addCover, Array.size_push,
          h.covers_size, List.length_append, List.length_singleton, Nat.add_assoc]

theorem gate (h : Slotted g gates base copying copy)
    (hcopied : GateCopied g o copying copy copying' copy') :
    Slotted g (gates ++ [o]) base copying' copy' := by
  obtain ⟨source, images, c, covered, middle, n, hsource, _, hcover, hmet, rfl⟩ := hcopied.steps
  have hmiddle := h.cover (Graph.slot_eq hsource) hcover
  exact ⟨hmiddle.covers, by rw [hmet.covers, hmiddle.covers_size]⟩

end Slotted

/-- The constants, the given inputs and the given gates have been copied, and nothing else. -/
structure Copied (g : Graph) (share : Bool) (inputs gates : List NodeId) (copying : Copying)
    (copy : Network) : Prop where
  mirrors : Mirrors g share ([0, 1] ++ inputs ++ gates) gates copying copy
  slotted : Slotted g gates (2 + inputs.length) copying copy

end Copying

/-- A network with an input more, which has a cover of its own. -/
structure InputAdded (net : Network) (n : NodeId) (net' : Network) : Prop where
  name : n = net.graph.size
  nodes : net'.graph.nodes = net.graph.nodes.push net.graph.inputNode
  covers : net'.graph.covers = net.graph.covers.push Cover.identity
  options : net'.options = net.options
  table : ∀ request, net'.table.find? request =
    if net.options.share = true ∧ net.graph.inputNode = request
    then some net.graph.size else net.table.find? request

theorem InputAdded.exact {net net' : Network} {n : NodeId} (h : InputAdded net n net')
    (hexact : net.Exact) : net'.Exact :=
  hexact.push h.nodes h.options h.table fun hne => absurd rfl hne

theorem addPrimaryInput_added (net : Network) : addPrimaryInput.Leaves net (InputAdded net) := by
  intro n hn
  by_cases hfirst : net.graph.inputs.length = net.graph.primaryInputCount
  · obtain ⟨hanswer, hstate⟩ := addPrimaryInput_run hfirst
    rw [hanswer] at hn
    cases hn
    rw [hstate]
    exact ⟨rfl, rfl, rfl, addInputNode_options net, find?_addInputNode_table net⟩
  · unfold addPrimaryInput at hn
    rw [Action.get_bind_run, Action.require_bind_run_error hfirst] at hn
    cases hn

theorem addRegisterOutput_added (net : Network) :
    addRegisterOutput.Leaves net (InputAdded net) := by
  intro n hn
  obtain ⟨hanswer, hstate⟩ := addRegisterOutput_run net
  rw [hanswer] at hn
  cases hn
  rw [hstate]
  exact ⟨rfl, by simp, by simp, addInputNode_options net, find?_addInputNode_table net⟩

namespace Copying

variable {g : Graph} {share : Bool} {nodes : NodeMap NodeId} {copying copying' : Copying}
  {copy copy' : Network} {o n : NodeId}

theorem Copied.start (g : Graph) (options : Options) :
    Copied g options.share [] [] ⟨Copying.constants, ∅⟩ (Network.new options) where
  mirrors := .start g options
  slotted := ⟨fun c => by simp [Graph.slots], rfl⟩

/-- The next input is copied. -/
theorem Copied.input {done : List NodeId} (h : Copied g share done [] ⟨nodes, ∅⟩ copy)
    (ho : o ∉ [0, 1] ++ done) (hadded : InputAdded copy n copy') :
    Copied g share (done ++ [o]) [] ⟨nodes.insert o n, ∅⟩ copy' where
  mirrors := by
    have hexact := hadded.exact h.mirrors.exact
    obtain ⟨rfl, hnodes, hcovers, hoptions, htable⟩ := hadded
    have hplaced := h.mirrors.place (by simpa using ho) (.push hnodes hoptions hexact)
      fun c c' hc => hc
    simpa using hplaced
  slotted := by
    refine ⟨fun c => by simp [Graph.slots], ?_⟩
    rw [hadded.covers, Array.size_push, h.slotted.covers_size, List.length_append]
    simp [Graph.slots, Nat.add_assoc]

/-- Inputs are copied one after the other. -/
theorem Copied.inputs {create : Action Network NodeId}
    (hcreate : ∀ net, create.Leaves net (InputAdded net)) {before sources : List NodeId}
    (hnodup : ([0, 1] ++ before ++ sources).Nodup)
    (h : Copied g share before [] ⟨nodes, ∅⟩ copy) :
    (Copying.inputs create nodes sources).Leaves copy fun nodes copy =>
      Copied g share (before ++ sources) [] ⟨nodes, ∅⟩ copy := by
  refine Action.Leaves.foldlM
    (fun done nodes copy => Copied g share (before ++ done) [] ⟨nodes, ∅⟩ copy) ?_
    (by simpa using h)
  intro done o rest nodes copy hsplit h
  refine (hcreate copy).bind fun n copy' hadded => .pure ?_
  rw [← List.append_assoc]
  refine h.input ?_ hadded
  rw [hsplit, ← List.append_assoc, List.append_assoc [0, 1]] at hnodup
  exact notMem_of_nodup_append hnodup

/-- A gate is copied. -/
theorem Copied.gate {inputs before : List NodeId} (h : Copied g share inputs before copying copy)
    (ho : o ∉ [0, 1] ++ inputs ++ before) (hne : g.childrenOf o ≠ [])
    (hcopied : GateCopied g o copying copy copying' copy') :
    Copied g share inputs (before ++ [o]) copying' copy' where
  mirrors := by
    rw [← List.append_assoc]
    exact h.mirrors.gate ho hne hcopied
  slotted := h.slotted.gate hcopied

/-- Gates are copied one after the other. -/
theorem Copied.gates {inputs gates : List NodeId} (h : Copied g share inputs [] copying copy)
    (hnodup : ([0, 1] ++ inputs ++ gates).Nodup) (hne : ∀ n ∈ gates, g.childrenOf n ≠ []) :
    (gates.foldlM (Copying.gate g) copying).Leaves copy (Copied g share inputs gates) := by
  refine Action.Leaves.foldlM (Copied g share inputs) ?_ h
  intro before n rest copying copy hsplit h copying' hrun
  refine h.gate ?_ (hne n (by simp [hsplit])) (gate_copied g n copying copy copying' hrun)
  rw [hsplit, ← List.append_assoc] at hnodup
  exact notMem_of_nodup_append hnodup

end Copying

/-- The inputs of a graph are copied, the primary ones first. -/
theorem copyInputs_copied {g : Graph} (hg : g.WellFormed) (options : Options) :
    (copyInputs g).Leaves (Network.new options) fun nodes copy =>
      Copying.Copied g options.share g.inputs [] ⟨nodes, ∅⟩ copy := by
  have hnodup := hg.nodup_constants_inputs
  rw [← g.primaryInputs_append, ← List.append_assoc] at hnodup
  have hprimary : ([0, 1] ++ [] ++ g.primaryInputs).Nodup := (List.nodup_append.1 hnodup).1
  rw [← g.primaryInputs_append]
  exact (Copying.Copied.inputs addPrimaryInput_added hprimary (.start g options)).bind
    fun nodes copy h => Copying.Copied.inputs addRegisterOutput_added hnodup h

end Network
end LogicNet
