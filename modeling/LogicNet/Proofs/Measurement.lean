import LogicNet.Proofs.Statistics
import LogicNet.Proofs.Terminals
import Mathlib.Algebra.Order.BigOperators.Group.Finset

/-!
Statistics of a network and of its compact copy. What an output depends on goes to a node of the
same depth, and the gates of the copy are the images of the gates that some output depends on, with
as many children and cubes each. So depth and fanin are the same in both, and numbers of gates and
cubes can only get smaller, by gates that become one. None of this depends on when the measurements
are taken, or in which order, as long as there are traversal numbers for them.
-/

namespace LogicNet
namespace Network.Copying.Finished

variable {g copy : Graph} {share : Bool} {gates : List NodeId} {copying : Copying}
  {middle : Network} {o : NodeId}

theorem placed_of_live (h : Finished g share gates copying middle copy) (ho : o ∈ g.liveGates) :
    Placed copying.nodes o :=
  (h.placed_iff o).2 (Or.inr (Or.inr ((Graph.mem_liveGates h.source o).1 ho)))

/-- Nodes go to nodes of the same depth. -/
theorem depth_placeOf (h : Finished g share gates copying middle copy)
    (ho : Placed copying.nodes o) : copy.depth (placeOf copying.nodes o) = g.depth o := by
  induction o using Acyclic.induction h.source.acyclic h.source.bounded with
  | step o ih =>
      have hchildren : (copy.childrenOf (placeOf copying.nodes o)).map copy.depth =
          (g.childrenOf o).map g.depth := by
        rw [h.carries.map o ho, List.map_map]
        exact List.map_congr_left fun child hchild =>
          ih child hchild (h.carries.closed o ho child hchild)
      rw [Graph.depth_eq h.wellFormed, Graph.depth_eq h.source, h.isGate_placeOf ho, hchildren]

/-- What an output depends on goes to what an output of the copy depends on. -/
theorem liveNode (h : Finished g share gates copying middle copy) (ho : o ∈ g.liveNodes) :
    Placed copying.nodes o ∧ placeOf copying.nodes o ∈ copy.liveNodes := by
  obtain ⟨output, houtput, hreach⟩ := (Graph.mem_liveNodes h.source o).1 ho
  obtain ⟨hplaced, hreach'⟩ := h.carries.reaches hreach (h.outputs.placed houtput)
  have himage : placeOf copying.nodes output ∈ copy.outputs := by
    rw [h.outputs.eq_map]
    exact List.mem_map_of_mem houtput
  exact ⟨hplaced, (Graph.mem_liveNodes h.wellFormed _).2 ⟨_, himage, hreach'⟩⟩

/-- The deepest outputs are equally deep. -/
theorem deepest_eq (h : Finished g share gates copying middle copy) :
    copy.liveNodes.sup copy.depth = g.liveNodes.sup g.depth := by
  have hdepths : copy.outputs.map copy.depth = g.outputs.map g.depth := by
    rw [h.outputs.eq_map, List.map_map]
    exact List.map_congr_left fun n hn => h.depth_placeOf (h.outputs.placed hn)
  rw [← Graph.sup_depth_outputs h.wellFormed, ← Graph.sup_depth_outputs h.source,
    ← foldl_max_eq_sup, ← foldl_max_eq_sup, hdepths]

/-- Every gate of the copy is live. -/
theorem liveGates_eq_gates (h : Finished g share gates copying middle copy) :
    copy.liveGates = copy.gates.toFinset := by
  ext n
  rw [Graph.mem_liveGates h.wellFormed, List.mem_toFinset, Graph.mem_gates_iff]
  refine ⟨fun ⟨hgate, output, houtput, hreach⟩ => ⟨?_, hgate⟩,
    fun ⟨hlt, hgate⟩ => h.live hlt hgate⟩
  exact h.wellFormed.lt_size_of_reaches (h.wellFormed.output_lt output houtput) hreach

/-- The gates of the copy are where live gates have gone. -/
theorem liveGates_eq (h : Finished g share gates copying middle copy) :
    copy.liveGates = g.liveGates.image (placeOf copying.nodes) := by
  ext n
  rw [h.liveGates_eq_gates, List.mem_toFinset, Graph.mem_gates_iff, Finset.mem_image]
  constructor
  · rintro ⟨hlt, hgate⟩
    obtain ⟨o, ho⟩ := (h.lt_size_iff n).1 hlt
    have hkind := h.isGate_placeOf ⟨n, ho⟩
    rw [placeOf_eq ho, hgate] at hkind
    have hlive := h.liveGate_of_placed ⟨n, ho⟩ hkind.symm
    exact ⟨o, (Graph.mem_liveGates h.source o).2 hlive, placeOf_eq ho⟩
  · rintro ⟨o, ho, rfl⟩
    obtain ⟨m, _, hm, hgate, _⟩ := h.gate ((Graph.mem_liveGates h.source o).1 ho)
    rw [placeOf_eq hm]
    exact ⟨(h.lt_size_iff m).2 ⟨o, hm⟩, hgate⟩

theorem maxFanin_eq (h : Finished g share gates copying middle copy) :
    copy.figures.maxFanin = g.figures.maxFanin := by
  show copy.liveGates.sup _ = g.liveGates.sup _
  rw [h.liveGates_eq, Finset.sup_image]
  refine Finset.sup_congr rfl fun o ho => ?_
  have hchildren := congrArg List.length (h.carries.map o (h.placed_of_live ho))
  rwa [List.length_map] at hchildren

theorem gateCount_eq (h : Finished g share gates copying middle copy) :
    copy.gateCount = copy.liveGates.card := by
  rw [h.liveGates_eq_gates, h.wellFormed.gateCount_eq,
    List.toFinset_card_of_nodup (Graph.gates_sorted.imp Nat.ne_of_lt)]

theorem card_liveGates_le (h : Finished g share gates copying middle copy) :
    copy.liveGates.card ≤ g.liveGates.card := by
  rw [h.liveGates_eq]
  exact Finset.card_image_le

theorem cubeCount_placeOf (h : Finished g share gates copying middle copy)
    (ho : o ∈ g.liveGates) : copy.cubeCount (placeOf copying.nodes o) = g.cubeCount o := by
  obtain ⟨n, cover, hn, _, _, hcover, hcover'⟩ := h.gate ((Graph.mem_liveGates h.source o).1 ho)
  rw [placeOf_eq hn, Graph.cubeCount, Graph.cubeCount, hcover, hcover']

/-- The cubes of the source are those of the copy, once for each gate that has become one. -/
theorem cubes_le (h : Finished g share gates copying middle copy) :
    copy.figures.cubes ≤ g.figures.cubes := by
  calc ∑ n ∈ copy.liveGates, copy.cubeCount n
      = ∑ n ∈ g.liveGates.image (placeOf copying.nodes), copy.cubeCount n := by
        rw [h.liveGates_eq]
    _ ≤ ∑ o ∈ g.liveGates, copy.cubeCount (placeOf copying.nodes o) :=
        Finset.sum_image_le_of_nonneg fun _ _ => Nat.zero_le _
    _ = ∑ o ∈ g.liveGates, g.cubeCount o :=
        Finset.sum_congr rfl fun o ho => h.cubeCount_placeOf ho

/-- Without sharing no two live gates become one. -/
theorem injOn_placeOf (h : Finished g share gates copying middle copy) (hshare : share = false) :
    Set.InjOn (placeOf copying.nodes) g.liveGates := by
  intro a ha b hb hsame
  obtain ⟨m, hm⟩ := h.placed_of_live ha
  obtain ⟨n, hn⟩ := h.placed_of_live hb
  rw [placeOf_eq hm, placeOf_eq hn] at hsame
  exact h.copied.mirrors.apart hshare a b n (hsame ▸ hm) hn

theorem card_liveGates_eq (h : Finished g share gates copying middle copy)
    (hshare : share = false) : copy.liveGates.card = g.liveGates.card := by
  rw [h.liveGates_eq, Finset.card_image_of_injOn (h.injOn_placeOf hshare)]

theorem cubes_eq (h : Finished g share gates copying middle copy) (hshare : share = false) :
    copy.figures.cubes = g.figures.cubes := by
  show ∑ n ∈ copy.liveGates, _ = ∑ n ∈ g.liveGates, _
  rw [h.liveGates_eq, Finset.sum_image (h.injOn_placeOf hshare)]
  exact Finset.sum_congr rfl fun o ho => h.cubeCount_placeOf ho

end Network.Copying.Finished

/-- What depths and summary of a compact copy, the latter of each, have in common with those of its
source. -/
structure Graph.Keeps (g : Graph) (share : Bool) (nodes : NodeMap NodeId)
    (depths depths' : NodeMap Nat) (summary summary' : Summary) : Prop where
  /-- What an output depends on has gone to a node of the same depth. -/
  depth : ∀ o, g.Below g.outputs o → ∃ (n : NodeId) (d : Nat),
    nodes[o]? = some n ∧ depths[o]? = some d ∧ depths'[n]? = some d
  maxFanin : summary'.maxFanin = summary.maxFanin
  deepest : summary'.deepest = summary.deepest
  gates : summary'.gates = summary'.liveGates
  liveGates_le : summary'.liveGates ≤ summary.liveGates
  cubes_le : summary'.cubes ≤ summary.cubes
  /-- Without sharing nothing is lost. -/
  liveGates : share = false → summary'.liveGates = summary.liveGates
  cubes : share = false → summary'.cubes = summary.cubes

theorem Network.Copying.Finished.keeps {g copy : Graph} {share : Bool} {gates : List NodeId}
    {copying : Copying} {middle : Network}
    (h : Finished g share gates copying middle copy) {depths depths' : NodeMap Nat}
    (hdepths : g.DepthTable depths) (hdepths' : copy.DepthTable depths') :
    g.Keeps share copying.nodes depths depths' g.figures copy.figures where
  depth o ho := by
    have hlive := (Graph.mem_liveNodes h.source o).2 ho
    obtain ⟨⟨n, hn⟩, hlive'⟩ := h.liveNode hlive
    have hdepth := h.depth_placeOf ⟨n, hn⟩
    rw [placeOf_eq hn] at hlive' hdepth
    exact ⟨n, g.depth o, hn, (hdepths o _).2 ⟨hlive, rfl⟩, (hdepths' n _).2 ⟨hlive', hdepth.symm⟩⟩
  maxFanin := h.maxFanin_eq
  deepest := h.deepest_eq
  gates := h.gateCount_eq
  liveGates_le := h.card_liveGates_le
  cubes_le := h.cubes_le
  liveGates := h.card_liveGates_eq
  cubes := h.cubes_eq

/-- The calls that measure a network or make its compact copy. -/
inductive Call.Measures : Call → Prop where
  | compact : Measures ⟨_, .compact⟩
  | depths : Measures ⟨_, .depths⟩
  | summary : Measures ⟨_, .summary⟩

namespace Network

variable {net : Network}

/-- The network answers these depths and this summary, at once and when it has been measured before,
once or twice and in whatever order. -/
def Reports (net : Network) (depths : NodeMap Nat) (summary : Summary) : Prop :=
  ∀ asked : List Call, (∀ call ∈ asked, call.Measures) → asked.length ≤ 2 →
    (Network.depths (net.afterAll asked)).answer = .ok depths ∧
    (Network.summary (net.afterAll asked)).answer = .ok summary

/-- A measurement is one walk from the outputs. -/
theorem Ready.walked (h : net.Ready) {call : Call} (hcall : call.Measures) :
    net.Walked net.graph.outputs (net.after call.operation) := by
  cases hcall with
  | compact => exact h.compact_walked
  | depths =>
      obtain ⟨_, _, _, hwalked⟩ := depths_run h.reachable.wellFormed h.scratch
      exact hwalked
  | summary => exact (summary_run h.reachable.wellFormed h.scratch).2

/-- Measurements take a traversal number each and leave all else as it is. -/
theorem Ready.of_measurements {asked : List Call} (h : net.Ready)
    (hasked : ∀ call ∈ asked, call.Measures)
    (hroom : net.scratch.traversal.toNat + asked.length < UInt32.size - 1) :
    (net.afterAll asked).Ready ∧ (net.afterAll asked).graph = net.graph ∧
      (net.afterAll asked).options = net.options := by
  induction asked generalizing net with
  | nil => exact ⟨h, rfl, rfl⟩
  | cons call rest ih =>
      obtain ⟨hcall, hrest⟩ := List.forall_mem_cons.1 hasked
      have hwalked := h.walked hcall
      have hgraph : (net.after call.operation).graph = net.graph := by rw [hwalked.kept]
      have hoptions : (net.after call.operation).options = net.options := by rw [hwalked.kept]
      have htraversal := hwalked.scratch.traversal
      rw [List.length_cons] at hroom
      have hready : (net.after call.operation).Ready :=
        { reachable := .run h.reachable (.call call.operation)
          fresh := hwalked.scratch.fresh
          room := by omega
          uses := hgraph ▸ h.uses }
      obtain ⟨hready', hgraph', hoptions'⟩ := ih hready hrest (by omega)
      exact ⟨hready', hgraph'.trans hgraph, hoptions'.trans hoptions⟩

theorem Ready.reports (h : net.Ready) (hroom : net.scratch.traversal.toNat + 2 < UInt32.size - 1) :
    ∃ depths, net.graph.DepthTable depths ∧ net.Reports depths net.graph.figures := by
  obtain ⟨depths, hwalks, htable⟩ := Graph.depths_walks h.reachable.wellFormed.graph
  refine ⟨depths, htable, fun asked hasked hlength => ?_⟩
  obtain ⟨hready, hgraph, _⟩ := h.of_measurements hasked (by omega)
  have hscratch := hready.scratch
  rw [hgraph] at hscratch
  exact ⟨(Operation.answered_of_walks hwalks hgraph hscratch).1, (Operation.answered_of_walks
    (Graph.summary_walks h.reachable.wellFormed.graph) hgraph hscratch).1⟩

/-- A compact copy is complete, and can be measured like any network. -/
theorem Ready.copied (h : net.Ready) : ∃ copy gates copying middle,
    (compact net).answer = .ok (copy, copying.nodes) ∧ copy.Ready ∧
      copy.scratch = Scratch.clear copy.graph.size ∧
      Copying.Finished net.graph net.options.share gates copying middle copy.graph := by
  obtain ⟨⟨copy, nodes⟩, hanswer⟩ := h.compact_isOk
  obtain ⟨_, _, _, copying, middle, hstages, rfl⟩ := compact_eq_ok_iff.1 hanswer
  have hwell := h.reachable.wellFormed
  obtain ⟨_, _, _, _, hplaces⟩ := (copyInputs_again hwell.graph net.options).of_gives hstages.copied
  obtain ⟨_, hwired, hfinished⟩ := hstages.recopied hwell h.uses h.fresh h.toNat_lt hplaces
  have hscratch := hwired.agrees.scratch
  have hclear := Scratch.Ready.clear copy.graph
  rw [← hscratch] at hclear
  refine ⟨copy, _, copying, middle, hanswer, ?_, hscratch, hfinished⟩
  have huses := hwired.uses_le
  have hroom := hclear.room
  have hsource := h.uses
  rw [Nat.add_assoc _ net.graph.primaryOutputs.length,
    hwell.graph.matched.outputs_length] at huses
  exact
    { reachable := .copy h.reachable hanswer
      fresh := hclear.fresh
      room := by omega
      uses := by omega }

end Network

open Network

/-- Compaction and measurement, in whatever order. A network and its compact copy have depths and
summaries of their own, which do not depend on what has been measured before; what an output depends
on is as deep in the copy, the largest fanin and the deepest path are the same, and of gates and
cubes the copy has no more, and no fewer without sharing. -/
theorem Reachable.compact_keeps_statistics {net : Network} (h : Reachable net)
    (huses : net.graph.references.length < UInt32.size) (hfresh : net.scratch.Fresh)
    (hroom : net.scratch.traversal.toNat < UInt32.size - 3) :
    ∃ depths summary, net.Reports depths summary ∧
      ∀ asked : List Call, (∀ call ∈ asked, call.Measures) → asked.length ≤ 2 →
        ∃ copy nodes depths' summary',
          (compact (net.afterAll asked)).answer = .ok (copy, nodes) ∧
          copy.Reports depths' summary' ∧
          net.graph.Keeps net.options.share nodes depths depths' summary summary' := by
  have hready : net.Ready := ⟨h, hfresh, by omega, huses⟩
  obtain ⟨depths, htable, hreports⟩ := hready.reports (by omega)
  refine ⟨depths, _, hreports, fun asked hasked hlength => ?_⟩
  obtain ⟨hready', hgraph, hoptions⟩ := hready.of_measurements hasked (by omega)
  obtain ⟨copy, gates, copying, middle, hanswer, hcopy, hscratch, hfinished⟩ := hready'.copied
  have hclear : copy.scratch.traversal.toNat + 2 < UInt32.size - 1 := by
    rw [hscratch]
    show (0 : UInt32).toNat + 2 < UInt32.size - 1
    decide
  obtain ⟨depths', htable', hreports'⟩ := hcopy.reports hclear
  rw [hgraph, hoptions] at hfinished
  exact ⟨copy, copying.nodes, depths', _, hanswer, hreports', hfinished.keeps htable htable'⟩

/-- Three live gates become two, and a gate that nothing uses is not copied. The copy is made after
the depths have been asked for. -/
theorem folded_keeps_statistics : folded.graph.references.length < UInt32.size ∧
    folded.scratch.Fresh ∧ folded.scratch.traversal.toNat < UInt32.size - 3 ∧
    ∃ copy nodes summary,
      (compact (folded.afterAll [⟨_, .depths⟩])).answer = .ok (copy, nodes) ∧
      (Network.summary copy).answer = .ok summary ∧ summary.deepest = 2 ∧ summary.maxFanin = 2 ∧
      summary.gates = summary.liveGates ∧ summary.liveGates ≤ 3 ∧ summary.cubes ≤ 4 := by
  have huses : folded.graph.references.length < UInt32.size := by decide +kernel
  have hfresh : folded.scratch.Fresh := by decide +kernel
  have hroom : folded.scratch.traversal.toNat < UInt32.size - 3 := by decide +kernel
  obtain ⟨depths, summary, hreports, hcompact⟩ :=
    Reachable.compact_keeps_statistics folded_reachable huses hfresh hroom
  have hfigures : (Network.summary folded).answer = .ok ⟨9, 4, 3, 4, 2, 2⟩ := by decide +kernel
  cases (hreports [] (by simp) (by decide)).2.symm.trans hfigures
  obtain ⟨copy, nodes, _, summary', hanswer, hreports', hkeeps⟩ :=
    hcompact [⟨_, .depths⟩] (List.forall_mem_singleton.2 .depths) (by decide)
  exact ⟨huses, hfresh, hroom, copy, nodes, summary', hanswer,
    (hreports' [] (by simp) (by decide)).2, hkeeps.deepest, hkeeps.maxFanin, hkeeps.gates,
    hkeeps.liveGates_le, hkeeps.cubes_le⟩

end LogicNet
