import LogicNet.Proofs.Value

/-!
The compact copy as a network that calls lead to. The copy comes about by the elementary changes of
a network that is built, and the covers that it has for kinds of gate are those of the kinds,
because they were copied from covers that are. So a copy is as well formed as the network it was
made from, and so is every reachable network.
-/

namespace LogicNet
namespace Network

theorem Growth.gateCover_eq {net net' : Network} (h : Growth net net') :
    net'.gateCover = net.gateCover := by
  cases h with
  | primaryInput _ => exact addInputNode_gateCover net
  | registerOutput => exact addInputNode_gateCover net
  | gate request fanouts _ _ _ => rw [record_gateCover]; rfl
  | _ => rfl

theorem gateCover_eq_of_growth {net net' : Network} (h : Relation.ReflTransGen Growth net net') :
    net'.gateCover = net.gateCover := by
  induction h with
  | refl => rfl
  | tail _ hstep ih => exact hstep.gateCover_eq.trans ih

namespace Copying

/-- The covers copied so far are covers of the source, and no kind of gate has one yet. -/
structure Covered (g : Graph) (copying : Copying) (copy : Network) : Prop where
  covers : ∀ (c c' : CoverId), copying.covers[c]? = some c' →
    ∃ cover, g.covers[c]? = some cover ∧ copy.graph.covers[c']? = some cover
  gateCover : copy.gateCover = fun _ => none

variable {g : Graph} {copying copying' : Copying} {copy : Network}

theorem Covered.of_growth (h : Covered g copying copy) {copy' : Network}
    (hgrowth : Relation.ReflTransGen Growth copy copy') : Covered g copying copy' where
  covers c c' hc := by
    obtain ⟨cover, hsource, hcopied⟩ := h.covers c c' hc
    have hgrown := grown_of_extensions (extensions_of_growth hgrowth)
    exact ⟨cover, hsource, hgrown.covers c' cover hcopied⟩
  gateCover := (gateCover_eq_of_growth hgrowth).trans h.gateCover

theorem cover_moves (g : Graph) (copying : Copying) (c : CoverId) :
    Action.Moves Growth (copying.cover g c) := by
  unfold Copying.cover
  cases copying.covers[c]? with
  | some copied => exact .pure _
  | none => exact .bind (.lift _) fun _ => .bind (addCover_moves _) fun _ => .pure _

theorem gate_moves (g : Graph) (copying : Copying) (n : NodeId) :
    Action.Moves Growth (copying.gate g n) :=
  .bind (.lift _) fun _ => .bind (.lift _) fun _ => .bind (cover_moves g copying _) fun _ =>
    .bind (node_moves _ _) fun _ => .pure _

/-- A cover of the source is copied to the end of the table. -/
theorem Covered.insert (h : Covered g copying copy) {c : CoverId} {cover : Cover}
    (hsource : g.covers[c]? = some cover) :
    Covered g { copying with covers := copying.covers.insert c copy.graph.covers.size }
      { copy with graph := copy.graph.addCover cover } where
  covers d d' hd := by
    rw [Std.ExtTreeMap.getElem?_insert] at hd
    split at hd
    · next heq =>
        cases hd
        rw [Std.LawfulEqCmp.compare_eq_iff_eq] at heq
        subst heq
        exact ⟨cover, hsource, by simp [Graph.addCover]⟩
    · obtain ⟨other, hother, hcopied⟩ := h.covers d d' hd
      exact ⟨other, hother, WellFormed.covers_of_addCover hcopied⟩
  gateCover := h.gateCover

/-- How a cover is copied: it is found among those copied so far, or added. -/
inductive CoverCopied (g : Graph) (c : CoverId) (copying : Copying) (copy : Network) :
    CoverId → Copying → Network → Prop where
  | found (c' : CoverId) (named : copying.covers[c]? = some c') :
      CoverCopied g c copying copy c' copying copy
  | added (cover : Cover) (new : copying.covers[c]? = none)
      (source : g.covers[c]? = some cover) :
      CoverCopied g c copying copy copy.graph.covers.size
        { copying with covers := copying.covers.insert c copy.graph.covers.size }
        { copy with graph := copy.graph.addCover cover }

theorem cover_copied (g : Graph) (c : CoverId) (copying : Copying) (copy : Network) :
    (copying.cover g c).Leaves copy fun result => CoverCopied g c copying copy result.1 result.2 := by
  unfold Copying.cover
  cases hfound : copying.covers[c]? with
  | some copied => exact .pure (.found copied hfound)
  | none =>
      refine .lift_bind fun cover hsource => (addCover_leaves cover copy).bind
        fun c' copy' ⟨hc, hcopy⟩ => .pure ?_
      rw [hc, hcopy]
      exact .added cover hfound ((Graph.cover_eq_ok_iff _ _ _).1 hsource)

/-- How a gate is copied: its children have been placed, its cover is copied, and a request for both
is met. -/
structure GateCopied (g : Graph) (n : NodeId) (copying : Copying) (copy : Network)
    (copying' : Copying) (copy' : Network) : Prop where
  steps : ∃ source images c covered middle copied, g.nodes[n]? = some source ∧
    (source.children.mapM (copying.child n) : Except Fault (List NodeId)) = .ok images ∧
    CoverCopied g source.cover copying copy c covered middle ∧
    Met middle ⟨images, c⟩ copied copy' ∧
    copying' = { covered with nodes := covered.nodes.insert n copied }

theorem gate_copied (g : Graph) (n : NodeId) (copying : Copying) (copy : Network) :
    (copying.gate g n).Leaves copy (GateCopied g n copying copy) := by
  refine .lift_bind fun source hsource => .lift_bind fun images himages =>
    (cover_copied g source.cover copying copy).bind fun ⟨c, covered⟩ middle hcovered =>
    .bind (fun copied hcopied => node_met hcopied) fun copied copy' hmet => .pure ?_
  exact ⟨source, images, c, covered, middle, copied, (Graph.node_eq_ok_iff _ _ _).1 hsource,
    himages, hcovered, hmet, rfl⟩

/-- Copying a cover finds it among those copied or adds it, and says where it is. -/
theorem CoverCopied.covered {c c' : CoverId} {copy' : Network}
    (hcopied : CoverCopied g c copying copy c' copying' copy') (h : Covered g copying copy) :
    Covered g copying' copy' ∧ copying'.nodes = copying.nodes ∧
      copying'.covers[c]? = some c' := by
  cases hcopied with
  | found c' named => exact ⟨h, rfl, named⟩
  | added cover new source => exact ⟨h.insert source, rfl, by simp⟩

theorem GateCopied.covered {n : NodeId} {copy' : Network}
    (hcopied : GateCopied g n copying copy copying' copy') (h : Covered g copying copy) :
    Covered g copying' copy' := by
  obtain ⟨source, images, c, covered, middle, copied, _, _, hcover, hmet, rfl⟩ := hcopied.steps
  obtain ⟨hmiddle, _, _⟩ := hcover.covered h
  have hgrown := hmiddle.of_growth hmet.growths
  exact ⟨hgrown.covers, hgrown.gateCover⟩

theorem gates_covered (order : List NodeId) (h : Covered g copying copy) :
    (order.foldlM (Copying.gate g) copying).Leaves copy (Covered g) :=
  .foldlM (fun _ => Covered g) (fun _ n _ copying copy _ h copying' hrun =>
    (gate_copied g n copying copy copying' hrun).covered h) h

/-- The kinds of gate get covers that are theirs. -/
theorem Covered.gateCover_right (h : Covered g copying copy) {source : Gate → Option CoverId}
    (hsource : ∀ kind c, source kind = some c → g.covers[c]? = some kind.cover) :
    Building copy { copy with gateCover := copying.gateCover source } := by
  refine ⟨.gateCover _ (fun kind c hc => ?_) fun kind c' hc => ?_, rfl, rfl⟩
  · rw [h.gateCover] at hc
    cases hc
  · obtain ⟨c, hkind, hcopied⟩ := Option.bind_eq_some_iff.1 hc
    obtain ⟨cover, hcover, hcopy⟩ := h.covers c c' hcopied
    rw [hsource kind c hkind] at hcover
    cases hcover
    exact Or.inr hcopy

end Copying

theorem copyInputs_moves (g : Graph) : Action.Moves Growth (copyInputs g) := by
  have hinputs : ∀ {create : Action Network NodeId}, Action.Moves Growth create →
      ∀ nodes sources, Action.Moves Growth (Copying.inputs create nodes sources) := by
    intro create hcreate nodes sources
    exact .foldlM (fun nodes source => .bind hcreate fun _ => .pure _) sources nodes
  exact .bind (hinputs addPrimaryInput_moves _ _) fun nodes =>
    hinputs addRegisterOutput_moves nodes _

theorem copyRest_building {net copy : Network} (h : net.WellFormed)
    (hnone : copy.gateCover = fun _ => none) {order : List NodeId} {nodes nodes' : NodeMap NodeId}
    (hrun : (copyRest net order nodes copy).answer = .ok nodes') :
    Relation.ReflTransGen Building copy (copyRest net order nodes copy).state := by
  unfold copyRest at hrun ⊢
  obtain ⟨copying, hgates, hrun⟩ := Action.exists_of_bind_ok hrun
  rw [Action.bind_state_of_ok hgates, Action.modify_bind_run]
  have hempty : Copying.Covered net.graph ⟨nodes, ∅⟩ copy :=
    ⟨fun c c' hc => by simp at hc, hnone⟩
  have hcovered := Copying.gates_covered _ hempty _ hgates
  refine Relation.ReflTransGen.trans ?_ (Relation.ReflTransGen.head
    (hcovered.gateCover_right h.gateCover) ?_)
  · exact building_moves (.foldlM (fun copying n => Copying.gate_moves net.graph copying n) _ _) copy
  · exact building_moves (.bind (.forM (fun _ => .bind (.lift _) fun _ =>
      .bind (addPrimaryOutput_moves _) fun _ => .pure _) _) fun _ =>
      .bind (.forM (fun _ => .bind (.lift _) fun _ =>
        .bind (addRegisterInput_moves _ _) fun _ => .pure _) _) fun _ => .pure _) _

/-- A compact copy is built from a new network. -/
theorem compact_building {net copy : Network} {nodes : NodeMap NodeId} (h : net.WellFormed)
    (hrun : (compact net).answer = .ok (copy, nodes)) :
    Relation.ReflTransGen Building (Network.new net.options) copy := by
  unfold compact at hrun
  rw [Action.get_bind_run] at hrun
  obtain ⟨inputs, hinputs, hrun⟩ := Action.exists_of_elsewhere_bind_ok hrun
  obtain ⟨order, _, hrun⟩ := Action.exists_of_bind_ok hrun
  obtain ⟨all, hrest, hrun⟩ := Action.exists_of_elsewhere_bind_ok hrun
  simp only [Action.note_bind_run] at hrun
  obtain ⟨_, _, hrun⟩ := Action.exists_of_bind_ok hrun
  cases hrun
  have hstart := copyInputs_moves net.graph (Network.new net.options)
  exact (building_of_growth hstart).trans
    (copyRest_building h (gateCover_eq_of_growth hstart) hrest)

theorem compact_extension {net copy : Network} {nodes : NodeMap NodeId} (h : net.WellFormed)
    (hrun : (compact net).answer = .ok (copy, nodes)) :
    Relation.ReflTransGen Extension (Network.new net.options) copy :=
  extensions_of_building (compact_building h hrun)

end Network

/-- Every reachable network comes about from a new one by elementary changes. -/
theorem Reachable.changes {net : Network} (h : Reachable net) :
    ∃ options, Relation.ReflTransGen Network.Change (Network.new options) net := by
  induction h with
  | new options => exact ⟨options, .refl⟩
  | run _ hscript ih =>
      obtain ⟨options, hchanges⟩ := ih
      exact ⟨options, hchanges.trans (hscript.changes _)⟩
  | @copy net copy nodes _ hrun ih =>
      obtain ⟨options, hchanges⟩ := ih
      have hwell := (Network.WellFormed.new options).of_changes hchanges
      exact ⟨net.options, Relation.ReflTransGen.mono (fun _ _ => Network.Change.extension) _ _
        (Network.compact_extension hwell hrun)⟩

theorem Reachable.wellFormed {net : Network} (h : Reachable net) : net.WellFormed := by
  obtain ⟨options, hchanges⟩ := h.changes
  exact (Network.WellFormed.new options).of_changes hchanges

end LogicNet
