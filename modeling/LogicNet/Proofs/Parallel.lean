import LogicNet.Proofs.Abreast

/-!
The construction calls side by side. Each is met on a network without sharing exactly if it is met
on one with sharing, and only a request for a gate can be met differently: by a new node on the first
network, and on the second one by an older node if there is one for the same request. Whatever is
composed of such calls has the same property, the reductions by any construction among it.
-/

namespace LogicNet

namespace Network

variable {f : NodeId → NodeId} {s t : Network}

/-- What two calls came to of which the first one made a new node. -/
theorem Abreast.created {left right : Outcome Network NodeId} {m : NodeId}
    (hfolded : Folded (placing f s.graph.size m) left.state right.state)
    (hsize : left.state.graph.size = s.graph.size + 1) (hleft : left.answer = .ok s.graph.size)
    (hright : right.answer = .ok m) (hnodes : answered left.journal = [s.graph.size])
    (hnodes' : answered right.journal = [m]) :
    Abreast Goes f s left right (placing f s.graph.size m) := by
  have hgoes : Goes (placing f s.graph.size m) left.state s.graph.size m :=
    ⟨hsize ▸ Nat.lt_succ_self _, (placing_self f _ _).symm⟩
  refine ⟨hfolded, ⟨hsize ▸ Nat.le_succ _, fun n hn => placing_of_lt hn⟩, ?_, fun n hn => ?_, ?_⟩
  · rw [hnodes, hnodes']
    exact .singleton hgoes
  · rw [hsize] at hn
    rw [hnodes, List.mem_singleton]
    exact Nat.lt_succ_iff_lt_or_eq.1 hn
  · rw [hleft, hright]
    exact .answered hgoes

section Inputs

theorem addPrimaryInput_answered {net : Network}
    (hfirst : net.graph.inputs.length = net.graph.primaryInputCount) :
    answered (addPrimaryInput net).journal = [net.graph.size] := by
  unfold addPrimaryInput
  rw [Action.get_bind_run, Action.require_bind_run hfirst]
  rfl

theorem addPrimaryInput_refused {net : Network}
    (hfirst : net.graph.inputs.length ≠ net.graph.primaryInputCount) :
    addPrimaryInput net = ⟨.error .lateInput, net, []⟩ := by
  unfold addPrimaryInput
  rw [Action.get_bind_run, Action.require_bind_run_error hfirst]

theorem addPrimaryInput_together : Together Goes f s t addPrimaryInput addPrimaryInput := by
  refine .of_folded fun hfolded => ?_
  by_cases hfirst : s.graph.inputs.length = s.graph.primaryInputCount
  swap
  · have hfirst' := mt hfolded.inputs_first_iff.1 hfirst
    exact (Together.fail _ _).congr (addPrimaryInput_refused hfirst)
      (addPrimaryInput_refused hfirst')
  have hfirst' := hfolded.inputs_first_iff.2 hfirst
  have hs := Gains.primaryInput hfirst
  intro _ _ _
  exact ⟨_, .created (hfolded.input hs (Gains.primaryInput hfirst')) hs.size_eq
    (addPrimaryInput_run hfirst).1 (addPrimaryInput_run hfirst').1
    (addPrimaryInput_answered hfirst) (addPrimaryInput_answered hfirst')⟩

theorem addRegisterOutput_together : Together Goes f s t addRegisterOutput addRegisterOutput := by
  intro hfolded _ _
  have hs := Gains.registerOutput s
  exact ⟨_, .created (hfolded.input hs (Gains.registerOutput t)) hs.size_eq
    (addRegisterOutput_run s).1 (addRegisterOutput_run t).1 rfl rfl⟩

end Inputs

section Outputs

/-- The answers are equal. -/
def Same {α : Type} (_ : NodeId → NodeId) (_ : Network) (a b : α) : Prop := a = b

theorem Folded.check_inStep (h : Folded f s t) {n : NodeId} (hn : n < s.graph.size) :
    InStep (fun _ _ => True) (s.graph.check n) (t.graph.check (f n)) := by
  rw [(check_eq_ok_iff _ _).2 hn, (check_eq_ok_iff _ _).2 (h.folds.lt_size hn)]
  exact .answered trivial

/-- A use more of a node is counted, if there is room for it. -/
theorem together_of_raise {α β : Type} {R : (NodeId → NodeId) → Network → α → β → Prop} {n : NodeId}
    {F : Fanouts → Action Network α} {G : Fanouts → Action Network β}
    (hroom : ∀ fanouts, s.fanouts.raise n 1 = .ok fanouts →
      (F fanouts s).state.graph.references.length = s.graph.references.length + 1)
    (hF : ∀ fanouts fanouts', s.fanouts.raise n 1 = .ok fanouts →
      t.fanouts.raise (f n) 1 = .ok fanouts' → Together R f s t (F fanouts) (G fanouts')) :
    Together R f s t (liftM (s.fanouts.raise n 1) >>= F) (liftM (t.fanouts.raise (f n) 1) >>= G) := by
  cases hraised : s.fanouts.raise n 1 with
  | error fault =>
      refine .of_full ?_
      rw [Action.lift_error_bind_run, Fanouts.raise_error hraised]
  | ok fanouts =>
      intro hfolded hfault huses
      have hlt := huses
      rw [Action.lift_ok_bind_run, hroom fanouts hraised] at hlt
      obtain ⟨fanouts', hraised'⟩ := hfolded.raise_isOk hlt
      exact ((hF fanouts fanouts' hraised hraised').congr (Action.lift_ok_bind_run _ F s)
        (by rw [hraised', Action.lift_ok_bind_run])) hfolded hfault huses

theorem addPrimaryOutput_together {n m : NodeId} (h : Goes f s n m) :
    Together Same f s t (addPrimaryOutput n) (addPrimaryOutput m) := by
  obtain ⟨hlt, rfl⟩ := h
  refine .of_folded fun hfolded => .get_bind (.lift_bind (hfolded.check_inStep hlt) fun _ _ _ =>
    .require_bind hfolded.outputs_first_iff fun hfirst =>
      together_of_raise ?_ fun fanouts fanouts' hraised hraised' => ?_)
  · intro fanouts _
    rw [Action.set_bind_run]
    exact Graph.length_references_pushPrimaryOutput _ _
  · exact .of_inStep (Action.set_bind_run _ _ _) (Action.set_bind_run _ _ _) rfl
      (fun _ _ => hfolded.primaryOutput hlt hfirst hraised hraised')
      (.answered hfolded.outputs_length.symm)

theorem addRegisterInput_together {n m : NodeId} (h : Goes f s n m) (reset : Reset) :
    Together Same f s t (addRegisterInput n reset) (addRegisterInput m reset) := by
  obtain ⟨hlt, rfl⟩ := h
  refine .of_folded fun hfolded => .get_bind (.lift_bind (hfolded.check_inStep hlt) fun _ _ _ =>
    .require_bind hfolded.paired_iff fun hpaired =>
      together_of_raise ?_ fun fanouts fanouts' hraised hraised' => ?_)
  · intro fanouts _
    rw [Action.set_bind_run]
    exact Graph.length_references_pushRegisterInput _ _ _
  · exact .of_inStep (Action.set_bind_run _ _ _) (Action.set_bind_run _ _ _) rfl
      (fun _ _ => hfolded.registerInput reset hlt hpaired hraised hraised')
      (.answered hfolded.outputs_length.symm)

end Outputs

section Covers

theorem addCover_together (cover : Cover) :
    Together Same f s t (addCover cover) (addCover cover) := by
  refine .of_folded fun hfolded => ?_
  cases hstray : cover.firstStray? with
  | some cube =>
      exact (Together.fail _ _).congr (addCover_run_error hstray s) (addCover_run_error hstray t)
  | none =>
      have tidy := (Cover.firstStray?_eq_none_iff cover).1 hstray
      exact .of_inStep (addCover_run tidy s) (addCover_run tidy t) rfl
        (fun _ _ => hfolded.addCover tidy) (.answered (by rw [Same, hfolded.folds.covers]))

theorem addCover_bind_run {cover : Cover} (tidy : ∀ cube ∈ cover.cubes, cube.Tidy) {α : Type}
    (F : CoverId → Action Network α) (net : Network) : (addCover cover >>= F) net =
      F net.graph.covers.size { net with graph := net.graph.addCover cover } := by
  rw [Action.bind_run_ok (addCover_run tidy net)]
  rfl

theorem coverOfGate_together (kind : Gate) :
    Together Same f s t (coverOfGate kind) (coverOfGate kind) := by
  refine .of_folded fun hfolded => .get_bind ?_
  rw [hfolded.gateCover]
  cases s.gateCover kind with
  | some c => exact .pure rfl
  | none =>
      have hadded := hfolded.addCover kind.cover_tidy
      have hcover : (s.graph.addCover kind.cover).covers[s.graph.covers.size]? = some kind.cover := by
        rw [Graph.covers_addCover, if_pos rfl]
      refine .after ?_ (addCover_bind_run kind.cover_tidy _ s) (addCover_bind_run kind.cover_tidy _ t)
        rfl fun _ => hadded
      rw [hfolded.folds.covers]
      refine .note_bind rfl rfl (.after (.pure ?_) (Action.modify_bind_run _ _ _)
        (Action.modify_bind_run _ _ _) rfl fun _ => hadded.registerCover hcover)
      exact rfl

end Covers

section Gates

theorem node_run_refused {net : Network} {children : List NodeId} {cover : CoverId}
    (hne : children ≠ []) (h : ¬ net.graph.Accepts ⟨children, cover⟩) :
    ∃ fault, node children cover net = ⟨.error fault, net, []⟩ := by
  unfold node
  rw [Action.get_bind_run]
  cases hcover : net.graph.cover cover with
  | error fault => exact ⟨fault, Action.lift_error_bind_run _ _ _⟩
  | ok function =>
      have hnamed := (Graph.cover_eq_ok_iff _ _ _).1 hcover
      rw [Action.lift_ok_bind_run, if_neg (by simpa using hne)]
      by_cases hlength : children.length ≤ maxFanin
      swap
      · exact ⟨_, Action.require_bind_run_error hlength _ _ _⟩
      rw [Action.require_bind_run hlength]
      cases hcheck : net.graph.checkAll children with
      | error fault => exact ⟨fault, Action.lift_error_bind_run _ _ _⟩
      | ok _ =>
          exact absurd ⟨(Array.getElem?_eq_some_iff.1 hnamed).1, hne, hlength,
            (checkAll_eq_ok_iff _ _).1 hcheck⟩ h

theorem node_run_accepted {net : Network} {children : List NodeId} {cover : CoverId}
    (h : net.graph.Accepts ⟨children, cover⟩) : node children cover net =
      match net.shared? ⟨children, cover⟩ with
      | some n => ⟨.ok n, net, [.noted (.nodeShared children cover n)]⟩
      | none => createNode ⟨children, cover⟩ net := by
  have hcover := (Graph.cover_eq_ok_iff net.graph cover _).2
    (Array.getElem?_eq_getElem h.cover_lt)
  unfold node
  rw [Action.get_bind_run, hcover, Action.lift_ok_bind_run,
    if_neg (by simpa using h.children_ne_nil), Action.require_bind_run h.length_le,
    (checkAll_eq_ok_iff _ _).2 h.child_lt, Action.lift_ok_bind_run]
  cases net.shared? ⟨children, cover⟩ <;> rfl

theorem createNode_answered {net : Network} {request : Request} {fanouts : Fanouts}
    (hraised : Fanouts.raiseAll (net.fanouts.push 0) request.children = .ok fanouts) :
    answered (createNode request net).journal = [net.graph.size] := by
  unfold createNode
  rw [Action.get_bind_run, hraised, Action.lift_ok_bind_run, Action.set_bind_run,
    Action.note_bind_run, Action.report_bind_run]
  show answered (.noted _ :: (_ ++ [])) = _
  rw [answered_cons, answered_append, answered_deliveries]
  rfl

/-- A request that is accepted is met, unless a counter is full. -/
theorem node_met_or_full {net : Network} {children : List NodeId} {cover : CoverId}
    (h : net.graph.Accepts ⟨children, cover⟩) :
    (∃ n, (node children cover net).answer = .ok n ∧
      answered (node children cover net).journal = [n]) ∨
    ((node children cover net).answer = .error .counterFull ∧
      ∀ fanouts, Fanouts.raiseAll (net.fanouts.push 0) children ≠ .ok fanouts) := by
  rw [node_run_accepted h]
  cases net.shared? ⟨children, cover⟩ with
  | some n => exact Or.inl ⟨n, rfl, rfl⟩
  | none =>
      have hrun := createNode_run ⟨children, cover⟩ net
      cases hraised : Fanouts.raiseAll (net.fanouts.push 0) children with
      | ok fanouts =>
          simp only [hraised] at hrun
          exact Or.inl ⟨_, hrun.1, createNode_answered hraised⟩
      | error fault =>
          simp only [hraised] at hrun
          rw [Fanouts.raiseAll_error hraised] at hrun
          exact Or.inr ⟨hrun.1, fun fanouts heq => by cases heq⟩

theorem Folded.accepts_iff (h : Folded f s t) {children : List NodeId} {cover : CoverId}
    (hlt : ∀ child ∈ children, child < s.graph.size) :
    t.graph.Accepts ⟨children.map f, cover⟩ ↔ s.graph.Accepts ⟨children, cover⟩ := by
  have hlt' : ∀ child ∈ children.map f, child < t.graph.size := fun child hchild => by
    obtain ⟨n, hn, rfl⟩ := List.mem_map.1 hchild
    exact h.folds.lt_size (hlt n hn)
  constructor
  · intro ⟨hcover, hne, hlength, _⟩
    exact ⟨h.folds.covers ▸ hcover, fun heq => hne (List.map_eq_nil_iff.2 heq),
      by simpa using hlength, hlt⟩
  · intro ⟨hcover, hne, hlength, _⟩
    exact ⟨h.folds.covers ▸ hcover, fun heq => hne (List.map_eq_nil_iff.1 heq),
      by simpa using hlength, hlt'⟩

/-- The images of children have room for one use more each if the children have. -/
theorem Folded.raiseAll_isOk (h : Folded f s t) {children : List NodeId}
    (hlt : ∀ child ∈ children, child < s.graph.size)
    (huses : s.graph.references.length + children.length < UInt32.size) :
    ∃ fanouts, Fanouts.raiseAll (t.fanouts.push 0) (children.map f) = .ok fanouts := by
  have hwell := h.sharing_kept.wellFormed
  refine Fanouts.raiseAll_isOk (fun n hn => ?_) fun n => ?_
  · obtain ⟨child, hchild, rfl⟩ := List.mem_map.1 hn
    rw [Array.size_push, hwell.fanouts_size]
    exact Nat.lt_succ_of_lt (h.folds.lt_size (hlt child hchild))
  · have hcount : t.graph.uses n ≤ t.graph.references.length := List.count_le_length
    have hmore : (children.map f).count n ≤ (children.map f).length := List.count_le_length
    have hle := h.references_le
    rw [List.length_map] at hmore
    rw [Fanouts.get_push_zero, hwell.fanouts_get]
    omega

theorem Folded.goes_constant (h : Folded f s t) (value : Bool) :
    Goes f s (Graph.constant value) (Graph.constant value) := by
  refine ⟨?_, (h.folds.constant value).symm⟩
  have htwo := h.plain_kept.wellFormed.graph.two_le_size
  cases value with
  | false => exact Nat.lt_of_lt_of_le Nat.zero_lt_two htwo
  | true => exact htwo

theorem Folded.cover_inStep (h : Folded f s t) (c : CoverId) :
    InStep Eq (s.graph.cover c) (t.graph.cover c) := by
  unfold Graph.cover
  rw [h.folds.covers]
  cases s.graph.covers[c]? with
  | some cover => exact .answered rfl
  | none => exact .refused _ _

theorem node_together {children children' : List NodeId} (h : AllGo f s children children')
    (cover : CoverId) : Together Goes f s t (node children cover) (node children' cover) := by
  obtain ⟨hlt, rfl⟩ := h
  refine .of_folded fun hfolded => ?_
  by_cases hne : children = []
  · subst hne
    refine .get_bind (.lift_bind (hfolded.cover_inStep cover) ?_)
    rintro function _ rfl
    exact .pure (hfolded.goes_constant function.polarity)
  have hne' : children.map f ≠ [] := fun heq => hne (List.map_eq_nil_iff.1 heq)
  by_cases haccepts : s.graph.Accepts ⟨children, cover⟩
  swap
  · obtain ⟨fault, hrefused⟩ := node_run_refused hne haccepts
    obtain ⟨fault', hrefused'⟩ := node_run_refused hne' (mt (hfolded.accepts_iff hlt).1 haccepts)
    exact (Together.fail fault fault').congr hrefused hrefused'
  rcases node_met_or_full haccepts with ⟨n, hn, hnodes⟩ | ⟨hfull, _⟩
  swap
  · exact .of_full hfull
  intro _ _ huses
  obtain ⟨rfl, hgraph⟩ := hfolded.plain_met hne (node_met hn)
  rw [hgraph, Graph.length_references_addNode] at huses
  obtain ⟨fanouts, hraised⟩ := hfolded.raiseAll_isOk hlt huses
  obtain ⟨m, hm, hnodes'⟩ := (node_met_or_full ((hfolded.accepts_iff hlt).2 haccepts)).resolve_right
    fun hfull => hfull.2 fanouts hraised
  exact ⟨_, .created (hfolded.met hne hlt (node_met hn) (node_met hm))
    (by rw [hgraph, Graph.size_addNode]) hn hm hnodes hnodes'⟩

theorem gate_together (kind : Gate) {operands operands' : List NodeId}
    (h : AllGo f s operands operands') :
    Together Goes f s t (gate kind operands) (gate kind operands') := by
  refine .require_bind (by rw [h.2, List.length_map]) fun _ => (coverOfGate_together kind).bind
    (fun _ => extends_of_growth (node_moves _ _)) ?_
  rintro f' s' t' c _ hprolongs rfl
  exact node_together (h.prolong hprolongs) c

theorem coverNode_together {children children' : List NodeId} (h : AllGo f s children children')
    (cover : Cover) :
    Together Goes f s t (coverNode children cover) (coverNode children' cover) := by
  refine .of_folded fun hfolded => ?_
  unfold coverNode
  rw [h.2, List.isEmpty_map, ← h.2]
  split
  · exact .pure (hfolded.goes_constant cover.polarity)
  · refine (addCover_together cover).bind (fun _ => extends_of_growth (node_moves _ _)) ?_
    rintro f' s' t' c _ hprolongs rfl
    exact node_together (h.prolong hprolongs) c

theorem tableNode_together {children children' : List NodeId} (h : AllGo f s children children')
    (table : TruthTable) :
    Together Goes f s t (tableNode children table) (tableNode children' table) := by
  refine .of_folded fun hfolded => ?_
  unfold tableNode
  rw [h.2, List.isEmpty_map, ← h.2]
  split
  · exact .pure (hfolded.goes_constant _)
  · exact .require_bind (by rw [h.2, List.length_map]) fun _ => coverNode_together h _

theorem copyNode_together (other : Graph) (source : NodeId) {children children' : List NodeId}
    (h : AllGo f s children children') :
    Together Goes f s t (copyNode other source children) (copyNode other source children') := by
  refine .require_bind ?_ fun _ => .lift_bind (P := Eq) ?_ ?_
  · rw [h.2, ne_eq, ne_eq, List.map_eq_nil_iff]
  · cases other.nodeCover source with
    | ok cover => exact .answered rfl
    | error fault => exact .refused _ _
  · rintro cover _ rfl
    exact coverNode_together h cover

end Gates

section Reductions

/-- The constructions on two operands that extend the network and can be applied side by side, now
and later. -/
structure Parallel (f : NodeId → NodeId) (s : Network) (combine combine' : Combine) : Prop where
  moves : ∀ a b, Action.Moves Extension (combine a b)
  together : ∀ f' s' t' a a' b b', Prolongs f s f' s' → Goes f' s' a a' → Goes f' s' b b' →
    Together Goes f' s' t' (combine a b) (combine' a' b')

theorem Parallel.prolong {combine combine' : Combine} (h : Parallel f s combine combine')
    {f' : NodeId → NodeId} {s' : Network} (hprolongs : Prolongs f s f' s') :
    Parallel f' s' combine combine' :=
  ⟨h.moves, fun f'' s'' t'' a a' b b' hlater =>
    h.together f'' s'' t'' a a' b b' (hprolongs.trans hlater)⟩

theorem Parallel.combineBy (kind : Gate) (f : NodeId → NodeId) (s : Network) :
    Parallel f s (Network.combineBy kind) (Network.combineBy kind) :=
  ⟨combineBy_moves kind, fun _ _ _ _ _ _ _ _ ha hb =>
    gate_together kind (.cons ha (.singleton hb))⟩

theorem AllGo.forall₂ {ns ms : List NodeId} (h : AllGo f s ns ms) :
    List.Forall₂ (Goes f s) ns ms := by
  rw [h.2, List.forall₂_map_right_iff, List.forall₂_same]
  exact fun n hn => ⟨h.1 n hn, rfl⟩

section Reduce

variable {combine combine' : Combine} {operands operands' : List NodeId}

theorem linearReduce_together (h : Parallel f s combine combine')
    (hoperands : AllGo f s operands operands') :
    Together Goes f s t (linearReduce combine operands) (linearReduce combine' operands') := by
  have hall := hoperands.forall₂
  cases hall with
  | nil => exact .fail _ _
  | cons hoperand hrest =>
      exact .foldlM h.moves (fun f' s' t' a a' b b' hprolongs ha hb =>
        h.together f' s' t' a a' b b' hprolongs ha (hb.prolong hprolongs)) hrest (.refl f s) hoperand

theorem treeReduce_together (h : Parallel f s combine combine')
    (hoperands : AllGo f s operands operands') :
    Together Goes f s t (treeReduce combine operands) (treeReduce combine' operands') := by
  induction operands using treeReduce.induct generalizing f s t operands' with
  | case1 =>
      obtain rfl : operands' = [] := hoperands.2
      rw [treeReduce, treeReduce]
      exact .fail _ _
  | case2 operand =>
      obtain rfl : operands' = [f operand] := hoperands.2
      rw [treeReduce, treeReduce]
      exact .pure ⟨hoperands.1 operand List.mem_cons_self, rfl⟩
  | case3 a b rest operands half =>
      rename_i ihleft ihright
      have hlength : operands'.length = operands.length := by rw [hoperands.2, List.length_map]
      obtain rfl : operands' = f a :: f b :: rest.map f := hoperands.2
      rw [treeReduce, treeReduce]
      refine .note_bind rfl rfl ?_
      rw [hlength]
      refine (ihleft h (hoperands.take half)).bind
        (fun _ => .bind (extensions_compose.treeReduce h.moves _) fun _ => h.moves _ _) ?_
      intro f' s' t' left left' hprolongs hleft
      refine (ihright (h.prolong hprolongs) ((hoperands.drop half).prolong hprolongs)).bind
        (fun _ => h.moves _ _) ?_
      intro f'' s'' t'' right right' hprolongs' hright
      exact h.together f'' s'' t'' left left' right right' (hprolongs.trans hprolongs')
        (hleft.prolong hprolongs') hright

theorem reduce_together (h : Parallel f s combine combine') (shape : Shape)
    {identity identity' : NodeId} (hidentity : Goes f s identity identity')
    (hoperands : AllGo f s operands operands') :
    Together Goes f s t (reduce shape combine identity operands)
      (reduce shape combine' identity' operands') := by
  unfold reduce
  rw [hoperands.2, List.isEmpty_map, ← hoperands.2]
  split
  · exact .pure hidentity
  · cases shape with
    | linear => exact linearReduce_together h hoperands
    | tree => exact treeReduce_together h hoperands

/-- Both identities are there and go to each other, or neither is there. -/
def IdentitiesGo (f : NodeId → NodeId) (s : Network) (identity identity' : Option NodeId) : Prop :=
  (∀ n, identity = some n → n < s.graph.size) ∧ identity' = identity.map f

theorem AllGo.namedIf {nodes nodes' : List NodeId} (h : AllGo f s nodes nodes')
    (name : Option Nat) : InStep (IdentitiesGo f s) (namedIf nodes name) (namedIf nodes' name) := by
  cases name with
  | none => exact .answered ⟨fun n hn => (by cases hn), rfl⟩
  | some name =>
      refine (h.named name).bind fun n m hgo => .answered ⟨fun k hk => ?_, by rw [hgo.2]; rfl⟩
      cases hk
      exact hgo.1

theorem reduceTo_together (h : Parallel f s combine combine') (shape : Shape)
    (hoperands : AllGo f s operands operands') {identity identity' : Option NodeId}
    (hidentity : IdentitiesGo f s identity identity') :
    Together Goes f s t (reduceTo shape combine operands identity)
      (reduceTo shape combine' operands' identity') := by
  obtain ⟨hlt, rfl⟩ := hidentity
  cases identity with
  | some n => exact reduce_together h shape ⟨hlt n rfl, rfl⟩ hoperands
  | none =>
      cases shape with
      | linear => exact linearReduce_together h hoperands
      | tree => exact treeReduce_together h hoperands

end Reduce
end Reductions

section Calls

/-- What the first call answers goes to what the second one answers. -/
def AnswersGo (f : NodeId → NodeId) (s : Network) (answer answer' : Answer) : Prop :=
  (∀ n, answer = .node n → n < s.graph.size) ∧ answer' = answer.map f

theorem AnswersGo.node {n m : NodeId} (h : Goes f s n m) : AnswersGo f s (.node n) (.node m) :=
  ⟨fun k hk => by cases hk; exact h.1, by rw [h.2]; rfl⟩

theorem AnswersGo.cover (c : CoverId) : AnswersGo f s (.cover c) (.cover c) :=
  ⟨fun k hk => (by cases hk), rfl⟩

theorem AnswersGo.position (position : Nat) :
    AnswersGo f s (.position position) (.position position) :=
  ⟨fun k hk => (by cases hk), rfl⟩

theorem AnswersGo.prolong {f' : NodeId → NodeId} {s' : Network} {answer answer' : Answer}
    (h : AnswersGo f s answer answer') (hprolongs : Prolongs f s f' s') :
    AnswersGo f' s' answer answer' := by
  obtain ⟨hlt, rfl⟩ := h
  cases answer with
  | node n => exact .node (Goes.prolong ⟨hlt n rfl, rfl⟩ hprolongs)
  | cover c => exact .cover c
  | position p => exact .position p

theorem AnswersGo.nodes {answer answer' : Answer} (h : AnswersGo f s answer answer') :
    AllGo f s answer.node?.toList answer'.node?.toList := by
  obtain ⟨hlt, rfl⟩ := h
  cases answer with
  | node n => exact .singleton ⟨hlt n rfl, rfl⟩
  | cover c => exact .nil f s
  | position p => exact .nil f s

mutual

/-- A construction call is made side by side. -/
theorem perform_together {f : NodeId → NodeId} {s t : Network} {nodes nodes' : List NodeId}
    (h : AllGo f s nodes nodes') : (call : Construction) →
      Together AnswersGo f s t (call.perform nodes) (call.perform nodes')
  | .primaryInput => addPrimaryInput_together.map fun _ _ _ _ => .node
  | .registerOutput => addRegisterOutput_together.map fun _ _ _ _ => .node
  | .primaryOutput signal =>
    .lift_bind (h.named signal) fun _ _ hsignal =>
      (addPrimaryOutput_together hsignal).map fun _ _ p _ heq => heq ▸ .position p
  | .registerInput signal reset =>
    .lift_bind (h.named signal) fun _ _ hsignal =>
      (addRegisterInput_together hsignal reset).map fun _ _ p _ heq => heq ▸ .position p
  | .cover added => (addCover_together added).map fun _ _ c _ heq => heq ▸ .cover c
  | .node children applied =>
    .lift_bind (h.namedAll children) fun _ _ hchildren =>
      (node_together hchildren applied).map fun _ _ _ _ => .node
  | .gate kind operands =>
    .lift_bind (h.namedAll operands) fun _ _ hoperands =>
      (gate_together kind hoperands).map fun _ _ _ _ => .node
  | .buffer operand =>
    .lift_bind (h.named operand) fun _ _ hoperand =>
      .map (R := Goes) (.pure hoperand) fun _ _ _ _ => .node
  | .coverNode children applied =>
    .lift_bind (h.namedAll children) fun _ _ hchildren =>
      (coverNode_together hchildren applied).map fun _ _ _ _ => .node
  | .tableNode children table =>
    .lift_bind (h.namedAll children) fun _ _ hchildren =>
      (tableNode_together hchildren table).map fun _ _ _ _ => .node
  | .copyNode other source children =>
    .lift_bind (h.namedAll children) fun _ _ hchildren =>
      (copyNode_together other source hchildren).map fun _ _ _ _ => .node
  | .conjunction operands =>
    .of_folded fun hfolded => .lift_bind (h.namedAll operands) fun _ _ hoperands =>
      (reduce_together (.combineBy .and f s) .tree (hfolded.goes_constant _) hoperands).map
        fun _ _ _ _ => .node
  | .disjunction operands =>
    .of_folded fun hfolded => .lift_bind (h.namedAll operands) fun _ _ hoperands =>
      (reduce_together (.combineBy .or f s) .tree (hfolded.goes_constant _) hoperands).map
        fun _ _ _ _ => .node
  | .parity operands =>
    .of_folded fun hfolded => .lift_bind (h.namedAll operands) fun _ _ hoperands =>
      (reduce_together (.combineBy .xor f s) .tree (hfolded.goes_constant _) hoperands).map
        fun _ _ _ _ => .node
  | .reduction shape identity captured calls result operands =>
    .lift_bind (h.namedAll captured) fun _ _ hcaptured =>
      .lift_bind (h.namedAll operands) fun _ _ hoperands =>
      .lift_bind (h.namedIf identity) fun _ _ hidentity =>
        (reduceTo_together (Parallel.mk
          (fun _ _ => .bind (Construction.performAll_moves _ calls) fun _ => .lift _)
          fun _ _ _ _ _ _ _ hprolongs ha hb =>
            (performAll_together (.cons ha (.cons hb (hcaptured.prolong hprolongs))) calls).bind
              (fun _ => .lift _) fun _ _ _ _ _ _ hnodes => .lift (hnodes.named result))
          shape hoperands hidentity).map fun _ _ _ _ => .node

theorem performAll_together {f : NodeId → NodeId} {s t : Network} {nodes nodes' : List NodeId}
    (h : AllGo f s nodes nodes') : (calls : List Construction) →
      Together AllGo f s t (Construction.performAll nodes calls)
        (Construction.performAll nodes' calls)
  | [] => .pure h
  | call :: calls =>
    (perform_together h call).bind (fun _ => Construction.performAll_moves _ calls)
      fun _ _ _ _ _ hprolongs hanswer =>
        performAll_together ((h.prolong hprolongs).append hanswer.nodes) calls

end

end Calls
end Network
end LogicNet
