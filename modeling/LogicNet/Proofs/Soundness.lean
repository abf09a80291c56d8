import LogicNet.Proofs.Copying
import LogicNet.Proofs.Function

/-!
Soundness of building with sharing. An entry of the sharing table may be met by a node whose
children are no longer those that were asked for, because uses have been redirected since. As long
as uses are only redirected between nodes of equal value, the node still has the value that was
asked for: this is the invariant of the table, and it survives every call.
-/

namespace LogicNet

/-- The node has the value that the request asks for: that of its cover on the values of its
children. -/
structure Graph.Meets (g : Graph) (request : Request) (n : NodeId) : Prop where
  accepted : g.Accepts request
  lt_size : n < g.size
  value : ∀ cover, g.covers[request.cover]? = some cover → ∀ v,
    g.value v n = cover.evaluate (Pattern.ofBits (request.children.map (g.value v)))

namespace Graph

variable {g g' : Graph} {request : Request} {n : NodeId}

theorem Accepts.of_grown (h : g.Accepts request) (hgrown : Grown g g') : g'.Accepts request where
  cover_lt := (Array.getElem?_eq_some_iff.1
    (hgrown.covers _ _ (Array.getElem?_eq_getElem h.cover_lt))).1
  children_ne_nil := h.children_ne_nil
  length_le := h.length_le
  child_lt child hchild := Nat.lt_of_lt_of_le (h.child_lt child hchild) hgrown.size_le

/-- Requests stay met as the graph grows. -/
theorem Meets.of_grown (h : g.Meets request n) (hgrown : Grown g g') (hg : g.WellFormed)
    (hg' : g'.WellFormed) : g'.Meets request n where
  accepted := h.accepted.of_grown hgrown
  lt_size := Nat.lt_of_lt_of_le h.lt_size hgrown.size_le
  value cover hcover v := by
    obtain ⟨before, hbefore⟩ : ∃ before, g.covers[request.cover]? = some before :=
      ⟨_, Array.getElem?_eq_getElem h.accepted.cover_lt⟩
    have hsame : before = cover :=
      Option.some.inj ((hgrown.covers _ _ hbefore).symm.trans hcover)
    have hchildren : request.children.map (g'.value v) = request.children.map (g.value v) :=
      List.map_congr_left fun child hchild =>
        hgrown.value hg hg' v (h.accepted.child_lt child hchild)
    rw [hgrown.value hg hg' v h.lt_size, hchildren, ← hsame]
    exact h.value before hbefore v

/-- Requests stay met when uses are redirected between nodes of equal value, also those with the
replaced node among their children. -/
theorem Meets.of_redirect (h : g.Meets request n) {old new : NodeId} (hg : g.WellFormed)
    (hg' : (g.redirect old new).WellFormed) (hsame : ∀ v, g.value v old = g.value v new) :
    (g.redirect old new).Meets request n where
  accepted :=
    { cover_lt := h.accepted.cover_lt
      children_ne_nil := h.accepted.children_ne_nil
      length_le := h.accepted.length_le
      child_lt := by rw [redirect_size]; exact h.accepted.child_lt }
  lt_size := by rw [redirect_size]; exact h.lt_size
  value cover hcover v := by
    have hvalue : (g.redirect old new).value v = g.value v :=
      funext fun n => value_redirect hg hg' (hsame v) n
    rw [hvalue]
    exact h.value cover hcover v

/-- A new gate meets its own request. -/
theorem Meets.of_addNode (hg : g.WellFormed) (accepted : g.Accepts request) :
    (g.addNode request).Meets request g.size := by
  have hg' := hg.addNode accepted
  have hnode : (g.addNode request).nodes[g.size]? = some request := by
    rw [nodes_addNode, if_pos rfl]
  have hgate : (g.addNode request).isGate g.size = true :=
    ((hg.pushed_addNode accepted).isGate_new hg).2 accepted.children_ne_nil
  exact
    { accepted :=
        { cover_lt := accepted.cover_lt
          children_ne_nil := accepted.children_ne_nil
          length_le := accepted.length_le
          child_lt := fun child hchild => by
            rw [size_addNode]
            exact Nat.lt_succ_of_lt (accepted.child_lt child hchild) }
      lt_size := lt_size_of_nodes hnode
      value := fun cover hcover v => value_gate hg' hnode hcover hgate }

end Graph

namespace Network

variable {net net' : Network}

/-- Every entry of the sharing table for a request with children is met by its node. -/
def Shares (net : Network) : Prop :=
  ∀ request n, net.table.find? request = some n → request.children ≠ [] →
    net.graph.Meets request n

namespace Shares

theorem new (options : Options) : Shares (Network.new options) := by
  intro request n hfind hchildren
  simp only [Network.new, SharingTable.find?_record] at hfind
  split at hfind
  · next h => exact absurd (by rw [← h]) hchildren
  · split at hfind
    · next h => exact absurd (by rw [← h]) hchildren
    · simp [SharingTable.find?] at hfind

theorem of_growth (h : net.Shares) (hwell : net.WellFormed) (hgrowth : Growth net net') :
    net'.Shares := by
  have hwell' := hwell.of_growth hgrowth
  have hkept : ∀ request n, net.table.find? request = some n → request.children ≠ [] →
      net'.graph.Meets request n := fun request n hfind hchildren =>
    (h request n hfind hchildren).of_grown hgrowth.grown hwell.graph hwell'.graph
  intro request n hfind hchildren
  cases hgrowth with
  | primaryInput _ | registerOutput =>
      rw [find?_addInputNode_table] at hfind
      split at hfind
      · next heq => exact absurd (by rw [← heq.2]; rfl) hchildren
      · exact hkept request n hfind hchildren
  | gate asked fanouts accepted _ _ =>
      rw [find?_record_table] at hfind
      split at hfind
      · next heq =>
          obtain ⟨_, rfl⟩ := heq
          cases hfind
          rw [record_graph]
          exact .of_addNode hwell.graph accepted
      · exact hkept request n hfind hchildren
  | _ => exact hkept request n hfind hchildren

theorem of_extension (h : net.Shares) (hwell : net.WellFormed) (hextension : Extension net net') :
    net'.Shares := by
  cases hextension with
  | growth hgrowth => exact h.of_growth hwell hgrowth
  | _ => exact h

theorem of_extensions (h : net.Shares) (hwell : net.WellFormed)
    (hextensions : Relation.ReflTransGen Extension net net') : net'.WellFormed ∧ net'.Shares := by
  induction hextensions with
  | refl => exact ⟨hwell, h⟩
  | tail _ hstep ih => exact ⟨ih.1.of_extension hstep, ih.2.of_extension ih.1 hstep⟩

theorem of_redirection (h : net.Shares) (hwell : net.WellFormed) {old new : NodeId}
    (hredirected : Redirection net old new net')
    (hsame : ∀ v, net.graph.value v old = net.graph.value v new) : net'.Shares := by
  have hwell' := hwell.of_redirection hredirected
  obtain ⟨fanouts, _, rfl⟩ := hredirected.result
  exact fun request n hfind hchildren =>
    (h request n hfind hchildren).of_redirect hwell.graph hwell'.graph hsame

end Shares

/-- A node of the network has a function, applied to operands as they were before. -/
def Computes (net net' : Network) (operands : List NodeId) (f : List Bool → Bool) (n : NodeId) :
    Prop :=
  n < net'.graph.size ∧ ∀ v, net'.graph.value v n = f (operands.map (net.graph.value v))

theorem Computes.of_grown {middle : Network} {operands : List NodeId} {f : List Bool → Bool}
    {n : NodeId} (h : Computes middle net' operands f n)
    (hsame : ∀ v, ∀ operand ∈ operands, middle.graph.value v operand = net.graph.value v operand) :
    Computes net net' operands f n := by
  refine ⟨h.1, fun v => ?_⟩
  rw [h.2 v, List.map_congr_left (hsame v)]

theorem constant_computes (hwell : net.WellFormed) (value : Bool) {f : List Bool → Bool}
    (hf : f [] = value) : Computes net net [] f (Graph.constant value) := by
  refine ⟨hwell.graph.constant_lt value, fun v => ?_⟩
  rw [Graph.value_constant hwell.graph, List.map_nil, hf]

/-- A request is met by a node with the function of its cover. -/
theorem Met.computes {request : Request} {n : NodeId} (h : Met net request n net')
    (hwell : net.WellFormed) (hshares : net.Shares) {cover : Cover}
    (hcover : net.graph.covers[request.cover]? = some cover) :
    Computes net net' request.children cover.onValues n := by
  have hmeets : request.children ≠ [] → ∀ v,
      cover.onValues (request.children.map (net.graph.value v)) =
        cover.evaluate (Pattern.ofBits (request.children.map (net.graph.value v))) :=
    fun hchildren v => cover.onValues_of_ne_nil (by simpa using hchildren)
  cases h with
  | constant function childless named =>
      rw [named] at hcover
      cases hcover
      rw [childless]
      exact constant_computes hwell _ rfl
  | shared n accepted found =>
      have hfound : net.table.find? request = some n := by
        unfold shared? at found
        split at found
        · exact found
        · cases found
      have hmet := hshares request n hfound accepted.children_ne_nil
      refine ⟨hmet.lt_size, fun v => ?_⟩
      rw [hmet.value cover hcover v, hmeets accepted.children_ne_nil]
  | created fanouts accepted fresh raised =>
      have hgrown := (Growth.gate request fanouts accepted fresh raised).grown
      have hwell' := hwell.of_gate accepted raised
      rw [record_graph] at hgrown
      have hmet : (net.addNode request fanouts).graph.Meets request net.graph.size :=
        .of_addNode hwell.graph accepted
      rw [Computes, record_graph]
      refine ⟨hmet.lt_size, fun v => ?_⟩
      rw [hmet.value cover (hgrown.covers _ _ hcover) v, hmeets accepted.children_ne_nil]
      congr 2
      apply List.map_congr_left
      intro child hchild
      exact hgrown.value hwell.graph (hwell.graph.addNode accepted) v
        (accepted.child_lt child hchild)

theorem Met.child_lt {request : Request} {n : NodeId} (h : Met net request n net') :
    ∀ child ∈ request.children, child < net.graph.size := by
  cases h with
  | constant _ childless _ => simp [childless]
  | shared n accepted _ => exact accepted.child_lt
  | created fanouts accepted _ _ => exact accepted.child_lt

/-- A node asked for after covers have been added computes its cover of the operands as they were
before. -/
theorem node_computes {start : Network} (hwell : start.WellFormed) (hshares : start.Shares)
    (hextensions : Relation.ReflTransGen Extension start net)
    (hsize : net.graph.size = start.graph.size) {children : List NodeId} {c : CoverId}
    {cover : Cover} (hcover : net.graph.covers[c]? = some cover) {n : NodeId}
    (hn : (node children c net).answer = .ok n) :
    Computes start (node children c net).state children cover.onValues n := by
  obtain ⟨hwell', hshares'⟩ := hshares.of_extensions hwell hextensions
  have hmet := node_met hn
  refine (hmet.computes hwell' hshares' hcover).of_grown fun v operand hoperand => ?_
  exact (grown_of_extensions hextensions).value hwell.graph hwell'.graph v
    (hsize ▸ hmet.child_lt operand hoperand)

theorem gate_computes (hwell : net.WellFormed) (hshares : net.Shares) {kind : Gate}
    {operands : List NodeId} {n : NodeId} (hn : (gate kind operands net).answer = .ok n) :
    Computes net (gate kind operands net).state operands kind.onValues n := by
  unfold gate at hn ⊢
  by_cases harity : operands.length = kind.arity
  · rw [Action.require_bind_run harity] at hn ⊢
    obtain ⟨c, hfind, hn⟩ := Action.exists_of_bind_ok hn
    rw [Action.bind_state_of_ok hfind]
    have hextensions := extensions_of_building (coverOfGate_moves kind net)
    have hfound : (coverOfGate kind net).state.graph.size = net.graph.size ∧
        (coverOfGate kind net).state.graph.covers[c]? = some kind.cover := by
      have hrun := coverOfGate_run kind net
      rw [hfind] at hrun
      cases hknown : net.gateCover kind with
      | some known =>
          simp only [hknown, Except.ok.injEq] at hrun
          rw [hrun.1, hrun.2]
          exact ⟨rfl, hwell.gateCover kind known hknown⟩
      | none =>
          simp only [hknown, Except.ok.injEq] at hrun
          rw [hrun.1, hrun.2]
          exact ⟨rfl, by simp [Graph.addCover]⟩
    obtain ⟨hlt, hvalue⟩ := node_computes hwell hshares hextensions hfound.1 hfound.2 hn
    refine ⟨hlt, fun v => ?_⟩
    rw [hvalue v, kind.cover_onValues (by rw [List.length_map, harity])]
  · rw [Action.require_bind_run_error harity] at hn
    cases hn

theorem coverNode_computes (hwell : net.WellFormed) (hshares : net.Shares)
    {children : List NodeId} {cover : Cover} {n : NodeId}
    (hn : (coverNode children cover net).answer = .ok n) :
    Computes net (coverNode children cover net).state children cover.onValues n := by
  unfold coverNode at hn ⊢
  by_cases hnil : children = []
  · subst hnil
    cases hn
    exact constant_computes hwell cover.polarity rfl
  · have hempty : ¬ children.isEmpty = true := by simpa using hnil
    rw [if_neg hempty] at hn ⊢
    obtain ⟨c, hadd, hn⟩ := Action.exists_of_bind_ok hn
    rw [Action.bind_state_of_ok hadd]
    have tidy := addCover_tidy hadd
    rw [addCover_run tidy] at hadd hn ⊢
    cases hadd
    exact node_computes hwell hshares (.single (.growth (.cover cover tidy))) rfl
      (by simp [Graph.addCover]) hn

theorem tableNode_computes (hwell : net.WellFormed) (hshares : net.Shares)
    {children : List NodeId} {table : TruthTable} (hmatching : children.length = table.numVars)
    {n : NodeId} (hn : (tableNode children table net).answer = .ok n) :
    Computes net (tableNode children table net).state children table.onValues n := by
  unfold tableNode at hn ⊢
  by_cases hnil : children = []
  · subst hnil
    cases hn
    exact constant_computes hwell _ (table.onValues_nil hmatching.symm)
  · have hempty : ¬ children.isEmpty = true := by simpa using hnil
    rw [if_neg hempty, Action.require_bind_run hmatching] at hn ⊢
    obtain ⟨hlt, hvalue⟩ := coverNode_computes hwell hshares hn
    refine ⟨hlt, fun v => ?_⟩
    rw [hvalue v, table.toCover_onValues (by rw [List.length_map, hmatching]) (by simpa using hnil)]

theorem copyNode_computes (hwell : net.WellFormed) (hshares : net.Shares) {other : Graph}
    {source : NodeId} {children : List NodeId} {cover : Cover}
    (hcover : other.nodeCover source = .ok cover) {n : NodeId}
    (hn : (copyNode other source children net).answer = .ok n) :
    Computes net (copyNode other source children net).state children cover.onValues n := by
  unfold copyNode at hn ⊢
  by_cases hnil : children = []
  · rw [Action.require_bind_run_error (by simpa using hnil)] at hn
    cases hn
  · rw [Action.require_bind_run hnil, hcover, Action.lift_ok_bind_run] at hn ⊢
    exact coverNode_computes hwell hshares hn

end Network

/-- What a builder call asks for: a function of operands. -/
inductive Operation.Requests (net : Network) :
    Operation NodeId → List NodeId → (List Bool → Bool) → Prop where
  | node {children : List NodeId} {c : CoverId} {cover : Cover}
      (named : net.graph.covers[c]? = some cover) :
      Requests net (.node children c) children cover.onValues
  | gate (kind : Gate) (operands : List NodeId) :
      Requests net (.gate kind operands) operands kind.onValues
  | buffer {operand : NodeId} (operand_lt : operand < net.graph.size) :
      Requests net (.buffer operand) [operand] (·.headD false)
  | coverNode (children : List NodeId) (cover : Cover) :
      Requests net (.coverNode children cover) children cover.onValues
  | tableNode {children : List NodeId} {table : TruthTable}
      (matching : children.length = table.numVars) :
      Requests net (.tableNode children table) children table.onValues
  | copyNode {other : Graph} {source : NodeId} {cover : Cover} (children : List NodeId)
      (named : other.nodeCover source = .ok cover) :
      Requests net (.copyNode other source children) children cover.onValues

/-- The network that a call leaves, refused or not. -/
def Network.after {α : Type} (net : Network) (op : Operation α) : Network := (op.perform net).state

/-- A call that, if it replaces a node by another, does so while the two have the same value under
every assignment. -/
def Operation.Harmless {α : Type} (op : Operation α) (net : Network) : Prop :=
  ∀ old new, op.substitution? = some (old, new) → old < net.graph.size → new < net.graph.size →
    ∀ v, net.graph.value v old = net.graph.value v new

/-- The networks that harmless calls make of a new one, refused calls included, and their compact
copies. -/
inductive Sound : Network → Prop where
  | new (options : Options) : Sound (Network.new options)
  | call {net : Network} {α : Type} (op : Operation α) :
      Sound net → op.Harmless net → Sound (net.after op)
  | copy {net copy : Network} {nodes : NodeMap NodeId} :
      Sound net → (Network.compact net).answer = .ok (copy, nodes) → Sound copy

open Network

/-- A harmless call keeps the invariants and the value of every node. -/
theorem Operation.Harmless.preserves {net : Network} {α : Type} {op : Operation α}
    (h : op.Harmless net) (hwell : net.WellFormed) (hshares : net.Shares) :
    (net.after op).WellFormed ∧ (net.after op).Shares ∧
      ∀ v, ∀ n < net.graph.size, (net.after op).graph.value v n = net.graph.value v n := by
  cases hop : op.substitution? with
  | none =>
      have hextensions := op.perform_moves hop net
      obtain ⟨hwell', hshares'⟩ := hshares.of_extensions hwell hextensions
      exact ⟨hwell', hshares', fun v n hn =>
        (grown_of_extensions hextensions).value hwell.graph hwell'.graph v hn⟩
  | some pair =>
      cases op with
      | substitute old new =>
          show (Network.substitute old new net).state.WellFormed ∧
            (Network.substitute old new net).state.Shares ∧ ∀ v, ∀ n < net.graph.size,
              (Network.substitute old new net).state.graph.value v n = net.graph.value v n
          rcases substitute_run old new net with ⟨hsame, _⟩ | ⟨hredirected, _⟩
          · rw [hsame]
            exact ⟨hwell, hshares, fun _ _ _ => rfl⟩
          · obtain ⟨hold, hnew, _⟩ := (checkSubstitution_eq_ok_iff hwell.graph.bounded old new).1
              hredirected.checked
            have hvalue := h old new rfl hold hnew
            have hwell' := hwell.of_redirection hredirected
            refine ⟨hwell', hshares.of_redirection hwell hredirected hvalue, fun v n _ => ?_⟩
            obtain ⟨fanouts, _, hresult⟩ := hredirected.result
            rw [hresult] at hwell' ⊢
            exact Graph.value_redirect hwell.graph hwell'.graph (hvalue v) n
      | _ => cases hop

/-- A request that a call meets is met by a node with the function that was asked for. -/
theorem Operation.Requests.computes {net : Network} {op : Operation NodeId}
    {operands : List NodeId} {f : List Bool → Bool} (h : op.Requests net operands f)
    (hwell : net.WellFormed) (hshares : net.Shares) {n : NodeId}
    (hn : (op.perform net).answer = .ok n) : Computes net (net.after op) operands f n := by
  cases h with
  | node named => exact node_computes hwell hshares .refl rfl named hn
  | gate kind operands => exact gate_computes hwell hshares hn
  | buffer operand_lt =>
      cases hn
      exact ⟨operand_lt, fun v => rfl⟩
  | coverNode children cover => exact coverNode_computes hwell hshares hn
  | tableNode matching => exact tableNode_computes hwell hshares matching hn
  | copyNode children named => exact copyNode_computes hwell hshares named hn

theorem Sound.invariants {net : Network} (h : Sound net) : net.WellFormed ∧ net.Shares := by
  induction h with
  | new options => exact ⟨.new options, .new options⟩
  | call op _ hop ih =>
      obtain ⟨hwell, hshares, _⟩ := hop.preserves ih.1 ih.2
      exact ⟨hwell, hshares⟩
  | @copy net copy nodes _ hrun ih =>
      exact (Shares.new net.options).of_extensions (.new net.options) (compact_extension ih.1 hrun)

/-- Building is sound. Each node has the value that its cover gives those of its children, harmless
calls change the value of no node, and whatever a builder call asks for, the node that it answers
has that function of the operands, be it a new one, a constant or one that was made for the same
request before. -/
theorem Sound.building {net : Network} (h : Sound net) :
    (∀ v n, net.graph.value v n =
      net.graph.nodeValue v n ((net.graph.childrenOf n).map (net.graph.value v))) ∧
    (∀ {α : Type} (op : Operation α), op.Harmless net → ∀ v, ∀ n < net.graph.size,
      (net.after op).graph.value v n = net.graph.value v n) ∧
    (∀ (op : Operation NodeId) (operands : List NodeId) (f : List Bool → Bool) (n : NodeId),
      op.Requests net operands f → (op.perform net).answer = .ok n →
        n < (net.after op).graph.size ∧
          ∀ v, (net.after op).graph.value v n = f (operands.map (net.graph.value v))) := by
  obtain ⟨hwell, hshares⟩ := h.invariants
  exact ⟨Graph.value_eq hwell.graph, fun op hop => (hop.preserves hwell hshares).2.2,
    fun op operands f n hrequest hanswer => hrequest.computes hwell hshares hanswer⟩

theorem Operation.harmless_of_none {α : Type} {op : Operation α} (h : op.substitution? = none)
    (net : Network) : op.Harmless net := by
  intro old new hop
  rw [h] at hop
  cases hop

/-- Two gates with the same operands in different order, and a gate above the first one. -/
def twins : Network :=
  (((((Network.new .sharing).after .addPrimaryInput).after .addPrimaryInput).after
    (.gate .and [2, 3])).after (.gate .and [3, 2])).after (.gate .not [4])

/-- The first of the two replaced by the second. -/
def merged : Network := twins.after (.substitute 4 5)

theorem twins_sound : Sound twins :=
  .call _ (.call _ (.call _ (.call _ (.call _ (.new .sharing) (Operation.harmless_of_none rfl _))
    (Operation.harmless_of_none rfl _)) (Operation.harmless_of_none rfl _))
    (Operation.harmless_of_none rfl _)) (Operation.harmless_of_none rfl _)

theorem merged_sound : Sound merged := by
  refine .call _ twins_sound fun old new hop _ _ v => ?_
  cases hop
  have hwell := twins_sound.invariants.1.graph
  have hcover : twins.graph.covers[4]? = some Gate.and.cover := by decide +kernel
  have hleft : twins.graph.nodes[4]? = some ⟨[2, 3], 4⟩ := by decide +kernel
  have hright : twins.graph.nodes[5]? = some ⟨[3, 2], 4⟩ := by decide +kernel
  rw [Graph.value_gate hwell hleft hcover (by decide +kernel),
    Graph.value_gate hwell hright hcover (by decide +kernel), Gate.cover_evaluate .and rfl,
    Gate.cover_evaluate .and rfl]
  exact Bool.and_comm _ _

/-- The gate above is asked for again. It is met by the old one, whose child is another one by now.
-/
theorem merged_building : Sound merged ∧ merged.graph.childrenOf 6 = [5] ∧
    ((Operation.gate .not [4]).perform merged).answer = .ok 6 ∧
    ∀ v, (merged.after (.gate .not [4])).graph.value v 6 = !merged.graph.value v 4 := by
  have hanswer : ((Operation.gate .not [4]).perform merged).answer = .ok 6 := by decide +kernel
  have hbuilt := (Sound.building merged_sound).2.2 (.gate .not [4]) [4] Gate.not.onValues 6
    (.gate .not [4]) hanswer
  exact ⟨merged_sound, by decide +kernel, hanswer, hbuilt.2⟩

end LogicNet
