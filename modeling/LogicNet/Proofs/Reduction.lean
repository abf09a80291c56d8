import LogicNet.Proofs.Bracketing
import LogicNet.Proofs.Depth
import LogicNet.Proofs.History
import LogicNet.Proofs.Parallel
import LogicNet.Proofs.Refusal

/-!
What reductions build. As long as nothing has been replaced, a request that sharing meets is met by
a node that is just what was asked for, so at the end of a reduction there stands, for every pair of
its bracketing, a gate above the nodes for both parts, be it a new one or not. From this follow the
values, the depth and the number of gates. Only a full counter can keep a reduction from its end.
-/

namespace LogicNet

namespace Gate

/-- The function of a kind of gate for two operands. -/
def onPair (kind : Gate) (x y : Bool) : Bool := kind.onValues [x, y]

theorem foldl_and (value : Bool) (values : List Bool) :
    values.foldl and.onPair value = (value :: values).all id := by
  induction values generalizing value with
  | nil => simp
  | cons next values ih =>
      rw [List.foldl_cons, ih, List.all_cons, List.all_cons, List.all_cons, ← Bool.and_assoc]
      rfl

theorem foldl_or (value : Bool) (values : List Bool) :
    values.foldl or.onPair value = (value :: values).any id := by
  induction values generalizing value with
  | nil => simp
  | cons next values ih =>
      rw [List.foldl_cons, ih, List.any_cons, List.any_cons, List.any_cons, ← Bool.or_assoc]
      rfl

theorem foldl_xor (value : Bool) (values : List Bool) :
    values.foldl xor.onPair value = ((value :: values).countP id % 2 == 1) := by
  induction values generalizing value with
  | nil => cases value <;> rfl
  | cons next values ih =>
      rw [List.foldl_cons, ih]
      -- Two true values count for two, which is as good as none.
      cases value <;> cases next <;> simp [onPair, onValues, Nat.add_assoc]

end Gate

namespace Graph

variable {g g' : Graph} {kind : Gate} {b : Bracketing} {n : NodeId}

/-- The node is what a bracketing of operands comes to: an operand, or a gate of the kind whose two
children are what the two parts come to. -/
def Stands (g : Graph) (kind : Gate) : Bracketing → NodeId → Prop
  | .operand m, n => n = m ∧ m < g.size
  | .pair left right, n => ∃ a b c, g.nodes[n]? = some ⟨[a, b], c⟩ ∧
      g.covers[c]? = some kind.cover ∧ g.Stands kind left a ∧ g.Stands kind right b

theorem Stands.lt_size (h : g.Stands kind b n) : n < g.size := by
  cases b with
  | operand m =>
      obtain ⟨rfl, hlt⟩ := h
      exact hlt
  | pair left right =>
      obtain ⟨_, _, _, hnode, _⟩ := h
      exact lt_size_of_nodes hnode

theorem Stands.of_grown (h : g.Stands kind b n) (hgrown : Grown g g') : g'.Stands kind b n := by
  induction b generalizing n with
  | operand m => exact ⟨h.1, Nat.lt_of_lt_of_le h.2 hgrown.size_le⟩
  | pair left right ihleft ihright =>
      obtain ⟨a, b, c, hnode, hcover, hleft, hright⟩ := h
      exact ⟨a, b, c, hgrown.nodes n _ hnode, hgrown.covers c _ hcover, ihleft hleft,
        ihright hright⟩

/-- The function of the gates folds the values of the operands. -/
theorem Stands.value_eq (h : g.Stands kind b n) (hg : g.WellFormed) (harity : kind.arity = 2)
    (v : Nat → Bool) : g.value v n = b.fold kind.onPair (g.value v) := by
  induction b generalizing n with
  | operand m =>
      rw [h.1]
      rfl
  | pair left right ihleft ihright =>
      obtain ⟨a, b, c, hnode, hcover, hleft, hright⟩ := h
      have hgate : g.isGate n = true :=
        hg.isGate_of_child (by rw [childrenOf_eq hnode]; exact List.mem_cons_self)
      rw [value_gate hg hnode hcover hgate, kind.cover_evaluate (by rw [harity]; rfl)]
      simp only [List.map_cons, List.map_nil, ihleft hleft, ihright hright, Bracketing.fold,
        Gate.onPair]

/-- Above operands that are no gates each pair is a level. -/
theorem Stands.depth_eq (h : g.Stands kind b n) (hg : g.WellFormed)
    (hflat : ∀ m ∈ b.operands, g.isGate m = false) : g.depth n = b.height := by
  induction b generalizing n with
  | operand m =>
      rw [h.1, depth_other hg (hflat m List.mem_cons_self)]
      rfl
  | pair left right ihleft ihright =>
      obtain ⟨a, b, c, hnode, _, hleft, hright⟩ := h
      have hgate : g.isGate n = true :=
        hg.isGate_of_child (by rw [childrenOf_eq hnode]; exact List.mem_cons_self)
      rw [depth_gate hg hgate, childrenOf_eq hnode, Bracketing.height_pair,
        ← ihleft hleft fun m hm => hflat m (List.mem_append_left _ hm),
        ← ihright hright fun m hm => hflat m (List.mem_append_right _ hm)]
      simp

end Graph

namespace Network

variable {net net' : Network}

/-- What sharing meets a request with is just what was asked for. -/
def Verbatim (net : Network) : Prop :=
  ∀ request n, net.shared? request = some n → net.graph.nodes[n]? = some request

/-- No call has replaced anything since the network was new or a compact copy. -/
def Unreplaced (net : Network) : Prop :=
  ∃ start calls, Born start ∧ net = start.afterAll calls ∧ ∀ n, start.UndisturbedSince n calls

theorem Unreplaced.reachable (h : net.Unreplaced) : Reachable net := by
  obtain ⟨start, calls, hborn, rfl, _⟩ := h
  exact hborn.reachable.afterAll calls

theorem Unreplaced.verbatim (h : net.Unreplaced) : net.Verbatim := by
  obtain ⟨start, calls, hborn, rfl, hnever⟩ := h
  intro request n hshared
  have hfind : (start.afterAll calls).table.find? request = some n := by
    unfold shared? at hshared
    split at hshared
    · exact hshared
    · cases hshared
  obtain ⟨⟨children, cover⟩, hnode, rfl, rfl⟩ :=
    (hborn.traced_afterAll calls).entry request n hfind
  rw [hnode, rewritten_of_undisturbed (hnever n)]

/-- Calls that are no substitutions replace nothing. -/
theorem unreplaced_afterAll {start : Network} (hborn : Born start) (calls : List Call)
    (h : ∀ call ∈ calls, call.operation.substitution? = none) :
    (start.afterAll calls).Unreplaced := by
  refine ⟨start, calls, hborn, rfl, fun _ before call after hsplit _ => ?_⟩
  unfold Call.replaced?
  split
  · exact h call (by rw [hsplit]; exact List.mem_append_right _ List.mem_cons_self)
  · rfl

/-- Without sharing there is nothing to meet. -/
theorem verbatim_of_plain (h : net.options.share = false) : net.Verbatim := by
  intro request n hshared
  rw [shared?, h] at hshared
  cases hshared

theorem Verbatim.of_building (h : net.Verbatim)
    (hbuilding : Relation.ReflTransGen Building net net') : net'.Verbatim := by
  induction hbuilding with
  | refl => exact h
  | @tail net' net'' _ hstep ih =>
      intro request n hshared
      rw [shared?, hstep.options_eq] at hshared
      rcases hstep.extension.table_cases with ⟨hnodes, htable⟩ | ⟨node, hnodes, htable, _⟩
      · rw [hnodes]
        exact ih request n (by rwa [shared?, ← htable])
      split at hshared
      swap
      · cases hshared
      next hshare =>
      rw [htable] at hshared
      rw [hnodes]
      split at hshared
      · next hnew =>
          cases hshared
          rw [hnew.2]
          exact Array.getElem?_push_size
      · have hold := ih request n (by rwa [shared?, if_pos hshare])
        have hne : n ≠ net'.graph.nodes.size := Nat.ne_of_lt (Graph.lt_size_of_nodes hold)
        rw [Array.getElem?_push, if_neg hne, hold]

/-- The second network is the first one after so many requests for two-operand gates. -/
structure Appended (net : Network) (count : Nat) (net' : Network) : Prop where
  building : Relation.ReflTransGen Building net net'
  toInputs_eq : net'.graph.toInputs = net.graph.toInputs
  size_le : net'.graph.size ≤ net.graph.size + count
  size_eq : net.options.share = false → net'.graph.size = net.graph.size + count
  references_le : net'.graph.references.length ≤ net.graph.references.length + 2 * count
  traversal_eq : net'.scratch.traversal = net.scratch.traversal
  fresh : net.scratch.Fresh → net'.scratch.Fresh

namespace Appended

theorem refl (net : Network) : net.Appended 0 net :=
  ⟨.refl, rfl, le_rfl, fun _ => rfl, le_rfl, rfl, id⟩

theorem trans {net'' : Network} {count count' : Nat} (h : net.Appended count net')
    (h' : net'.Appended count' net'') : net.Appended (count + count') net'' where
  building := h.building.trans h'.building
  toInputs_eq := h'.toInputs_eq.trans h.toInputs_eq
  size_le := by
    have := h.size_le
    have := h'.size_le
    omega
  size_eq hshare := by
    rw [h'.size_eq (by rw [options_of_building h.building, hshare]), h.size_eq hshare]
    omega
  references_le := by
    have := h.references_le
    have := h'.references_le
    omega
  traversal_eq := h'.traversal_eq.trans h.traversal_eq
  fresh hfresh := h'.fresh (h.fresh hfresh)

theorem grown {count : Nat} (h : net.Appended count net') : Graph.Grown net.graph net'.graph :=
  grown_of_extensions (extensions_of_building h.building)

theorem wellFormed {count : Nat} (h : net.Appended count net') (hwell : net.WellFormed) :
    net'.WellFormed :=
  hwell.of_extensions (extensions_of_building h.building)

end Appended

theorem Readied.appended {kind : Gate} {c : CoverId} (h : Readied net kind c net')
    (hbuilding : Relation.ReflTransGen Building net net') : net.Appended 0 net' := by
  have hsame : net'.graph.toInputs = net.graph.toInputs ∧ net'.scratch = net.scratch := by
    rcases h.left with rfl | ⟨_, rfl⟩ <;> exact ⟨rfl, rfl⟩
  have hsize : net'.graph.size = net.graph.size := congrArg Array.size h.nodes_eq
  exact ⟨hbuilding, hsame.1, hsize.le, fun _ => hsize, (congrArg _ h.references_eq).le,
    by rw [hsame.2], by rw [hsame.2]; exact id⟩

/-- The cover of a kind of gate is found, or added to the table. -/
theorem coverOfGate_appends (hwell : net.WellFormed) (kind : Gate) :
    ∃ c net', (coverOfGate kind).Gives net c net' ∧ net.Appended 0 net' ∧
      net'.graph.covers[c]? = some kind.cover := by
  obtain ⟨c, net', hgives, hreadied⟩ := coverOfGate_readies hwell kind
  have hbuilding := coverOfGate_moves kind net
  obtain ⟨hknown, _⟩ := coverOfGate_known hgives.1
  rw [hgives.2] at hbuilding hknown
  exact ⟨c, net', hgives, hreadied.appended hbuilding,
    hreadied.wellFormed.gateCover kind c hknown⟩

/-- A gate with two children has been added at the end. -/
theorem Appended.of_addNode {request : Request} (hlength : request.children.length = 2)
    (hbuilding : Relation.ReflTransGen Building net net')
    (hgraph : net'.graph = net.graph.addNode request)
    (hscratch : net'.scratch = net.scratch.grow) : net.Appended 1 net' where
  building := hbuilding
  toInputs_eq := by rw [hgraph]; rfl
  size_le := by rw [hgraph, Graph.size_addNode]
  size_eq _ := by rw [hgraph, Graph.size_addNode]
  references_le := by rw [hgraph, Graph.length_references_addNode, hlength]
  traversal_eq := by rw [hscratch]; rfl
  fresh hfresh := hscratch ▸ hfresh.grow

/-- A request for two children is met by a node that is what was asked for, a new one if there is no
sharing. -/
theorem Met.appended {a b n : NodeId} {c : CoverId} (h : Met net ⟨[a, b], c⟩ n net')
    (hverbatim : net.Verbatim) :
    net.Appended 1 net' ∧ net'.graph.nodes[n]? = some ⟨[a, b], c⟩ := by
  have hbuilding := building_of_growth h.growths
  cases h with
  | constant _ childless _ => cases childless
  | shared n _ found =>
      have hplain : net.options.share = false → net.graph.size = net.graph.size + 1 := by
        intro hshare
        rw [shared?, hshare] at found
        cases found
      exact ⟨⟨hbuilding, rfl, Nat.le_succ _, hplain, Nat.le_add_right _ _, rfl, id⟩,
        hverbatim _ n found⟩
  | created fanouts accepted fresh raised =>
      have hgraph := record_graph (net.addNode ⟨[a, b], c⟩ fanouts) ⟨[a, b], c⟩ net.graph.size
      refine ⟨.of_addNode rfl hbuilding hgraph (record_scratch _ _ _), ?_⟩
      rw [hgraph]
      exact (Graph.nodes_addNode _ _ _).trans (if_pos rfl)

section Gate

variable {kind : Gate} {a b : NodeId} (hwell : net.WellFormed)

include hwell

theorem gate_leaves (hverbatim : net.Verbatim) : (gate kind [a, b]).Leaves net fun n net' =>
    net.Appended 1 net' ∧ ∃ c, net'.graph.nodes[n]? = some ⟨[a, b], c⟩ ∧
      net'.graph.covers[c]? = some kind.cover := by
  obtain ⟨c, middle, hgives, happended, hcover⟩ := coverOfGate_appends hwell kind
  refine .require_bind fun _ n hn => ?_
  rw [Action.bind_answer_of_ok hgives.1, hgives.2] at hn
  rw [Action.bind_state_of_ok hgives.1, hgives.2]
  obtain ⟨hmore, hnode⟩ := (node_met hn).appended (hverbatim.of_building happended.building)
  exact ⟨by simpa using happended.trans hmore, _, hnode, hmore.grown.covers _ _ hcover⟩

/-- Nothing but a full counter refuses a gate on operands that suit it. -/
theorem gate_full (harity : kind.arity = 2) (ha : a < net.graph.size) (hb : b < net.graph.size) :
    (gate kind [a, b]).Fails net fun fault _ =>
      fault = .counterFull ∧ UInt32.size ≤ net.graph.references.length + 2 := by
  obtain ⟨c, middle, hgives, happended, hcover⟩ := coverOfGate_appends hwell kind
  have hwell' := happended.wellFormed hwell
  have hle := happended.grown.size_le
  have hrun : (gate kind [a, b] net).answer = (node [a, b] c middle).answer := by
    have hoperands : [a, b].length = kind.arity := harity.symm
    unfold gate
    rw [Action.require_bind_run hoperands, Action.bind_answer_of_ok hgives.1, hgives.2]
  have haccepted : middle.graph.Accepts ⟨[a, b], c⟩ :=
    { cover_lt := (Array.getElem?_eq_some_iff.1 hcover).1
      children_ne_nil := List.cons_ne_nil _ _
      length_le := Nat.le_of_ble_eq_true rfl
      child_lt := by
        intro child hchild
        rcases List.mem_pair.1 hchild with rfl | rfl
        · exact ha.trans_le hle
        · exact hb.trans_le hle }
  intro fault hfault
  rw [hrun] at hfault
  rcases node_met_or_full haccepted with ⟨n, hn, _⟩ | ⟨hfull, hraised⟩
  · rw [hn] at hfault
    cases hfault
  rw [hfull] at hfault
  refine ⟨(Except.error.inj hfault).symm, ?_⟩
  by_contra hroom
  have hreferences := happended.references_le
  obtain ⟨fanouts, hok⟩ := hwell'.raiseAll_isOk haccepted.child_lt
    (by simp only [List.length_cons, List.length_nil]; omega)
  exact hraised fanouts hok

end Gate

section Build

variable {kind : Gate} {notes : Bracketing → Bracketing → List Entry} {b : Bracketing}

/-- A bracketing that has been made stands. -/
theorem build_leaves (hwell : net.WellFormed) (hverbatim : net.Verbatim)
    (hlt : ∀ m ∈ b.operands, m < net.graph.size) :
    (b.build (combineBy kind) notes).Leaves net fun n net' =>
      net.Appended b.pairs net' ∧ net'.graph.Stands kind b n := by
  induction b generalizing net with
  | operand m => exact .pure ⟨.refl net, rfl, hlt m List.mem_cons_self⟩
  | pair left right ihleft ihright =>
      refine .report_bind (.bind (ihleft hwell hverbatim fun m hm =>
        hlt m (List.mem_append_left _ hm)) fun a first ⟨hfirst, hleft⟩ => ?_)
      have hwell₁ := hfirst.wellFormed hwell
      have hverbatim₁ := hverbatim.of_building hfirst.building
      refine .bind (ihright hwell₁ hverbatim₁ fun m hm =>
        (hlt m (List.mem_append_right _ hm)).trans_le hfirst.grown.size_le)
        fun b second ⟨hsecond, hright⟩ n hn => ?_
      obtain ⟨hlast, c, hnode, hcover⟩ := gate_leaves (hsecond.wellFormed hwell₁)
        (hverbatim₁.of_building hsecond.building) n hn
      exact ⟨(hfirst.trans hsecond).trans hlast, a, b, c, hnode, hcover,
        hleft.of_grown (hsecond.grown.trans hlast.grown), hright.of_grown hlast.grown⟩

/-- Nothing but a full counter refuses a bracketing of nodes that are there. -/
theorem build_full (hwell : net.WellFormed) (hverbatim : net.Verbatim) (harity : kind.arity = 2)
    (hlt : ∀ m ∈ b.operands, m < net.graph.size) :
    (b.build (combineBy kind) notes).Fails net fun fault _ =>
      fault = .counterFull ∧ UInt32.size ≤ net.graph.references.length + 2 * b.pairs := by
  induction b generalizing net with
  | operand m => exact .pure m
  | pair left right ihleft ihright =>
      have hltleft : ∀ m ∈ left.operands, m < net.graph.size :=
        fun m hm => hlt m (List.mem_append_left _ hm)
      refine .report_bind (.bind ((ihleft hwell hverbatim hltleft).mono fun _ _ h =>
        ⟨h.1, by simp only [Bracketing.pairs]; omega⟩) fun a first hgives => ?_)
      obtain ⟨hfirst, hleft⟩ := (build_leaves hwell hverbatim hltleft).of_gives hgives
      have hwell₁ := hfirst.wellFormed hwell
      have hverbatim₁ := hverbatim.of_building hfirst.building
      have hltright : ∀ m ∈ right.operands, m < first.graph.size := fun m hm =>
        (hlt m (List.mem_append_right _ hm)).trans_le hfirst.grown.size_le
      have huses := hfirst.references_le
      refine .bind ((ihright hwell₁ hverbatim₁ hltright).mono fun _ _ h =>
        ⟨h.1, by simp only [Bracketing.pairs]; omega⟩) fun b second hgives' => ?_
      obtain ⟨hsecond, hright⟩ := (build_leaves hwell₁ hverbatim₁ hltright).of_gives hgives'
      have huses' := hsecond.references_le
      exact (gate_full (hsecond.wellFormed hwell₁) harity
        (hleft.lt_size.trans_le hsecond.grown.size_le) hright.lt_size).mono fun _ _ h =>
          ⟨h.1, by simp only [Bracketing.pairs]; omega⟩

end Build

section Reduce

variable {kind : Gate} {operands : List NodeId} (hwell : net.WellFormed) (hverbatim : net.Verbatim)
  (hne : operands ≠ []) (hlt : ∀ m ∈ operands, m < net.graph.size)

include hwell hverbatim hne hlt

/-- At the end of a reduction its bracketing stands. -/
theorem reduceTo_leaves (shape : Shape) :
    (reduceTo shape (combineBy kind) operands none).Leaves net fun n net' =>
      net.Appended (operands.length - 1) net' ∧
        ∃ b, shape.Brackets operands b ∧ net'.graph.Stands kind b n := by
  obtain ⟨b, hb⟩ := shape.exists_brackets hne
  rw [hb.reduces, ← hb.pairs_eq]
  intro n hn
  obtain ⟨happended, hstands⟩ := build_leaves hwell hverbatim (hb.operands_eq ▸ hlt) n hn
  exact ⟨happended, b, hb, hstands⟩

/-- Nothing but a full counter refuses a reduction of nodes that are there. -/
theorem reduceTo_full (harity : kind.arity = 2) (shape : Shape) :
    (reduceTo shape (combineBy kind) operands none).Fails net fun fault _ =>
      fault = .counterFull ∧
        UInt32.size ≤ net.graph.references.length + 2 * (operands.length - 1) := by
  obtain ⟨b, hb⟩ := shape.exists_brackets hne
  rw [hb.reduces, ← hb.pairs_eq]
  exact build_full hwell hverbatim harity (hb.operands_eq ▸ hlt)

/-- Unless a counter is full a reduction comes to its end. -/
theorem reduceTo_gives (harity : kind.arity = 2) (shape : Shape)
    (hcounted : (reduceTo shape (combineBy kind) operands none net).answer ≠
      .error .counterFull) :
    ∃ n net', (reduceTo shape (combineBy kind) operands none).Gives net n net' ∧
      net.Appended (operands.length - 1) net' ∧
      ∃ b, shape.Brackets operands b ∧ net'.graph.Stands kind b n := by
  cases hn : (reduceTo shape (combineBy kind) operands none net).answer with
  | error fault =>
      obtain ⟨rfl, _⟩ := reduceTo_full hwell hverbatim hne hlt harity shape fault hn
      exact absurd hn hcounted
  | ok n => exact ⟨n, _, ⟨hn, rfl⟩, reduceTo_leaves hwell hverbatim hne hlt shape n hn⟩

end Reduce

/-- Whatever the network holds, the construction comes to a node of which the value is the function
of the values before. Nothing but a full counter keeps it from that, and there is none if so many
uses more can be counted. What was there keeps its values. -/
structure Constructs (net : Network) (x : Action Network NodeId) (uses : Nat)
    (f : (NodeId → Bool) → Bool) : Prop where
  met : (x net).answer ≠ .error .counterFull → ∃ n, (x net).answer = .ok n ∧
    n < (x net).state.graph.size ∧ ∀ v, (x net).state.graph.value v n = f (net.graph.value v)
  kept : ∀ v, ∀ m < net.graph.size, (x net).state.graph.value v m = net.graph.value v m
  room : net.graph.references.length + uses < UInt32.size →
    (x net).answer ≠ .error .counterFull

theorem Constructs.of_gives {x : Action Network NodeId} {uses : Nat} {f : (NodeId → Bool) → Bool}
    (h : net.Constructs x uses f) {n : NodeId} (hn : x.Gives net n net') :
    n < net'.graph.size ∧ ∀ v, net'.graph.value v n = f (net.graph.value v) := by
  obtain ⟨hanswer, rfl⟩ := hn
  obtain ⟨m, hm, hvalue⟩ := h.met (by rw [hanswer]; nofun)
  rw [hanswer] at hm
  cases hm
  exact hvalue

theorem constructs_answer {a : NodeId} (ha : a < net.graph.size) {f : (NodeId → Bool) → Bool}
    (hf : ∀ v, net.graph.value v a = f (net.graph.value v)) (uses : Nat) :
    net.Constructs (pure a) uses f :=
  ⟨fun _ => ⟨a, rfl, ha, hf⟩, fun _ _ _ => rfl, nofun⟩

section Fold

variable {kind : Gate} {first : NodeId} {rest : List NodeId} (hwell : net.WellFormed)
  (hverbatim : net.Verbatim) (harity : kind.arity = 2) (hassoc : Std.Associative kind.onPair)
  (hlt : ∀ m ∈ first :: rest, m < net.graph.size)

include hwell hverbatim harity hassoc hlt

/-- A reduction in either shape folds the values from left to right. -/
theorem reduceTo_constructs (shape : Shape) :
    net.Constructs (reduceTo shape (combineBy kind) (first :: rest) none) (2 * rest.length)
      fun value => (rest.map value).foldl kind.onPair (value first) := by
  have hne := List.cons_ne_nil first rest
  have hextensions := reduceTo_moves (combineBy_moves kind) shape (first :: rest) none net
  have hwell' := hwell.of_extensions hextensions
  have hkept := fun v m hm =>
    (grown_of_extensions hextensions).value hwell.graph hwell'.graph v (n := m) hm
  refine ⟨fun hanswer => ?_, hkept, fun hroom hanswer => ?_⟩
  · obtain ⟨n, _, ⟨hn, rfl⟩, _, b, hb, hstands⟩ :=
      reduceTo_gives hwell hverbatim hne hlt harity shape hanswer
    refine ⟨n, hn, hstands.lt_size, fun v => ?_⟩
    rw [hstands.value_eq hwell'.graph harity, ← Bracketing.fold_eq_foldl _ hb.operands_eq]
    exact Bracketing.fold_congr fun m hm => hkept v m (hlt m (hb.operands_eq ▸ hm))
  · obtain ⟨_, hfull⟩ := reduceTo_full hwell hverbatim hne hlt harity shape _ hanswer
    rw [List.length_cons, Nat.add_sub_cancel] at hfull
    omega

/-- Two reductions of the same operands, one after the other, come to nodes of the same value. -/
theorem reduceTo_agree (shape shape' : Shape) {n m : NodeId} {middle : Network}
    (hn : (reduceTo shape (combineBy kind) (first :: rest) none).Gives net n middle)
    (hm : (reduceTo shape' (combineBy kind) (first :: rest) none).Gives middle m net')
    (v : Nat → Bool) : net'.graph.value v n = net'.graph.value v m := by
  obtain ⟨happended, _⟩ := (reduceTo_leaves hwell hverbatim (List.cons_ne_nil first rest) hlt
    shape).of_gives hn
  have hlt' : ∀ a ∈ first :: rest, a < middle.graph.size :=
    fun a ha => (hlt a ha).trans_le happended.grown.size_le
  have hfirst := reduceTo_constructs hwell hverbatim harity hassoc hlt shape
  have hsecond := reduceTo_constructs (happended.wellFormed hwell)
    (hverbatim.of_building happended.building) harity hassoc hlt' shape'
  have hkept := hn.2 ▸ hfirst.kept v
  have hrest : rest.map (middle.graph.value v) = rest.map (net.graph.value v) :=
    List.map_congr_left fun a ha => hkept a (hlt a (List.mem_cons_of_mem _ ha))
  calc net'.graph.value v n
    _ = middle.graph.value v n := hm.2 ▸ hsecond.kept v n (hfirst.of_gives hn).1
    _ = (rest.map (net.graph.value v)).foldl kind.onPair (net.graph.value v first) :=
        (hfirst.of_gives hn).2 v
    _ = (rest.map (middle.graph.value v)).foldl kind.onPair (middle.graph.value v first) := by
        rw [hrest, hkept first (hlt first List.mem_cons_self)]
    _ = net'.graph.value v m := ((hsecond.of_gives hm).2 v).symm

end Fold

/-- With a result for no operands a reduction has the function of which it is the fold. -/
theorem reduce_constructs (kind : Gate) (f : List Bool → Bool) {operands : List NodeId}
    (hwell : net.WellFormed) (hverbatim : net.Verbatim) (harity : kind.arity = 2)
    (hassoc : Std.Associative kind.onPair) (hlt : ∀ m ∈ operands, m < net.graph.size)
    (shape : Shape) (hf : ∀ value values, values.foldl kind.onPair value = f (value :: values)) :
    net.Constructs (reduce shape (combineBy kind) (Graph.constant (f [])) operands)
      (2 * (operands.length - 1)) fun value => f (operands.map value) := by
  cases operands with
  | nil =>
      exact constructs_answer (hwell.graph.constant_lt _)
        (fun v => Graph.value_constant hwell.graph _) _
  | cons first rest =>
      simp only [List.map_cons, ← hf]
      exact reduceTo_constructs hwell hverbatim harity hassoc hlt shape

end Network

open Network

/-- Reductions compute what they reduce to. If nothing has been replaced so far, or sharing is off,
the two shapes come to nodes of the same value whatever the operands are: the values of the
operands, put together from left to right. So conjunctions, disjunctions and parities of any number
of operands are just that, and those of no operands are constants. -/
theorem Network.reductions {net : Network}
    (h : net.Unreplaced ∨ Reachable net ∧ net.options.share = false) :
    (∀ (kind : Gate) (first : NodeId) (rest : List NodeId), kind.arity = 2 →
      Std.Associative kind.onPair → (∀ m ∈ first :: rest, m < net.graph.size) → ∀ shape,
      net.Constructs (reduceTo shape (combineBy kind) (first :: rest) none) (2 * rest.length)
        (fun value => (rest.map value).foldl kind.onPair (value first)) ∧
      ∀ shape' n m middle net',
        (reduceTo shape (combineBy kind) (first :: rest) none).Gives net n middle →
        (reduceTo shape' (combineBy kind) (first :: rest) none).Gives middle m net' →
        ∀ v, net'.graph.value v n = net'.graph.value v m) ∧
    (∀ operands : List NodeId, (∀ m ∈ operands, m < net.graph.size) →
      net.Constructs (conjunction operands) (2 * (operands.length - 1))
        (fun value => operands.all value) ∧
      net.Constructs (disjunction operands) (2 * (operands.length - 1))
        (fun value => operands.any value) ∧
      net.Constructs (parity operands) (2 * (operands.length - 1))
        (fun value => operands.countP value % 2 == 1)) ∧
    (conjunction [] net).answer = .ok (Graph.constant true) ∧
    (disjunction [] net).answer = .ok (Graph.constant false) ∧
    (parity [] net).answer = .ok (Graph.constant false) := by
  have hwell : net.WellFormed := h.elim (·.reachable.wellFormed) (·.1.wellFormed)
  have hverbatim : net.Verbatim := h.elim (·.verbatim) fun hplain => verbatim_of_plain hplain.2
  refine ⟨fun kind first rest harity hassoc hlt shape =>
    ⟨reduceTo_constructs hwell hverbatim harity hassoc hlt shape,
      fun shape' n m middle net' hn hm => reduceTo_agree hwell hverbatim harity hassoc hlt shape
        shape' hn hm⟩, fun operands hlt => ⟨?_, ?_, ?_⟩, rfl, rfl, rfl⟩
  · have h := reduce_constructs .and (·.all id) hwell hverbatim rfl ⟨by decide⟩ hlt .tree
      Gate.foldl_and
    simp only [List.all_map, Function.id_comp] at h
    exact h
  · have h := reduce_constructs .or (·.any id) hwell hverbatim rfl ⟨by decide⟩ hlt .tree
      Gate.foldl_or
    simp only [List.any_map, Function.id_comp] at h
    exact h
  · have h := reduce_constructs .xor (fun values => values.countP id % 2 == 1) hwell hverbatim rfl
      ⟨by decide⟩ hlt .tree Gate.foldl_xor
    simp only [List.countP_map, Function.id_comp] at h
    exact h

theorem paired_unreplaced : paired.Unreplaced :=
  unreplaced_afterAll (.new .sharing) [⟨_, .addPrimaryInput⟩, ⟨_, .addPrimaryInput⟩]
    (by simp [Operation.substitution?])

/-- Two inputs twice each and a constant, in either shape. What the second reduction has in common
with the first one is found again. -/
theorem paired_reductions : paired.Unreplaced ∧ Gate.xor.arity = 2 ∧
    Std.Associative Gate.xor.onPair ∧ (∀ m ∈ [2, 3, 2, 1, 3], m < paired.graph.size) ∧
    ∃ middle net', (linearReduce (combineBy .xor) [2, 3, 2, 1, 3]).Gives paired 7 middle ∧
      (treeReduce (combineBy .xor) [2, 3, 2, 1, 3]).Gives middle 10 net' ∧
      net'.graph.childrenOf 10 = [4, 9] ∧
      ∀ v, net'.graph.value v 10 = net'.graph.value v 7 ∧ middle.graph.value v 7 = true := by
  have hassoc : Std.Associative Gate.xor.onPair := ⟨by decide⟩
  have hlt : ∀ m ∈ [2, 3, 2, 1, 3], m < paired.graph.size := by decide +kernel
  have hreduced := (reductions (Or.inl paired_unreplaced)).1 .xor 2 [3, 2, 1, 3] rfl hassoc hlt
    .linear
  refine ⟨paired_unreplaced, rfl, hassoc, hlt, _, _, ⟨by decide +kernel, rfl⟩,
    ⟨by decide +kernel, rfl⟩, by decide +kernel, fun v => ⟨?_, ?_⟩⟩
  · exact (hreduced.2 .tree 7 10 _ _ ⟨by decide +kernel, rfl⟩ ⟨by decide +kernel, rfl⟩ v).symm
  · refine ((hreduced.1.of_gives ⟨by decide +kernel, rfl⟩).2 v).trans ?_
    have hconstant : paired.graph.value v 1 = true :=
      Graph.value_constant paired_unreplaced.reachable.wellFormed.graph true
    simp only [List.map_cons, List.map_nil, hconstant]
    generalize paired.graph.value v 2 = x
    generalize paired.graph.value v 3 = y
    revert x y
    decide

end LogicNet
