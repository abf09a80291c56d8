import LogicNet.Proofs.Action
import LogicNet.Proofs.Operation
import LogicNet.Proofs.Redirection
import Mathlib.Data.List.Forall2

/-!
The elementary changes of a network. Whatever a call does to a network, refused or not, is a
sequence of the changes listed here, each with all that has been checked before it is made; only a
substitution also redirects uses. What every elementary change preserves is therefore true of every
reachable network.
-/

namespace LogicNet

/-- A request that a node can be made for: its cover is in the table, and its children, of which
there are from 1 to 32, are nodes. -/
structure Graph.Accepts (g : Graph) (request : Request) : Prop where
  cover_lt : request.cover < g.covers.size
  children_ne_nil : request.children ≠ []
  length_le : request.children.length ≤ maxFanin
  child_lt : ∀ child ∈ request.children, child < g.size

namespace Network

/-- The elementary changes that add to a network or touch its scratch space. -/
inductive Growth : Network → Network → Prop where
  | primaryInput {net : Network} (first : net.graph.inputs.length = net.graph.primaryInputCount) :
      Growth net { net.addInputNode with graph := net.graph.pushPrimaryInput }
  | registerOutput {net : Network} : Growth net net.addInputNode
  | primaryOutput {net : Network} (signal : NodeId) (fanouts : Fanouts)
      (signal_lt : signal < net.graph.size)
      (first : net.graph.outputs.length = net.graph.primaryOutputCount)
      (raised : net.fanouts.raise signal 1 = .ok fanouts) :
      Growth net { net with fanouts, graph := net.graph.pushPrimaryOutput signal }
  | registerInput {net : Network} (signal : NodeId) (reset : Reset) (fanouts : Fanouts)
      (signal_lt : signal < net.graph.size)
      (paired : net.graph.resets.length < net.graph.terminalCount .registerOutput)
      (raised : net.fanouts.raise signal 1 = .ok fanouts) :
      Growth net { net with fanouts, graph := net.graph.pushRegisterInput signal reset }
  | cover {net : Network} (cover : Cover) (tidy : ∀ cube ∈ cover.cubes, cube.Tidy) :
      Growth net { net with graph := net.graph.addCover cover }
  | gate {net : Network} (request : Request) (fanouts : Fanouts)
      (accepted : net.graph.Accepts request) (fresh : net.shared? request = none)
      (raised : Fanouts.raiseAll (net.fanouts.push 0) request.children = .ok fanouts) :
      Growth net ((net.addNode request fanouts).record request net.graph.size)
  | scratch {net : Network} (scratch : Scratch)
      (values_size : scratch.values.size = net.scratch.values.size)
      (marks_size : scratch.marks.size = net.scratch.marks.size) :
      Growth net { net with scratch }

/-- The elementary changes other than a redirection: those of `Growth`, covers becoming those of
kinds of gate that had none, and new listeners and options. -/
inductive Extension : Network → Network → Prop where
  | growth {net net' : Network} : Growth net net' → Extension net net'
  | gateCover {net : Network} (assigned : Gate → Option CoverId)
      (kept : ∀ kind c, net.gateCover kind = some c → assigned kind = some c)
      (right : ∀ kind c, assigned kind = some c → net.gateCover kind = some c ∨
        net.graph.covers[c]? = some kind.cover) :
      Extension net { net with gateCover := assigned }
  | listeners {net : Network} (listeners : Listeners) : Extension net { net with listeners }
  | options {net : Network} (options : Options) : Extension net { net with options }

/-- The extensions that leave listeners and options as they are. -/
structure Building (net net' : Network) : Prop where
  extension : Extension net net'
  listeners_eq : net'.listeners = net.listeners
  options_eq : net'.options = net.options

/-- A redirection of the uses of one node to another that passed every check. -/
structure Redirection (net : Network) (old new : NodeId) (net' : Network) : Prop where
  checked : checkSubstitution net.graph old new = .ok ()
  result : ∃ fanouts, net.moveUses old new = .ok fanouts ∧
    net' = { net with graph := net.graph.redirect old new, fanouts }

/-- The elementary changes. -/
inductive Change : Network → Network → Prop where
  | extension {net net' : Network} : Extension net net' → Change net net'
  | redirection {net net' : Network} (old new : NodeId) :
      Redirection net old new net' → Change net net'

/-- A run in which a network grows extends it. -/
theorem extensions_of_growth {net net' : Network} (h : Relation.ReflTransGen Growth net net') :
    Relation.ReflTransGen Extension net net' :=
  Relation.ReflTransGen.mono (fun _ _ => Extension.growth) _ _ h

theorem extensions_of_building {net net' : Network} (h : Relation.ReflTransGen Building net net') :
    Relation.ReflTransGen Extension net net' :=
  Relation.ReflTransGen.mono (fun _ _ => Building.extension) _ _ h

section Fields

variable (net : Network) (request : Request) (n : NodeId) (fanouts : Fanouts)

@[simp] theorem record_graph : (net.record request n).graph = net.graph := by
  unfold record; split <;> rfl

@[simp] theorem record_fanouts : (net.record request n).fanouts = net.fanouts := by
  unfold record; split <;> rfl

@[simp] theorem record_scratch : (net.record request n).scratch = net.scratch := by
  unfold record; split <;> rfl

@[simp] theorem record_gateCover : (net.record request n).gateCover = net.gateCover := by
  unfold record; split <;> rfl

@[simp] theorem record_options : (net.record request n).options = net.options := by
  unfold record; split <;> rfl

@[simp] theorem record_listeners : (net.record request n).listeners = net.listeners := by
  unfold record; split <;> rfl

theorem find?_record_table (other : Request) :
    (net.record request n).table.find? other =
      if net.options.share ∧ request = other then some n else net.table.find? other := by
  unfold record
  by_cases hshare : net.options.share
  · simp [hshare, SharingTable.find?_record]
  · simp [hshare]

@[simp] theorem addInputNode_graph : net.addInputNode.graph = net.graph.pushInput := by
  simp [addInputNode]

@[simp] theorem addInputNode_fanouts : net.addInputNode.fanouts = net.fanouts.push 0 := by
  simp [addInputNode]

@[simp] theorem addInputNode_scratch : net.addInputNode.scratch = net.scratch.grow := by
  simp [addInputNode]

@[simp] theorem addInputNode_gateCover : net.addInputNode.gateCover = net.gateCover := by
  simp [addInputNode]

@[simp] theorem addInputNode_options : net.addInputNode.options = net.options := by
  simp [addInputNode]

@[simp] theorem addInputNode_listeners : net.addInputNode.listeners = net.listeners := by
  simp [addInputNode]

theorem find?_addInputNode_table (other : Request) :
    net.addInputNode.table.find? other =
      if net.options.share ∧ net.graph.inputNode = other
      then some net.graph.size else net.table.find? other := by
  simp [addInputNode, find?_record_table]

end Fields

theorem Growth.builds {net net' : Network} (h : Growth net net') : Building net net' := by
  refine ⟨.growth h, ?_, ?_⟩
  · cases h with
    | primaryInput _ | registerOutput => exact addInputNode_listeners net
    | gate request fanouts _ _ _ => exact record_listeners _ request _
    | _ => rfl
  · cases h with
    | primaryInput _ | registerOutput => exact addInputNode_options net
    | gate request fanouts _ _ _ => exact record_options _ request _
    | _ => rfl

theorem building_of_growth {net net' : Network} (h : Relation.ReflTransGen Growth net net') :
    Relation.ReflTransGen Building net net' :=
  Relation.ReflTransGen.mono (fun _ _ => Growth.builds) _ _ h

theorem options_of_building {net net' : Network} (h : Relation.ReflTransGen Building net net') :
    net'.options = net.options := by
  induction h with
  | refl => rfl
  | tail _ hstep ih => rw [hstep.options_eq, ih]

theorem building_moves {α : Type} {x : Action Network α} (h : Action.Moves Growth x) :
    Action.Moves Building x := fun net => building_of_growth (h net)

/-- How a request for a node is met, and the network from then on. -/
inductive Met (net : Network) (request : Request) : NodeId → Network → Prop where
  | constant (cover : Cover) (childless : request.children = [])
      (named : net.graph.covers[request.cover]? = some cover) :
      Met net request (Graph.constant cover.polarity) net
  | shared (n : NodeId) (accepted : net.graph.Accepts request)
      (found : net.shared? request = some n) : Met net request n net
  | created (fanouts : Fanouts) (accepted : net.graph.Accepts request)
      (fresh : net.shared? request = none)
      (raised : Fanouts.raiseAll (net.fanouts.push 0) request.children = .ok fanouts) :
      Met net request net.graph.size ((net.addNode request fanouts).record request net.graph.size)

theorem Met.growth {net net' : Network} {request : Request} {n : NodeId}
    (h : Met net request n net') : net' = net ∨ Growth net net' := by
  cases h with
  | constant => exact Or.inl rfl
  | shared => exact Or.inl rfl
  | created fanouts accepted fresh raised =>
      exact Or.inr (.gate request fanouts accepted fresh raised)

theorem Met.growths {net net' : Network} {request : Request} {n : NodeId}
    (h : Met net request n net') : Relation.ReflTransGen Growth net net' := by
  rcases h.growth with heq | hgrowth
  · rw [heq]
  · exact .single hgrowth

theorem check_eq_ok_iff (g : Graph) (n : NodeId) : g.check n = .ok () ↔ n < g.size := by
  unfold Graph.check
  split <;> simp_all

theorem forM_except_eq_ok_iff {α : Type} (f : α → Except Fault PUnit) (items : List α) :
    items.forM f = .ok () ↔ ∀ item ∈ items, f item = .ok () := by
  induction items with
  | nil => simp [List.forM, pure, Except.pure]
  | cons item rest ih =>
      show (f item >>= fun _ => rest.forM f) = .ok () ↔ _
      cases hitem : f item with
      | ok _ => simpa [Bind.bind, Except.bind, hitem] using ih
      | error fault => simp [Bind.bind, Except.bind, hitem]

theorem forM_except_error {α : Type} {f : α → Except Fault PUnit} {items : List α} {fault : Fault}
    (h : items.forM f = .error fault) : ∃ item ∈ items, f item = .error fault := by
  induction items with
  | nil => cases h
  | cons item rest ih =>
      change (f item >>= fun _ => rest.forM f) = .error fault at h
      cases hitem : f item with
      | ok _ =>
          rw [hitem] at h
          obtain ⟨other, hother, hfault⟩ := ih h
          exact ⟨other, List.mem_cons_of_mem _ hother, hfault⟩
      | error early =>
          rw [hitem] at h
          cases h
          exact ⟨item, List.mem_cons_self, hitem⟩

/-- The results of a traversal that is not refused are those of the items, one by one. -/
theorem mapM_except_eq_ok_iff {ε α β : Type} {f : α → Except ε β} {items : List α}
    {results : List β} : items.mapM f = .ok results ↔
      List.Forall₂ (fun item result => f item = .ok result) items results := by
  induction items generalizing results with
  | nil => simp [pure, Except.pure, eq_comm]
  | cons item rest ih =>
      rw [List.mapM_cons, List.forall₂_cons_left_iff]
      cases hitem : f item with
      | error error => simp [Bind.bind, Except.bind]
      | ok result =>
          cases hrest : rest.mapM f with
          | error error => simp [Bind.bind, Except.bind, ← ih, hrest]
          | ok others => simp [Bind.bind, Except.bind, pure, Except.pure, ← ih, hrest, eq_comm]

theorem exists_mapM_except {ε α β : Type} {f : α → Except ε β} {items : List α}
    (h : ∀ item ∈ items, ∃ result, f item = .ok result) :
    ∃ results, items.mapM f = .ok results := by
  simp only [mapM_except_eq_ok_iff]
  induction items with
  | nil => exact ⟨[], .nil⟩
  | cons item rest ih =>
      obtain ⟨result, hresult⟩ := h item List.mem_cons_self
      obtain ⟨results, hresults⟩ := ih fun other hother => h other (List.mem_cons_of_mem item hother)
      exact ⟨result :: results, .cons hresult hresults⟩

/-- The first item that is refused decides the refusal. -/
theorem mapM_except_eq_error {ε α β : Type} {f : α → Except ε β} {before after : List α} {item : α}
    {error : ε} (hbefore : ∀ earlier ∈ before, ∃ result, f earlier = .ok result)
    (hitem : f item = .error error) : (before ++ item :: after).mapM f = .error error := by
  induction before with
  | nil =>
      rw [List.nil_append, List.mapM_cons, hitem]
      rfl
  | cons earlier before ih =>
      obtain ⟨result, hresult⟩ := hbefore earlier List.mem_cons_self
      rw [List.cons_append, List.mapM_cons, hresult,
        ih fun other hother => hbefore other (List.mem_cons_of_mem earlier hother)]
      rfl

theorem mapM_except_eq_ok {α β : Type} {f : α → Except Fault β} {value : α → β} {items : List α}
    (h : ∀ item ∈ items, f item = .ok (value item)) : items.mapM f = .ok (items.map value) := by
  rw [mapM_except_eq_ok_iff, List.forall₂_map_right_iff]
  exact List.forall₂_same.2 h

theorem checkAll_eq_ok_iff (g : Graph) (ns : List NodeId) :
    g.checkAll ns = .ok () ↔ ∀ n ∈ ns, n < g.size := by
  simp only [Graph.checkAll, forM_except_eq_ok_iff, check_eq_ok_iff]

/-- The outcome of a creation, whose names have been checked. -/
theorem createNode_run (request : Request) (net : Network) :
    match Fanouts.raiseAll (net.fanouts.push 0) request.children with
    | .ok fanouts =>
      (createNode request net).answer = .ok net.graph.size ∧
      (createNode request net).state =
        (net.addNode request fanouts).record request net.graph.size
    | .error fault =>
      (createNode request net).answer = .error fault ∧ (createNode request net).state = net := by
  unfold createNode
  rw [Action.get_bind_run]
  cases Fanouts.raiseAll (net.fanouts.push 0) request.children with
  | ok fanouts =>
      simp only [Action.lift_ok_bind_run, Action.set_bind_run, Action.note_bind_run,
        Action.report_bind_run, Action.pure_run]
      exact ⟨trivial, trivial⟩
  | error fault => simp [Action.lift_error_bind_run]

/-- A request is refused without a trace, or it is met. -/
theorem node_run (children : List NodeId) (cover : CoverId) (net : Network) :
    match (node children cover net).answer with
    | .ok n => Met net ⟨children, cover⟩ n (node children cover net).state
    | .error _ => (node children cover net).state = net := by
  unfold node
  rw [Action.get_bind_run]
  cases hcover : net.graph.cover cover with
  | error fault => simp [Action.lift_error_bind_run]
  | ok function =>
      have hnamed := (Graph.cover_eq_ok_iff _ _ _).1 hcover
      rw [Action.lift_ok_bind_run]
      by_cases hnil : children = []
      · subst hnil
        exact .constant function rfl hnamed
      rw [if_neg (by simpa using hnil)]
      by_cases hlong : ¬ children.length ≤ maxFanin
      · simp [Action.require_bind_run_error hlong]
      have hlength := Decidable.not_not.1 hlong
      rw [Action.require_bind_run hlength]
      cases hcheck : net.graph.checkAll children with
      | error fault => simp [Action.lift_error_bind_run]
      | ok _ =>
          have haccepted : net.graph.Accepts ⟨children, cover⟩ :=
            ⟨(Array.getElem?_eq_some_iff.1 hnamed).1, hnil, hlength,
              (checkAll_eq_ok_iff _ _).1 hcheck⟩
          rw [Action.lift_ok_bind_run]
          cases hshared : net.shared? ⟨children, cover⟩ with
          | some n =>
              simp only [Action.note_bind_run, Action.pure_run]
              exact .shared n haccepted hshared
          | none =>
              have hcreate := createNode_run ⟨children, cover⟩ net
              cases hraised : Fanouts.raiseAll (net.fanouts.push 0) children with
              | ok fanouts =>
                  simp only [hraised] at hcreate
                  simp only [hcreate]
                  exact .created fanouts haccepted hshared hraised
              | error fault =>
                  simp only [hraised] at hcreate
                  simp only [hcreate]

theorem node_met {children : List NodeId} {cover : CoverId} {net : Network} {n : NodeId}
    (h : (node children cover net).answer = .ok n) :
    Met net ⟨children, cover⟩ n (node children cover net).state := by
  have hrun := node_run children cover net
  rwa [h] at hrun

theorem node_moves (children : List NodeId) (cover : CoverId) :
    Action.Moves Growth (node children cover) := by
  intro net
  have hrun := node_run children cover net
  cases h : (node children cover net).answer with
  | error fault =>
      rw [h] at hrun
      rw [show (node children cover net).state = net from hrun]
  | ok n =>
      rw [h] at hrun
      exact Met.growths hrun

theorem addCover_run {cover : Cover} (tidy : ∀ cube ∈ cover.cubes, cube.Tidy) (net : Network) :
    addCover cover net =
      ⟨.ok net.graph.covers.size, { net with graph := net.graph.addCover cover }, []⟩ := by
  unfold addCover
  rw [Action.get_bind_run, (Cover.firstStray?_eq_none_iff cover).2 tidy]
  exact Action.set_bind_run _ _ _

theorem addCover_run_error {cover : Cover} {cube : Cube} (h : cover.firstStray? = some cube)
    (net : Network) : addCover cover net = ⟨.error (.strayCubeBits cube), net, []⟩ := by
  unfold addCover
  rw [Action.get_bind_run, h]
  exact Action.fail_bind_run _ _ _

/-- Covers with stray bits are refused. -/
theorem addCover_tidy {cover : Cover} {net : Network} {c : CoverId}
    (h : (addCover cover net).answer = .ok c) : ∀ cube ∈ cover.cubes, cube.Tidy := by
  rw [← Cover.firstStray?_eq_none_iff]
  cases hstray : cover.firstStray? with
  | none => rfl
  | some cube =>
      rw [addCover_run_error hstray] at h
      cases h

theorem addCover_leaves (cover : Cover) (net : Network) :
    (addCover cover).Leaves net fun c net' =>
      c = net.graph.covers.size ∧ net' = { net with graph := net.graph.addCover cover } := by
  intro c hc
  have tidy := addCover_tidy hc
  rw [addCover_run tidy] at hc ⊢
  cases hc
  exact ⟨rfl, rfl⟩

theorem addCover_moves (cover : Cover) : Action.Moves Growth (addCover cover) := by
  intro net
  cases h : cover.firstStray? with
  | none =>
      have tidy := (Cover.firstStray?_eq_none_iff cover).1 h
      rw [addCover_run tidy]
      exact .single (.cover cover tidy)
  | some cube => rw [addCover_run_error h]

/-- The cover of a kind of gate is found or added, and never refused. -/
theorem coverOfGate_run (kind : Gate) (net : Network) :
    match net.gateCover kind with
    | some c => (coverOfGate kind net).answer = .ok c ∧ (coverOfGate kind net).state = net
    | none => (coverOfGate kind net).answer = .ok net.graph.covers.size ∧
      (coverOfGate kind net).state = { net with
        graph := net.graph.addCover kind.cover
        gateCover := fun other =>
          if other = kind then some net.graph.covers.size else net.gateCover other } := by
  unfold coverOfGate
  rw [Action.get_bind_run]
  cases net.gateCover kind with
  | some c => exact ⟨rfl, rfl⟩
  | none =>
      have hadd := addCover_run kind.cover_tidy net
      have hanswer := congrArg Outcome.answer hadd
      have hstate := congrArg Outcome.state hadd
      simp only [Action.bind_answer_of_ok hanswer, Action.bind_state_of_ok hanswer,
        Action.note_bind_run, Action.modify_bind_run, Action.pure_run, hstate]
      exact ⟨trivial, trivial⟩

theorem coverOfGate_moves (kind : Gate) : Action.Moves Building (coverOfGate kind) := by
  intro net
  have hrun := coverOfGate_run kind net
  cases h : net.gateCover kind with
  | some c =>
      rw [h] at hrun
      rw [hrun.2]
  | none =>
      rw [h] at hrun
      rw [hrun.2]
      refine .tail (.single (Growth.builds (.cover kind.cover kind.cover_tidy)))
        ⟨.gateCover _ ?_ ?_, rfl, rfl⟩
      · intro other c hother
        by_cases heq : other = kind
        · rw [heq, h] at hother
          cases hother
        · rwa [if_neg heq]
      · intro other c hother
        by_cases heq : other = kind
        · rw [if_pos heq] at hother
          cases hother
          subst heq
          exact Or.inr (by simp [Graph.addCover])
        · rw [if_neg heq] at hother
          exact Or.inl hother

theorem gate_moves (kind : Gate) (operands : List NodeId) :
    Action.Moves Building (gate kind operands) :=
  .bind (.require _ _) fun _ => .bind (coverOfGate_moves kind) fun _ =>
    building_moves (node_moves _ _)

theorem coverNode_moves (children : List NodeId) (cover : Cover) :
    Action.Moves Growth (coverNode children cover) := by
  unfold coverNode
  split
  · exact .pure _
  · exact .bind (addCover_moves cover) fun _ => node_moves _ _

theorem tableNode_moves (children : List NodeId) (table : TruthTable) :
    Action.Moves Growth (tableNode children table) := by
  unfold tableNode
  split
  · exact .pure _
  · exact .bind (.require _ _) fun _ => coverNode_moves _ _

theorem copyNode_moves (other : Graph) (source : NodeId) (children : List NodeId) :
    Action.Moves Growth (copyNode other source children) :=
  .bind (.require _ _) fun _ => .bind (.lift _) fun _ => coverNode_moves _ _

theorem addPrimaryInput_run {net : Network}
    (hfirst : net.graph.inputs.length = net.graph.primaryInputCount) :
    (addPrimaryInput net).answer = .ok net.graph.size ∧
      (addPrimaryInput net).state =
        { net.addInputNode with graph := net.graph.pushPrimaryInput } := by
  unfold addPrimaryInput
  rw [Action.get_bind_run]
  simp only [Action.require_bind_run hfirst, Action.modify_bind_run, Action.note_bind_run,
    Action.pure_run]
  exact ⟨trivial, trivial⟩

theorem addPrimaryInput_moves : Action.Moves Growth addPrimaryInput := by
  intro net
  by_cases hfirst : net.graph.inputs.length = net.graph.primaryInputCount
  · rw [(addPrimaryInput_run hfirst).2]
    exact .single (.primaryInput hfirst)
  · unfold addPrimaryInput
    rw [Action.get_bind_run, Action.require_bind_run_error hfirst]

theorem addRegisterOutput_run (net : Network) :
    (addRegisterOutput net).answer = .ok net.graph.size ∧
      (addRegisterOutput net).state = net.addInputNode := by
  unfold addRegisterOutput
  rw [Action.get_bind_run]
  simp only [Action.modify_bind_run, Action.note_bind_run, Action.pure_run]
  exact ⟨trivial, trivial⟩

theorem addRegisterOutput_moves : Action.Moves Growth addRegisterOutput := by
  intro net
  rw [(addRegisterOutput_run net).2]
  exact .single .registerOutput

theorem addPrimaryOutput_run {net : Network} {signal : NodeId} {fanouts : Fanouts}
    (hlt : signal < net.graph.size)
    (hfirst : net.graph.outputs.length = net.graph.primaryOutputCount)
    (hraised : net.fanouts.raise signal 1 = .ok fanouts) :
    addPrimaryOutput signal net = ⟨.ok net.graph.outputs.length,
      { net with fanouts, graph := net.graph.pushPrimaryOutput signal }, []⟩ := by
  unfold addPrimaryOutput
  rw [Action.get_bind_run, (check_eq_ok_iff _ _).2 hlt, Action.lift_ok_bind_run,
    Action.require_bind_run hfirst, hraised, Action.lift_ok_bind_run, Action.set_bind_run]
  rfl

theorem addPrimaryOutput_moves (signal : NodeId) :
    Action.Moves Growth (addPrimaryOutput signal) := by
  intro net
  unfold addPrimaryOutput
  rw [Action.get_bind_run]
  cases hcheck : net.graph.check signal with
  | error fault => rw [Action.lift_error_bind_run]
  | ok _ =>
      rw [Action.lift_ok_bind_run]
      by_cases hfirst : net.graph.outputs.length = net.graph.primaryOutputCount
      · rw [Action.require_bind_run hfirst]
        cases hraised : net.fanouts.raise signal 1 with
        | error fault => rw [Action.lift_error_bind_run]
        | ok fanouts =>
            rw [Action.lift_ok_bind_run, Action.set_bind_run]
            exact .single (.primaryOutput signal fanouts
              ((check_eq_ok_iff _ _).1 hcheck) hfirst hraised)
      · rw [Action.require_bind_run_error hfirst]

theorem addRegisterInput_run {net : Network} {signal : NodeId} (reset : Reset) {fanouts : Fanouts}
    (hlt : signal < net.graph.size)
    (hpaired : net.graph.resets.length < net.graph.terminalCount .registerOutput)
    (hraised : net.fanouts.raise signal 1 = .ok fanouts) :
    addRegisterInput signal reset net = ⟨.ok net.graph.outputs.length,
      { net with fanouts, graph := net.graph.pushRegisterInput signal reset }, []⟩ := by
  unfold addRegisterInput
  simp only [Action.get_bind_run, (check_eq_ok_iff _ _).2 hlt, Action.lift_ok_bind_run,
    Action.require_bind_run hpaired, hraised, Action.set_bind_run, Action.pure_run]

theorem addRegisterInput_moves (signal : NodeId) (reset : Reset) :
    Action.Moves Growth (addRegisterInput signal reset) := by
  intro net
  unfold addRegisterInput
  rw [Action.get_bind_run]
  cases hcheck : net.graph.check signal with
  | error fault => rw [Action.lift_error_bind_run]
  | ok _ =>
      simp only [Action.lift_ok_bind_run]
      by_cases hpaired : net.graph.resets.length < net.graph.terminalCount .registerOutput
      · rw [Action.require_bind_run hpaired]
        cases hraised : net.fanouts.raise signal 1 with
        | error fault => rw [Action.lift_error_bind_run]
        | ok fanouts =>
            rw [Action.lift_ok_bind_run, Action.set_bind_run]
            exact .single (.registerInput signal reset fanouts
              ((check_eq_ok_iff _ _).1 hcheck) hpaired hraised)
      · rw [Action.require_bind_run_error hpaired]

/-- A substitution that a check or a full counter refuses leaves no trace. One that passes redirects
the uses, and is refused after that only if the invariants fail. -/
theorem substitute_run (old new : NodeId) (net : Network) :
    ((substitute old new net).state = net ∧ ∃ fault,
        (substitute old new net).answer = .error fault ∧
          (checkSubstitution net.graph old new = .error fault ∨
            net.moveUses old new = .error fault)) ∨
      Redirection net old new (substitute old new net).state ∧
      (substitute old new net).answer =
        if net.options.verify then (substitute old new net).state.checkInvariants else .ok () := by
  rw [substitute_eq, Action.get_bind_run]
  cases hcheck : checkSubstitution net.graph old new with
  | error fault =>
      rw [Action.lift_error_bind_run]
      exact Or.inl ⟨rfl, fault, rfl, Or.inl rfl⟩
  | ok _ =>
      rw [Action.lift_ok_bind_run]
      cases hmove : net.moveUses old new with
      | error fault =>
          rw [Action.lift_error_bind_run]
          exact Or.inl ⟨rfl, fault, rfl, Or.inr rfl⟩
      | ok fanouts =>
          simp only [Action.lift_ok_bind_run, Action.set_bind_run, Action.report_bind_run,
            Action.note_bind_run]
          right
          split
          · exact ⟨⟨hcheck, fanouts, hmove, by simp [Action.get_bind_run]⟩,
              by simp [Action.get_bind_run]⟩
          · exact ⟨⟨hcheck, fanouts, hmove, rfl⟩, rfl⟩

/-- A substitution that is met redirects the uses. -/
theorem redirection_of_met {old new : NodeId} {net : Network}
    (h : (substitute old new net).answer = .ok ()) :
    Redirection net old new (substitute old new net).state := by
  rcases substitute_run old new net with ⟨_, fault, hfault, _⟩ | ⟨hredirected, _⟩
  · rw [h] at hfault
    cases hfault
  · exact hredirected

/-- Scratch space for the same nodes. -/
def SameRoom (s s' : Scratch) : Prop :=
  s'.values.size = s.values.size ∧ s'.marks.size = s.marks.size

theorem sameRoom_of_moves {s s' : Scratch} (h : Relation.ReflTransGen SameRoom s s') :
    SameRoom s s' := by
  induction h with
  | refl => exact ⟨rfl, rfl⟩
  | tail _ hstep ih => exact ⟨hstep.1.trans ih.1, hstep.2.trans ih.2⟩

/-- Only the scratch space is touched, and it stays space for the same nodes. -/
structure Scratched (net net' : Network) : Prop where
  rest : net' = { net with scratch := net'.scratch }
  room : SameRoom net.scratch net'.scratch

theorem Scratched.growth {net net' : Network} (h : Scratched net net') : Growth net net' := by
  rw [h.rest]
  exact .scratch _ h.room.1 h.room.2

theorem Scratched.trans {net net' net'' : Network} (h : Scratched net net')
    (h' : Scratched net' net'') : Scratched net net'' where
  rest := h'.rest.trans (congrArg (fun middle : Network => { middle with scratch := net''.scratch })
    h.rest)
  room := ⟨h'.room.1.trans h.room.1, h'.room.2.trans h.room.2⟩

theorem scratched_of_moves {net net' : Network} (h : Relation.ReflTransGen Scratched net net') :
    Scratched net net' := by
  induction h with
  | refl => exact ⟨rfl, rfl, rfl⟩
  | tail _ hstep ih => exact ih.trans hstep

theorem onScratch_moves {α : Type} {x : Action Scratch α} (h : Action.Moves SameRoom x) :
    Action.Moves Scratched (onScratch x) := fun net =>
  .single ⟨rfl, sameRoom_of_moves (h net.scratch)⟩

theorem withGraph_moves {α : Type} {x : Graph → Action Scratch α}
    (h : ∀ g, Action.Moves SameRoom (x g)) : Action.Moves Scratched (withGraph x) :=
  .bind .get fun net => onScratch_moves (h net.graph)

theorem onNode_moves {α : Type} {x : Action Scratch α} (n : NodeId)
    (h : Action.Moves SameRoom x) : Action.Moves Scratched (onNode n x) :=
  .bind .get fun _ => .bind (.lift _) fun _ => onScratch_moves h

theorem modify_sameRoom {f : Scratch → Scratch} (h : ∀ s, SameRoom s (f s)) :
    Action.Moves SameRoom (modify f : Action Scratch PUnit) := fun s => .single (h s)

theorem nextTraversal_sameRoom : Action.Moves SameRoom Scratch.nextTraversal := by
  intro s
  unfold Scratch.nextTraversal
  rw [Action.get_bind_run]
  by_cases h : s.traversal.toNat + 1 < UInt32.size
  · rw [Action.require_bind_run h, Action.set_bind_run]
    exact .single ⟨rfl, rfl⟩
  · rw [Action.require_bind_run_error h]

end Network

@[simp] theorem Walk.step_marks_size (g : Graph) (pass : UInt32) (walk : Walk) :
    (walk.step g pass).marks.size = walk.marks.size := by
  unfold Walk.step
  split
  · rfl
  · split
    · rfl
    · split <;> simp

@[simp] theorem Walk.run_marks_size (g : Graph) (pass : UInt32) (fuel : Nat) (walk : Walk) :
    (Walk.run g pass fuel walk).marks.size = walk.marks.size := by
  induction fuel generalizing walk with
  | zero => rfl
  | succ fuel ih =>
      rw [Walk.run]
      split
      · rfl
      · rw [ih, Walk.step_marks_size]

namespace Network

theorem postorder_sameRoom (g : Graph) (starts : List NodeId) :
    Action.Moves SameRoom (g.postorder starts) := by
  refine .bind nextTraversal_sameRoom fun pass => .bind (.lift _) fun _ => ?_
  intro s
  rw [Action.get_bind_run, Action.modify_bind_run, Action.note_bind_run]
  exact .single ⟨rfl, by simp⟩

theorem live_sameRoom (g : Graph) : Action.Moves SameRoom g.live :=
  .bind (postorder_sameRoom g _) fun _ => .pure _

theorem evaluate_sameRoom (g : Graph) (inputs : List Bool) :
    Action.Moves SameRoom (g.evaluate inputs) :=
  .bind (.require _ _) fun _ => .bind (postorder_sameRoom g _) fun _ => .bind (.lift _) fun _ =>
    .bind (.report _) fun _ => .pure _

theorem evaluateWords_sameRoom (g : Graph) (inputs : List Word) :
    Action.Moves SameRoom (g.evaluateWords inputs) :=
  .bind (.require _ _) fun _ => .bind (postorder_sameRoom g _) fun _ => .bind (.lift _) fun _ =>
    .pure _

theorem depths_sameRoom (g : Graph) : Action.Moves SameRoom g.depths :=
  .bind (postorder_sameRoom g _) fun _ => .lift _

theorem summary_sameRoom (g : Graph) : Action.Moves SameRoom g.summary :=
  .bind (depths_sameRoom g) fun _ => .bind (.lift _) fun _ => .bind (.note _) fun _ => .pure _

theorem compact_moves : Action.Moves Scratched compact :=
  .bind .get fun _ => .bind (.elsewhere _ _) fun _ =>
    .bind (withGraph_moves fun g => postorder_sameRoom g _) fun _ =>
    .bind (.elsewhere _ _) fun _ => .bind (.note _) fun _ => .bind (.lift _) fun _ => .pure _

end Network

namespace Operation

open Network

/-- Whether a call is about the listeners or the options. -/
def configures : {α : Type} → Operation α → Bool
  | _, setOptions _ | _, subscribeAdded | _, subscribeModified | _, unsubscribe _ => true
  | _, _ => false

/-- Whether a call only looks at the network, with its scratch space for notes. -/
def observes : {α : Type} → Operation α → Bool
  | _, setValue _ _ | _, increment _ | _, decrement _ | _, clearValues => true
  | _, setMark _ _ | _, clearMarks | _, nextTraversal => true
  | _, postorder _ | _, postorderOfOutputs | _, live => true
  | _, evaluate _ | _, evaluateWords _ | _, evaluateAll => true
  | _, depths | _, summary | _, compact => true
  | _, _ => false

/-- A call that only looks touches nothing but the scratch space. -/
theorem perform_scratched {α : Type} (op : Operation α) (h : op.observes = true) :
    Action.Moves Scratched op.perform := by
  cases op with
  | setValue n value =>
      exact onNode_moves n (modify_sameRoom fun _ => by simp [SameRoom, Scratch.setValue])
  | increment n =>
      exact onNode_moves n (.bind .get fun _ => .bind
        (modify_sameRoom fun _ => by simp [SameRoom, Scratch.setValue]) fun _ => .pure _)
  | decrement n =>
      exact onNode_moves n (.bind .get fun _ => .bind
        (modify_sameRoom fun _ => by simp [SameRoom, Scratch.setValue]) fun _ => .pure _)
  | clearValues =>
      exact onScratch_moves (modify_sameRoom fun _ => by simp [SameRoom, Scratch.clearValues])
  | setMark n mark =>
      exact onNode_moves n (modify_sameRoom fun _ => by simp [SameRoom, Scratch.setMark])
  | clearMarks =>
      exact onScratch_moves (modify_sameRoom fun _ => by simp [SameRoom, Scratch.clearMarks])
  | nextTraversal => exact onScratch_moves nextTraversal_sameRoom
  | postorder starts => exact withGraph_moves fun g => postorder_sameRoom g starts
  | postorderOfOutputs => exact withGraph_moves fun g => postorder_sameRoom g _
  | live => exact withGraph_moves live_sameRoom
  | evaluate inputs => exact withGraph_moves fun g => evaluate_sameRoom g inputs
  | evaluateWords inputs => exact withGraph_moves fun g => evaluateWords_sameRoom g inputs
  | evaluateAll =>
      exact .bind .get fun _ => .bind (.lift _) fun _ =>
        .mapM (fun inputs => withGraph_moves fun g => evaluate_sameRoom g inputs) _
  | depths => exact withGraph_moves depths_sameRoom
  | summary => exact withGraph_moves summary_sameRoom
  | compact => exact compact_moves
  | _ => cases h

/-- A call that is neither a substitution nor about listeners or options builds. -/
theorem perform_building {α : Type} (op : Operation α) (h : op.substitution? = none)
    (h' : op.configures = false) : Action.Moves Building op.perform := by
  cases hobserves : op.observes with
  | true =>
      exact building_moves ((op.perform_scratched hobserves).mono fun _ _ => Scratched.growth)
  | false =>
      cases op with
      | addPrimaryInput => exact building_moves addPrimaryInput_moves
      | addRegisterOutput => exact building_moves addRegisterOutput_moves
      | addPrimaryOutput signal => exact building_moves (addPrimaryOutput_moves signal)
      | addRegisterInput signal reset => exact building_moves (addRegisterInput_moves signal reset)
      | addCover cover => exact building_moves (addCover_moves cover)
      | node children cover => exact building_moves (node_moves children cover)
      | gate kind operands => exact gate_moves kind operands
      | buffer operand => exact .pure operand
      | coverNode children cover => exact building_moves (coverNode_moves children cover)
      | tableNode children table => exact building_moves (tableNode_moves children table)
      | copyNode other source children =>
          exact building_moves (copyNode_moves other source children)
      | substitute old new => cases h
      | setOptions options => cases h'
      | subscribeAdded => cases h'
      | subscribeModified => cases h'
      | unsubscribe subscription => cases h'
      | _ => cases hobserves

/-- A call that is not a substitution extends the network. -/
theorem perform_moves {α : Type} (op : Operation α) (h : op.substitution? = none) :
    Action.Moves Extension op.perform := by
  cases h' : op.configures with
  | false => exact (op.perform_building h h').mono fun _ _ => Building.extension
  | true =>
      cases op with
      | setOptions options => exact fun net => .single (.options options)
      | subscribeAdded => exact fun net => .single (.listeners _)
      | subscribeModified => exact fun net => .single (.listeners _)
      | unsubscribe subscription => exact fun net => .single (.listeners _)
      | _ => cases h'

/-- Every call is a sequence of elementary changes. -/
theorem perform_changes {α : Type} (op : Operation α) : Action.Moves Change op.perform := by
  intro net
  cases h : op.substitution? with
  | none => exact (perform_moves op h).mono (fun _ _ => Change.extension) net
  | some pair =>
      cases op with
      | substitute old new =>
          rcases substitute_run old new net with ⟨hsame, _⟩ | ⟨hredirected, _⟩
          · exact (congrArg (Relation.ReflTransGen Change net) hsame).mpr .refl
          · exact .single (.redirection old new hredirected)
      | _ => cases h

end Operation

/-- Every script is a sequence of elementary changes. -/
theorem Script.changes {α : Type} {x : Action Network α} (h : Script x) :
    Action.Moves Network.Change x := by
  induction h with
  | call op => exact op.perform_changes
  | answer a => exact .pure a
  | refuse fault => exact .fail fault
  | look => exact .get
  | note note => exact .note note
  | next _ _ ih ihnext => exact .bind ih ihnext
  | attempt _ ih => exact ih

end LogicNet
