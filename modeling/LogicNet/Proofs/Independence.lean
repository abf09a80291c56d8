import LogicNet.Proofs.Deliveries
import LogicNet.Proofs.Depth
import LogicNet.Proofs.Evaluation
import LogicNet.Proofs.Idempotence

/-!
What is asked of a network is answered by its graph. The walks use marks in the scratch space to
tell what they have met, and as long as no mark is ahead of the traversal number they do not mistake
an old mark for one of theirs: they list what the graph says in the order that the graph says, and
leave no mark ahead behind them. So neither counters, marks, listeners nor the sharing table show in
an answer, and nothing but a caller who sets a mark ahead can change that.
-/

namespace LogicNet

/-- Scratch space that a walk on a graph can use. -/
structure Scratch.Ready (g : Graph) (s : Scratch) : Prop where
  size : s.marks.size = g.size
  fresh : s.Fresh
  room : s.traversal.toNat + 1 < UInt32.size

theorem Scratch.Ready.clear (g : Graph) : (Scratch.clear g.size).Ready g where
  size := Array.size_replicate
  fresh := .clear _
  room := by show (0 : UInt32).toNat + 1 < UInt32.size; decide

/-- What a walk makes of the scratch space: it takes a traversal number and marks with it what it
has reached. -/
structure Scratch.Walked (reached : NodeId → Prop) (s s' : Scratch) : Prop where
  values : s'.values = s.values
  size : s'.marks.size = s.marks.size
  traversal : s'.traversal.toNat = s.traversal.toNat + 1
  marked : ∀ n, reached n → s'.mark n = s'.traversal
  unmarked : ∀ n, ¬ reached n → s'.mark n = s.mark n
  fresh : s'.Fresh

namespace Graph

/-- The nodes that can be reached from the starts. -/
def Below (g : Graph) (starts : List NodeId) (n : NodeId) : Prop :=
  ∃ start ∈ starts, Reaches g.childrenOf start n

/-- Whatever scratch space it finds ready, the action answers `a` and walks from the starts. -/
def Walks (g : Graph) (starts : List NodeId) {α : Type} (x : Action Scratch α) (a : α) : Prop :=
  ∀ s : Scratch, s.Ready g → (x s).answer = .ok a ∧ s.Walked (g.Below starts) (x s).state

variable {g : Graph} {starts : List NodeId}

/-- What follows a walk without a look at the scratch space goes with it. -/
theorem Walks.bind {α β : Type} {x : Action Scratch α} {a : α} (h : g.Walks starts x a)
    {f : α → Action Scratch β} {b : β} (hf : ∀ s, (f a).Gives s b s) :
    g.Walks starts (x >>= f) b := by
  intro s hs
  obtain ⟨hanswer, hwalked⟩ := h s hs
  obtain ⟨hb, hstate⟩ := hf (x s).state
  refine ⟨(Action.bind_answer_of_ok hanswer f).trans hb, ?_⟩
  rwa [Action.bind_state_of_ok hanswer, hstate]

/-- The order in which a walk lists the nodes is one of the graph. -/
theorem exists_postorder (hwell : g.WellFormed) (hstarts : ∀ n ∈ starts, n < g.size) :
    ∃ order, g.Walks starts (g.postorder starts) order ∧ Postordered g.childrenOf order ∧
      ∀ n, n ∈ order ↔ g.Below starts n := by
  obtain ⟨order, hvisits⟩ := Visits.exists_end hwell.acyclic hwell.bounded unseen [] starts
  have hanswer : ∀ s : Scratch, s.Ready g → (g.postorder starts s).answer = .ok order := fun s hs =>
    postorder_unseen hwell hstarts hs.size hs.fresh hs.room hvisits
  have hrun : ∀ s : Scratch, s.Ready g → s.Walked (g.Below starts) (g.postorder starts s).state ∧
      Postordered g.childrenOf order ∧ ∀ n, n ∈ order ↔ g.Below starts n := by
    intro s hs
    obtain ⟨order', marks, hanswer', hstate, hsize, hmarks, hordered, hmem⟩ :=
      postorder_run hwell hstarts hs.size hs.fresh hs.room
    rw [hanswer s hs] at hanswer'
    cases hanswer'
    refine ⟨?_, hordered, hmem⟩
    rw [hstate]
    exact
      { values := rfl
        size := hsize.trans hs.size.symm
        traversal := Scratch.toNat_next hs.room
        marked := fun n hn => (hmarks n).trans (if_pos ((hmem n).2 hn))
        unmarked := fun n hn => (hmarks n).trans (if_neg fun hlisted => hn ((hmem n).1 hlisted))
        fresh := hs.fresh.marked hs.room hmarks }
  exact ⟨order, fun s hs => ⟨hanswer s hs, (hrun s hs).1⟩, (hrun _ (.clear g)).2⟩

theorem size_flagged (order : List NodeId) (flags : Array Bool) :
    (order.foldl (fun flags m => flags.setIfInBounds m true) flags).size = flags.size := by
  induction order generalizing flags with
  | nil => rfl
  | cons m rest ih => rw [List.foldl_cons, ih, Array.size_setIfInBounds]

/-- Setting the flags of the nodes of a list leaves every other flag as it was. -/
theorem getElem?_flagged (order : List NodeId) (flags : Array Bool) (n : NodeId) :
    (order.foldl (fun flags m => flags.setIfInBounds m true) flags)[n]? =
      flags[n]?.map fun flag => decide (n ∈ order) || flag := by
  induction order generalizing flags with
  | nil => simp
  | cons m rest ih =>
      rw [List.foldl_cons, ih, Array.getElem?_setIfInBounds]
      by_cases hm : m = n
      · subst hm
        by_cases hlt : m < flags.size
        · simp [hlt]
        · simp [hlt]
      · simp [hm, Ne.symm hm]

/-- The walk flags what the outputs depend on. -/
theorem live_walks (hwell : g.WellFormed) : ∃ flags, g.Walks g.outputs g.live flags ∧
    flags.length = g.size ∧ ∀ n < g.size, (flags[n]? = some true ↔ g.Below g.outputs n) := by
  obtain ⟨order, hwalks, _, hmem⟩ := exists_postorder hwell hwell.output_lt
  refine ⟨_, hwalks.bind fun _ => ⟨rfl, rfl⟩, ?_, fun n hn => ?_⟩
  · rw [Array.length_toList, size_flagged, Array.size_replicate]
  · rw [Array.getElem?_toList, getElem?_flagged, Array.getElem?_replicate, if_pos hn, ← hmem]
    simp

theorem evaluate_walks (hwell : g.WellFormed) {inputs : List Bool}
    (hinputs : inputs.length = g.inputs.length) :
    g.Walks g.outputs (g.evaluate inputs) (g.outputs.map (g.value (assigned inputs))) := by
  intro s hs
  obtain ⟨order, hwalks, _⟩ := exists_postorder hwell hwell.output_lt
  obtain ⟨hanswer, hstate⟩ := evaluate_run hwell hinputs hs.size hs.fresh hs.room
  exact ⟨hanswer, hstate ▸ (hwalks s hs).2⟩

theorem evaluateWords_walks (hwell : g.WellFormed) {words : List Word}
    (hwords : words.length = g.inputs.length) :
    g.Walks g.outputs (g.evaluateWords words) (g.outputs.map (g.valueWord words)) := by
  intro s hs
  obtain ⟨order, hwalks, _⟩ := exists_postorder hwell hwell.output_lt
  obtain ⟨hanswer, hstate⟩ := evaluateWords_run hwell hwords hs.size hs.fresh hs.room
  exact ⟨hanswer, hstate ▸ (hwalks s hs).2⟩

/-- The walk answers the depths of what the outputs depend on. -/
theorem depths_walks (hwell : g.WellFormed) :
    ∃ depths, g.Walks g.outputs g.depths depths ∧ g.DepthTable depths := by
  obtain ⟨order, hwalks, hordered, hmem⟩ := exists_postorder hwell hwell.output_lt
  obtain ⟨depths, hdepths, hentry⟩ := depthsAlong_eq_ok hwell hordered
  refine ⟨depths, hwalks.bind fun _ => ⟨hdepths, rfl⟩, fun n d => ?_⟩
  have hlive : n ∈ order ↔ n ∈ g.liveNodes := (hmem n).trans (mem_liveNodes hwell n).symm
  rw [hentry, ← hlive]
  by_cases hn : n ∈ order
  · simp [hn, eq_comm]
  · simp [hn]

/-- The summary answers the figures of the graph. -/
theorem summary_walks (hwell : g.WellFormed) : g.Walks g.outputs g.summary g.figures := by
  obtain ⟨depths, hwalks, htable⟩ := depths_walks hwell
  rw [htable.figures_eq]
  exact hwalks.bind fun _ => Action.gives_lift_bind_iff.2
    ⟨_, htable.deepestOutput hwell, Action.gives_note_bind_iff.2 ⟨rfl, rfl⟩⟩

end Graph

/-- The network is as it was but for its scratch space, where there has been a walk. -/
structure Network.Walked (net : Network) (starts : List NodeId) (net' : Network) : Prop where
  kept : net' = { net with scratch := net'.scratch }
  scratch : net.scratch.Walked (net.graph.Below starts) net'.scratch

namespace Operation

open Network

/-- The nodes that a call walks from, if it is one that only asks. -/
def starts? (g : Graph) : {α : Type} → Operation α → Option (List NodeId)
  | _, postorder starts => some starts
  | _, postorderOfOutputs | _, live | _, evaluate _ | _, evaluateWords _ | _, depths
  | _, summary => some g.outputs
  | _, _ => none

/-- The arguments of a call that asks are of the graph. -/
def Suits (g : Graph) : {α : Type} → Operation α → Prop
  | _, postorder starts => ∀ n ∈ starts, n < g.size
  | _, evaluate inputs => inputs.length = g.inputs.length
  | _, evaluateWords words => words.length = g.inputs.length
  | _, _ => True

variable {g : Graph} {starts : List NodeId} {α : Type}

theorem answered_of_walks {x : Graph → Action Scratch α} {a : α}
    (h : g.Walks starts (x g) a) {net : Network} (hgraph : net.graph = g)
    (hready : net.scratch.Ready g) :
    (withGraph x net).answer = .ok a ∧ net.Walked starts (withGraph x net).state := by
  subst hgraph
  obtain ⟨hanswer, hwalked⟩ := h net.scratch hready
  exact ⟨hanswer, rfl, hwalked⟩

/-- What is asked of a network is answered by its graph. -/
theorem answered (hwell : g.WellFormed) (op : Operation α) (hstarts : op.starts? g = some starts)
    (hsuits : op.Suits g) : ∃ a, ∀ net : Network, net.graph = g → net.scratch.Ready g →
      (op.perform net).answer = .ok a ∧ net.Walked starts (net.after op) := by
  cases op with
  | postorder _ =>
      cases hstarts
      obtain ⟨order, h, _⟩ := Graph.exists_postorder hwell hsuits
      exact ⟨order, fun _ => answered_of_walks (x := (·.postorder starts)) h⟩
  | postorderOfOutputs =>
      cases hstarts
      obtain ⟨order, h, _⟩ := Graph.exists_postorder hwell hwell.output_lt
      exact ⟨order, fun _ => answered_of_walks (x := (·.postorderOfOutputs)) h⟩
  | live =>
      cases hstarts
      obtain ⟨flags, h, _⟩ := Graph.live_walks hwell
      exact ⟨flags, fun _ => answered_of_walks h⟩
  | evaluate inputs =>
      cases hstarts
      exact ⟨_, fun _ => answered_of_walks (x := (·.evaluate inputs))
        (Graph.evaluate_walks hwell hsuits)⟩
  | evaluateWords words =>
      cases hstarts
      exact ⟨_, fun _ => answered_of_walks (x := (·.evaluateWords words))
        (Graph.evaluateWords_walks hwell hsuits)⟩
  | depths =>
      cases hstarts
      obtain ⟨depths, h, _⟩ := Graph.depths_walks hwell
      exact ⟨depths, fun _ => answered_of_walks h⟩
  | summary =>
      cases hstarts
      exact ⟨_, fun _ => answered_of_walks (Graph.summary_walks hwell)⟩
  | _ => cases hstarts

/-- Arguments that are not of the graph are refused for a reason that is in the graph. -/
theorem refused (op : Operation α) (hsuits : ¬ op.Suits g) :
    ∃ fault, ∀ net : Network, net.graph = g → net.scratch.Ready g →
      (op.perform net).answer = .error fault := by
  cases op with
  | postorder starts =>
      cases hcheck : g.checkAll starts.reverse with
      | ok _ =>
          have hall := (checkAll_eq_ok_iff g _).1 hcheck
          exact absurd (fun n hn => hall n (List.mem_reverse.2 hn)) hsuits
      | error fault =>
          refine ⟨fault, fun net hgraph hready => ?_⟩
          subst hgraph
          show (net.graph.postorder starts net.scratch).answer = .error fault
          unfold Graph.postorder
          rw [Action.bind_run_ok (Scratch.nextTraversal_run hready.room), hcheck,
            Action.lift_error_bind_run]
  | evaluate inputs =>
      refine ⟨.wrongInputCount inputs.length g.inputs.length, fun net hgraph _ => ?_⟩
      subst hgraph
      show (net.graph.evaluate inputs net.scratch).answer = _
      have hwrong : ¬ inputs.length = net.graph.inputs.length := hsuits
      unfold Graph.evaluate
      rw [Action.require_bind_run_error hwrong]
  | evaluateWords words =>
      refine ⟨.wrongInputWordCount words.length g.inputs.length, fun net hgraph _ => ?_⟩
      subst hgraph
      show (net.graph.evaluateWords words net.scratch).answer = _
      have hwrong : ¬ words.length = net.graph.inputs.length := hsuits
      unfold Graph.evaluateWords
      rw [Action.require_bind_run_error hwrong]
  | _ => exact absurd trivial hsuits

end Operation

namespace Network

/-- A network in which marks are not ahead, with traversal numbers left and uses that can be
counted. -/
structure Ready (net : Network) : Prop where
  reachable : Reachable net
  fresh : net.scratch.Fresh
  room : net.scratch.traversal.toNat < UInt32.size - 1
  uses : net.graph.references.length < UInt32.size

variable {net net' : Network}

theorem Ready.toNat_lt (h : net.Ready) : net.scratch.traversal.toNat + 1 < UInt32.size := by
  have hroom := h.room
  omega

theorem Ready.scratch (h : net.Ready) : net.scratch.Ready net.graph :=
  ⟨h.reachable.wellFormed.marks_size, h.fresh, h.toNat_lt⟩

/-- What asks answers the same on networks of one graph, be the arguments of the graph or not. -/
theorem Ready.answer_eq (h : net.Ready) (h' : net'.Ready) (hgraph : net'.graph = net.graph)
    {α : Type} (op : Operation α) {starts : List NodeId}
    (hstarts : op.starts? net.graph = some starts) :
    (op.perform net').answer = (op.perform net).answer := by
  have hscratch : net'.scratch.Ready net.graph := hgraph ▸ h'.scratch
  by_cases hsuits : op.Suits net.graph
  · obtain ⟨a, hanswer⟩ := op.answered h.reachable.wellFormed.graph hstarts hsuits
    rw [(hanswer net rfl h.scratch).1, (hanswer net' hgraph hscratch).1]
  · obtain ⟨fault, hanswer⟩ := op.refused hsuits
    rw [hanswer net rfl h.scratch, hanswer net' hgraph hscratch]

/-- The network with other covers for the kinds of gate. -/
def withKinds (kinds : Gate → Option CoverId) (net : Network) : Network :=
  { net with gateCover := kinds }

section Kinds

variable {kinds : Gate → Option CoverId}

theorem addPrimaryOutput_overlooks (signal : NodeId) :
    (addPrimaryOutput signal).Overlooks (withKinds kinds) := by
  intro net
  unfold addPrimaryOutput
  simp only [Action.get_bind_run, withKinds]
  cases net.graph.check signal with
  | error fault => rfl
  | ok _ =>
      by_cases hfirst : net.graph.outputs.length = net.graph.primaryOutputCount
      · simp only [Action.lift_ok_bind_run, Action.require_bind_run hfirst]
        cases net.fanouts.raise signal 1 <;> rfl
      · simp only [Action.lift_ok_bind_run, Action.require_bind_run_error hfirst]

theorem addRegisterInput_overlooks (signal : NodeId) (reset : Reset) :
    (addRegisterInput signal reset).Overlooks (withKinds kinds) := by
  intro net
  unfold addRegisterInput
  simp only [Action.get_bind_run, withKinds]
  cases net.graph.check signal with
  | error fault => rfl
  | ok _ =>
      by_cases hroom : net.graph.resets.length < net.graph.terminalCount .registerOutput
      · simp only [Action.lift_ok_bind_run, Action.require_bind_run hroom]
        cases net.fanouts.raise signal 1 <;> rfl
      · simp only [Action.lift_ok_bind_run, Action.require_bind_run_error hroom]

/-- Outputs are copied without a look at the covers of the kinds of gate. -/
theorem copyOutputs_overlooks (g : Graph) (nodes : NodeMap NodeId) :
    (copyOutputs g nodes).Overlooks (withKinds kinds) :=
  .bind (.forM (fun _ => .bind (.lift _) fun _ => .bind (addPrimaryOutput_overlooks _) fun _ =>
    .pure _) _) fun _ => .forM (fun _ => .bind (.lift _) fun _ =>
      .bind (addRegisterInput_overlooks _ _) fun _ => .pure _) _

end Kinds

theorem Ready.compact_isOk (h : net.Ready) : ∃ result, (compact net).answer = .ok result := by
  obtain ⟨result, hanswer, _⟩ := compact_yields h.reachable.wellFormed h.uses h.fresh h.toNat_lt
  exact ⟨result, hanswer⟩

/-- The stages of two compactions of one graph are the same, but for the covers that are noted for
the kinds of gate. -/
theorem Stages.eq_of_graph_eq {inputs inputs' : NodeMap NodeId} {start start' : Network}
    {order order' : List NodeId} {copying copying' : Copying} {middle middle' copy copy' : Network}
    (h : Stages net inputs start order copying middle copy)
    (h' : Stages net' inputs' start' order' copying' middle' copy')
    (hgraph : net'.graph = net.graph) (hoptions : net'.options = net.options)
    (horder : order' = order) :
    copying' = copying ∧ copy' = { copy with gateCover := copy'.gateCover } := by
  subst horder
  have hcopied := h'.copied
  have hgates := h'.gates
  have houtputs := h'.outputs
  rw [hgraph, hoptions] at hcopied
  rw [hgraph] at hgates houtputs
  obtain ⟨rfl, rfl⟩ := h.copied.unique hcopied
  obtain ⟨rfl, rfl⟩ := h.gates.unique hgates
  refine ⟨rfl, ?_⟩
  have hblind : (copyOutputs net.graph copying'.nodes).Overlooks
      (withKinds (copying'.gateCover net'.gateCover)) := copyOutputs_overlooks _ _
  have hstate : copy' = withKinds (copying'.gateCover net'.gateCover) copy := by
    rw [← h.outputs.2, ← houtputs.2]
    exact congrArg Outcome.state
      (hblind { middle' with gateCover := copying'.gateCover net.gateCover })
  rw [hstate]
  rfl

/-- Compact copies of one graph are the same, but for the covers that are noted for the kinds of
gate. -/
theorem Ready.compact_eq (h : net.Ready) (h' : net'.Ready) (hgraph : net'.graph = net.graph)
    (hoptions : net'.options = net.options) : ∃ copy nodes kinds,
      (compact net).answer = .ok (copy, nodes) ∧
      (compact net').answer = .ok ({ copy with gateCover := kinds }, nodes) := by
  obtain ⟨⟨copy, nodes⟩, hanswer⟩ := h.compact_isOk
  obtain ⟨⟨copy', nodes'⟩, hanswer'⟩ := h'.compact_isOk
  obtain ⟨_, _, order, copying, _, hstages, rfl⟩ := compact_eq_ok_iff.1 hanswer
  obtain ⟨_, _, order', copying', _, hstages', rfl⟩ := compact_eq_ok_iff.1 hanswer'
  have horder : order' = order := by
    have hsame := h.answer_eq h' hgraph .postorderOfOutputs rfl
    exact Except.ok.inj (hstages'.walked.symm.trans (hsame.trans hstages.walked))
  obtain ⟨rfl, hcopy⟩ := hstages.eq_of_graph_eq hstages' hgraph hoptions horder
  exact ⟨copy, copying'.nodes, copy'.gateCover, hanswer, hcopy ▸ hanswer'⟩

/-- All that compaction leaves in its network is the walk. -/
theorem compact_state {result : Network × NodeMap NodeId} (h : compact.Gives net result net') :
    net' = (withGraph (·.postorderOfOutputs) net).state := by
  unfold compact at h
  simp only [Action.gives_get_bind_iff, Action.gives_elsewhere_bind_iff,
    Action.gives_bind_iff (x := withGraph _), Action.gives_note_bind_iff,
    Action.gives_lift_bind_iff, Action.gives_pure_iff] at h
  obtain ⟨_, _, _, _, _, hwalked, _, _, _, _, _, _, hstate⟩ := h
  exact hstate.trans hwalked.2.symm

/-- Compaction walks from the outputs. -/
theorem Ready.compact_walked (h : net.Ready) :
    net.Walked net.graph.outputs (compact net).state := by
  obtain ⟨order, hwalks⟩ := Operation.answered h.reachable.wellFormed.graph .postorderOfOutputs rfl
    trivial
  obtain ⟨result, hanswer⟩ := h.compact_isOk
  rw [compact_state ⟨hanswer, rfl⟩]
  exact (hwalks net rfl h.scratch).2

/-- A call sets no mark ahead of the traversal number unless it is told to. -/
theorem fresh_after (hfresh : net.scratch.Fresh) {α : Type} (op : Operation α)
    (hmark : ∀ mark, op.mark? = some mark → mark.toNat ≤ net.scratch.traversal.toNat) :
    (net.after op).scratch.Fresh := by
  cases hsubstitution : op.substitution? with
  | some pair =>
      cases op with
      | substitute old new =>
          show (substitute old new net).state.scratch.Fresh
          rcases substitute_run old new net with ⟨hsame, _⟩ | ⟨hdone, _⟩
          · rwa [hsame]
          · obtain ⟨fanouts, _, hresult⟩ := hdone.result
            rwa [hresult]
      | _ => cases hsubstitution
  | none =>
      cases hconfigures : op.configures with
      | true =>
          cases op with
          | setOptions _ | subscribeAdded | subscribeModified | unsubscribe _ => exact hfresh
          | _ => cases hconfigures
      | false =>
          cases hset : op.mark? with
          | none => exact (op.perform_builds hsubstitution hconfigures hset net).fresh hfresh
          | some mark =>
              cases op with
              | setMark n mark' =>
                  have hends : (setMark n mark').Ends net fun net' _ => net'.scratch.Fresh :=
                    .get_bind (.lift_bind hfresh fun _ _ => hfresh.setMark n (hmark mark' rfl))
                  exact hends
              | _ => cases hset

/-- No call of the run sets a mark ahead of the traversal number that it finds. -/
def Modest : Network → List Call → Prop
  | _, [] => True
  | net, call :: rest =>
    (∀ mark, call.operation.mark? = some mark → mark.toNat ≤ net.scratch.traversal.toNat) ∧
      Modest (net.after call.operation) rest

/-- A run whose calls set no mark ahead leaves none ahead. -/
theorem Modest.fresh {calls : List Call} (h : net.Modest calls) (hfresh : net.scratch.Fresh) :
    (net.afterAll calls).scratch.Fresh := by
  induction calls generalizing net with
  | nil => exact hfresh
  | cons call rest ih => exact ih h.2 (fresh_after hfresh call.operation h.1)

end Network

namespace Network

variable {net : Network}

/-- Nothing that can be asked of two networks tells them apart. -/
structure Alike (net net' : Network) : Prop where
  asked : ∀ {α : Type} (op : Operation α) (starts : List NodeId),
    op.starts? net.graph = some starts → (op.perform net').answer = (op.perform net).answer
  /-- The copies have one graph, and all else but the covers noted for the kinds of gate in common.
  -/
  compacted : net'.options = net.options → ∃ copy nodes kinds,
    (compact net).answer = .ok (copy, nodes) ∧
    (compact net').answer = .ok ({ copy with gateCover := kinds }, nodes)

/-- What is asked of a network is not refused, and leaves it as it was but for a walk. -/
structure Responds (net : Network) : Prop where
  asked : ∀ {α : Type} (op : Operation α) (starts : List NodeId),
    op.starts? net.graph = some starts → op.Suits net.graph →
    (∃ a, (op.perform net).answer = .ok a) ∧ net.Walked starts (net.after op)
  compacted : (∃ result, (compact net).answer = .ok result) ∧
    net.Walked net.graph.outputs (compact net).state

/-- The scratch space does not show. As long as no mark is ahead of the traversal number, networks
of one graph cannot be told apart by what they answer, whatever else they hold. To answer, a network
takes one traversal number, marks what it has reached and changes nothing else, and no mark is ahead
after that. So it goes on over every run in which no caller sets a mark ahead. -/
theorem Ready.hides_scratch (h : net.Ready) :
    (∀ net' : Network, net'.Ready → net'.graph = net.graph → net.Alike net') ∧ net.Responds ∧
    ∀ calls, net.Modest calls → (net.afterAll calls).scratch.Fresh ∧
      ((net.afterAll calls).scratch.traversal.toNat < UInt32.size - 1 →
        (net.afterAll calls).graph.references.length < UInt32.size →
        (net.afterAll calls).Ready) := by
  refine ⟨fun net' h' hgraph => ⟨fun op _ => h.answer_eq h' hgraph op, h.compact_eq h' hgraph⟩,
    ⟨fun op starts hstarts hsuits => ?_, h.compact_isOk, h.compact_walked⟩,
    fun calls hmodest => ?_⟩
  · obtain ⟨a, hanswer⟩ := op.answered h.reachable.wellFormed.graph hstarts hsuits
    exact ⟨⟨a, (hanswer net rfl h.scratch).1⟩, (hanswer net rfl h.scratch).2⟩
  · have hfresh := hmodest.fresh h.fresh
    exact ⟨hfresh, fun hroom huses => ⟨h.reachable.afterAll calls, hfresh, hroom, huses⟩⟩

/-- Calls that leave marks, counters and a listener behind, and move the traversal number. -/
def scribbling : List Call :=
  [⟨_, .postorder [7]⟩, ⟨_, .nextTraversal⟩, ⟨_, .setMark 4 2⟩, ⟨_, .setValue 2 9⟩,
    ⟨_, .subscribeAdded⟩]

/-- What the calls leave behind shows neither in evaluation nor in the copy. -/
theorem scribbled_answers : widened.Ready ∧
    (widened.afterAll scribbling).scratch =
      ⟨#[0, 0, 9, 0, 0, 0, 0, 0], #[0, 0, 1, 1, 2, 0, 0, 1], 2⟩ ∧
    (evaluate [true, false] (widened.afterAll scribbling)).answer =
      (evaluate [true, false] widened).answer ∧
    ∃ copy nodes kinds, (compact widened).answer = .ok (copy, nodes) ∧
      (compact (widened.afterAll scribbling)).answer =
        .ok ({ copy with gateCover := kinds }, nodes) := by
  have hready : widened.Ready :=
    ⟨widened_reachable, by decide +kernel, by decide +kernel, by decide +kernel⟩
  obtain ⟨halike, _, hruns⟩ := Ready.hides_scratch hready
  have hmodest : widened.Modest scribbling := by
    refine ⟨?_, ?_, ?_, ?_, ?_, trivial⟩ <;> intro mark hmark <;> cases hmark
    decide +kernel
  have hready' := (hruns scribbling hmodest).2 (by decide +kernel) (by decide +kernel)
  obtain ⟨hasked, hcompacted⟩ := halike _ hready' (by decide +kernel)
  exact ⟨hready, by decide +kernel, hasked (.evaluate [true, false]) _ rfl,
    hcompacted (by decide +kernel)⟩

-- A mark set ahead does show: the walk takes its node for met and does not settle it.
example : (evaluate [true, false] (widened.after (.setMark 4 1))).answer = .ok [false, false] := by
  decide +kernel

end Network
end LogicNet
