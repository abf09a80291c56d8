import LogicNet.Proofs.Rewiring
import LogicNet.Proofs.Terminals

/-!
Names are stable. Whatever is done to a network, refused or not, a name that has been given out goes
on to name what it named: a node keeps its cover, its kind and its position among the inputs, a
cover its function, a register its reset value, and what is new comes after what is there. The
children of a node and the signals of the outputs are touched by substitutions that are met, and by
nothing else; calls that only look leave all but the scratch space alone.
-/

namespace LogicNet

open Network

/-- What a caller can write with calls of one sort. -/
inductive ScriptOf (sort : (α : Type) → Operation α → Prop) :
    {α : Type} → Action Network α → Prop where
  | call {α : Type} (op : Operation α) : sort α op → ScriptOf sort op.perform
  | answer {α : Type} (a : α) : ScriptOf sort (pure a : Action Network α)
  | refuse {α : Type} (fault : Fault) : ScriptOf sort (Action.fail fault : Action Network α)
  | look : ScriptOf sort (get : Action Network Network)
  | note (note : Note) : ScriptOf sort (Action.note note : Action Network Unit)
  | next {α β : Type} {x : Action Network α} {f : α → Action Network β} :
      ScriptOf sort x → (∀ a, ScriptOf sort (f a)) → ScriptOf sort (x >>= f)
  | attempt {α : Type} {x : Action Network α} : ScriptOf sort x → ScriptOf sort x.attempt

namespace ScriptOf

variable {sort : (α : Type) → Operation α → Prop}

/-- Reductions by calls of a sort are among the scripts of that sort. -/
theorem composes : Composes fun _ => ScriptOf sort where
  pure := .answer
  fail := .refuse
  note := .note
  bind := .next

/-- Whatever each call of a sort does step by step, a script of such calls does. -/
theorem moves {step : Network → Network → Prop} {α : Type} {x : Action Network α}
    (h : ScriptOf sort x)
    (hstep : ∀ (β : Type) (op : Operation β), sort β op → Action.Moves step op.perform) :
    Action.Moves step x := by
  induction h with
  | call op hop => exact hstep _ op hop
  | answer a => exact .pure a
  | refuse fault => exact .fail fault
  | look => exact .get
  | note note => exact .note note
  | next _ _ ih ihnext => exact .bind ih ihnext
  | attempt _ ih => exact ih

end ScriptOf

namespace Graph

/-- The second graph has what the first one has, under the names that it has there, and what is new
comes after it. What the children of a node and the signals of the outputs are is left open. -/
structure Steady (g g' : Graph) : Prop where
  size_le : g.size ≤ g'.size
  covers_size_le : g.covers.size ≤ g'.covers.size
  /-- Nodes keep the names of their covers. -/
  slot : ∀ (n : NodeId) (children : List NodeId) (c : CoverId),
    g.nodes[n]? = some ⟨children, c⟩ → ∃ children', g'.nodes[n]? = some ⟨children', c⟩
  cover : ∀ (c : CoverId) (cover : Cover), g.covers[c]? = some cover → g'.covers[c]? = some cover
  inputs : ∀ list ∈ [Terminal.input, .primaryInput, .registerOutput],
    g.terminals list <+: g'.terminals list
  kind : ∀ n < g.size, ∀ kind, g'.isOf kind n = g.isOf kind n
  position : ∀ n < g.size, ∀ list ∈ [Terminal.input, .primaryInput, .registerOutput],
    g'.inputPosition list n = g.inputPosition list n
  outputs : ∀ list ∈ [Terminal.output, .primaryOutput, .registerInput],
    (g.terminals list).length ≤ (g'.terminals list).length
  resets : g.resets <+: g'.resets

/-- The second graph also has the children of the first as they are there, and its outputs. -/
structure Undisturbed (g g' : Graph) : Prop where
  nodes : ∀ (n : NodeId) (node : Node), g.nodes[n]? = some node → g'.nodes[n]? = some node
  outputs : ∀ list ∈ [Terminal.output, .primaryOutput, .registerInput],
    g.terminals list <+: g'.terminals list

variable {g g' g'' : Graph}

theorem Steady.trans (h : Steady g g') (h' : Steady g' g'') : Steady g g'' where
  size_le := h.size_le.trans h'.size_le
  covers_size_le := h.covers_size_le.trans h'.covers_size_le
  slot n children c hn := by
    obtain ⟨children', hn'⟩ := h.slot n children c hn
    exact h'.slot n children' c hn'
  cover c cover hc := h'.cover c cover (h.cover c cover hc)
  inputs list hlist := (h.inputs list hlist).trans (h'.inputs list hlist)
  kind n hn kind := (h'.kind n (hn.trans_le h.size_le) kind).trans (h.kind n hn kind)
  position n hn list hlist :=
    (h'.position n (hn.trans_le h.size_le) list hlist).trans (h.position n hn list hlist)
  outputs list hlist := (h.outputs list hlist).trans (h'.outputs list hlist)
  resets := h.resets.trans h'.resets

theorem Undisturbed.trans (h : Undisturbed g g') (h' : Undisturbed g' g'') : Undisturbed g g'' where
  nodes n node hn := h'.nodes n node (h.nodes n node hn)
  outputs list hlist := (h.outputs list hlist).trans (h'.outputs list hlist)

/-- The second list goes on where the first one ends, and with nothing below a bound. -/
def Continues (bound : Nat) (ns ns' : List NodeId) : Prop :=
  ∃ more : List NodeId, ns' = ns ++ more ∧ ∀ n ∈ more, bound ≤ n

namespace Continues

variable {bound : Nat} {ns ns' : List NodeId} {n : NodeId}

theorem refl (bound : Nat) (ns : List NodeId) : Continues bound ns ns :=
  ⟨[], (List.append_nil ns).symm, by simp⟩

theorem isPrefix (h : Continues bound ns ns') : ns <+: ns' := by
  obtain ⟨more, rfl, _⟩ := h
  exact List.prefix_append ns more

theorem mem_iff (h : Continues bound ns ns') (hn : n < bound) : n ∈ ns' ↔ n ∈ ns := by
  obtain ⟨more, rfl, hmore⟩ := h
  rw [List.mem_append, or_iff_left fun hmem => Nat.not_le.2 hn (hmore n hmem)]

theorem idxOf?_eq (h : Continues bound ns ns') (hn : n < bound) : ns'.idxOf? n = ns.idxOf? n := by
  obtain ⟨more, rfl, hmore⟩ := h
  have hnone : more.findIdx? (· == n) = none :=
    List.idxOf?_eq_none_iff.2 fun hmem => Nat.not_le.2 hn (hmore n hmem)
  simp only [List.idxOf?, List.findIdx?_append, hnone, Option.map_none, Option.or_none]

theorem take (h : Continues bound ns ns') (count : Nat) :
    Continues bound (ns.take count) (ns'.take count) := by
  obtain ⟨more, rfl, hmore⟩ := h
  exact ⟨_, List.take_append, fun n hn => hmore n (List.mem_of_mem_take hn)⟩

theorem drop (h : Continues bound ns ns') (count : Nat) :
    Continues bound (ns.drop count) (ns'.drop count) := by
  obtain ⟨more, rfl, hmore⟩ := h
  exact ⟨_, List.drop_append, fun n hn => hmore n (List.mem_of_mem_drop hn)⟩

end Continues

/-- The second graph continues the lists of the first. A primary terminal is added as long as there
are no others. -/
structure Lengthened (g g' : Graph) : Prop where
  grown : Grown g g'
  outputs : g.outputs <+: g'.outputs
  primaryInputCount : g'.primaryInputCount = g.primaryInputCount ∨
    g.inputs.length = g.primaryInputCount ∧ g'.inputs.length = g'.primaryInputCount
  primaryOutputCount : g'.primaryOutputCount = g.primaryOutputCount ∨
    g.outputs.length = g.primaryOutputCount ∧ g'.outputs.length = g'.primaryOutputCount
  resets : g.resets <+: g'.resets

namespace Lengthened

theorem of_same (hgrown : Grown g g') (hinputs : g'.toInputs = g.toInputs)
    (houtputs : g'.toOutputs = g.toOutputs) : Lengthened g g' where
  grown := hgrown
  outputs := houtputs ▸ List.prefix_rfl
  primaryInputCount := .inl (hinputs ▸ rfl)
  primaryOutputCount := .inl (houtputs ▸ rfl)
  resets := houtputs ▸ List.prefix_rfl

theorem continues (h : Lengthened g g') (list : Terminal)
    (hlist : list ∈ [Terminal.input, .primaryInput, .registerOutput]) :
    Continues g.size (g.terminals list) (g'.terminals list) := by
  have hinputs : Continues g.size g.inputs g'.inputs := h.grown.inputs
  simp only [List.mem_cons, List.not_mem_nil, or_false] at hlist
  rcases hlist with rfl | rfl | rfl
  · exact hinputs
  · simp only [terminals]
    rcases h.primaryInputCount with hcount | ⟨hfirst, hfirst'⟩
    · rw [Inputs.primaryInputs, Inputs.primaryInputs, hcount]
      exact hinputs.take _
    · rwa [Inputs.primaryInputs_of_first hfirst, Inputs.primaryInputs_of_first hfirst']
  · simp only [terminals]
    rcases h.primaryInputCount with hcount | ⟨hfirst, hfirst'⟩
    · rw [Inputs.registerOutputs, Inputs.registerOutputs, hcount]
      exact hinputs.drop _
    · rw [Inputs.registerOutputs_of_first hfirst, Inputs.registerOutputs_of_first hfirst']
      exact .refl _ _

theorem isOf_eq (h : Lengthened g g') (hg : g.WellFormed) (hg' : g'.WellFormed) {n : NodeId}
    (hn : n < g.size) (kind : Kind) : g'.isOf kind n = g.isOf kind n := by
  have hprimary : n ∈ g'.primaryInputs ↔ n ∈ g.primaryInputs :=
    (h.continues .primaryInput (by decide)).mem_iff hn
  have hregister : n ∈ g'.registerOutputs ↔ n ∈ g.registerOutputs :=
    (h.continues .registerOutput (by decide)).mem_iff hn
  rw [Bool.eq_iff_iff, hg'.isOf_iff, hg.isOf_iff, kindOf, kindOf]
  simp only [hprimary, hregister]

theorem inputPosition_eq (h : Lengthened g g') (hg : g.WellFormed) (hg' : g'.WellFormed)
    {n : NodeId} (hn : n < g.size) {list : Terminal} :
    g'.inputPosition list n = g.inputPosition list n := by
  have htable : g'.inputPositions[n]? = g.inputPositions[n]? := by
    rw [hg'.inputPositions_eq, hg.inputPositions_eq]
    exact (h.continues .input (by decide)).idxOf?_eq hn
  unfold inputPosition
  rw [htable]
  cases hposition : g.inputPositions[n]? with
  | none => rfl
  | some position =>
      rcases h.primaryInputCount with hcount | ⟨hfirst, hfirst'⟩
      · rw [hcount]
      -- All inputs are primary, before and after.
      · have hlt : position < g.primaryInputCount :=
          hfirst ▸ (List.getElem?_eq_some_iff.1 ((hg.indexed.position n position).1 hposition)).1
        have hlt' : position < g'.primaryInputCount := hlt.trans_le (by
          rw [← hfirst, ← hfirst']
          exact (Continues.isPrefix h.grown.inputs).length_le)
        cases list <;> simp [hlt, hlt', Nat.not_le.2 hlt, Nat.not_le.2 hlt']

theorem undisturbed (h : Lengthened g g') : Undisturbed g g' where
  nodes := h.grown.nodes
  outputs list hlist := by
    simp only [List.mem_cons, List.not_mem_nil, or_false] at hlist
    rcases hlist with rfl | rfl | rfl
    · exact h.outputs
    · simp only [terminals]
      rcases h.primaryOutputCount with hcount | ⟨hfirst, hfirst'⟩
      · rw [Outputs.primaryOutputs, Outputs.primaryOutputs, hcount]
        exact h.outputs.take _
      · rw [Outputs.primaryOutputs_of_first hfirst, Outputs.primaryOutputs_of_first hfirst']
        exact h.outputs
    · simp only [terminals]
      rcases h.primaryOutputCount with hcount | ⟨hfirst, _⟩
      · rw [Outputs.registerInputs, Outputs.registerInputs, hcount]
        exact h.outputs.drop _
      · rw [Outputs.registerInputs_of_first hfirst]
        exact List.nil_prefix

theorem steady (h : Lengthened g g') (hg : g.WellFormed) (hg' : g'.WellFormed) :
    Steady g g' where
  size_le := h.grown.size_le
  covers_size_le := by
    by_contra hlt
    have hlast := h.grown.covers g'.covers.size _
      (Array.getElem?_eq_getElem (Nat.lt_of_not_le hlt))
    exact Nat.lt_irrefl _ (Array.getElem?_eq_some_iff.1 hlast).1
  slot n children c hn := ⟨children, h.grown.nodes n _ hn⟩
  cover := h.grown.covers
  inputs list hlist := (h.continues list hlist).isPrefix
  kind n hn kind := h.isOf_eq hg hg' hn kind
  position n hn list _ := h.inputPosition_eq hg hg' hn
  outputs list hlist := (h.undisturbed.outputs list hlist).length_le
  resets := h.resets

end Lengthened

theorem Steady.refl (g : Graph) : Steady g g where
  size_le := le_rfl
  covers_size_le := le_rfl
  slot _ children _ hn := ⟨children, hn⟩
  cover _ _ hc := hc
  inputs _ _ := List.prefix_rfl
  kind _ _ _ := rfl
  position _ _ _ _ := rfl
  outputs _ _ := le_rfl
  resets := List.prefix_rfl

/-- A redirection keeps everything but children and signals. -/
theorem steady_redirect (g : Graph) (old new : NodeId) : Steady g (g.redirect old new) := by
  have hinputs : ∀ list ∈ [Terminal.input, .primaryInput, .registerOutput],
      (g.redirect old new).terminals list = g.terminals list := by
    simp [terminals, redirect]
  exact
    { size_le := (redirect_size g old new).ge
      covers_size_le := le_rfl
      slot := fun n children c hn =>
        ⟨children.map (rename old new), by rw [nodes_redirect, hn]; rfl⟩
      cover := fun c cover hc => hc
      inputs := fun list hlist => by rw [hinputs list hlist]
      kind := fun n _ kind => by cases kind <;> rfl
      position := fun _ _ _ _ => rfl
      outputs := by
        simp [terminals, Outputs.primaryOutputs, Outputs.registerInputs, redirect]
      resets := List.prefix_rfl }

end Graph

namespace Network

variable {net net' : Network}

/-- Inputs come after the nodes that are there, outputs after the outputs that are there. -/
theorem Growth.lengthened (h : Growth net net') : net.graph.Lengthened net'.graph := by
  have hgrown := h.grown
  cases h with
  | primaryInput hfirst =>
      exact
        { grown := hgrown
          outputs := List.prefix_rfl
          primaryInputCount := .inr ⟨hfirst, Inputs.first_pushPrimary hfirst⟩
          primaryOutputCount := .inl rfl
          resets := List.prefix_rfl }
  | registerOutput => exact
        { grown := hgrown
          outputs := by simp
          primaryInputCount := .inl (by simp; rfl)
          primaryOutputCount := .inl (by simp)
          resets := by simp }
  | primaryOutput signal fanouts _ hfirst _ =>
      exact
        { grown := hgrown
          outputs := List.prefix_append _ _
          primaryInputCount := .inl rfl
          primaryOutputCount := .inr ⟨hfirst, Outputs.first_pushPrimary hfirst⟩
          resets := List.prefix_rfl }
  | registerInput signal reset fanouts _ _ _ =>
      exact
        { grown := hgrown
          outputs := List.prefix_append _ _
          primaryInputCount := .inl rfl
          primaryOutputCount := .inl rfl
          resets := List.prefix_append _ _ }
  | cover cover _ => exact .of_same hgrown rfl rfl
  | gate request fanouts _ _ _ =>
      rw [record_graph] at hgrown ⊢
      exact .of_same hgrown rfl rfl
  | scratch scratch _ _ => exact .of_same hgrown rfl rfl

theorem Extension.lengthened (h : Extension net net') : net.graph.Lengthened net'.graph := by
  cases h with
  | growth hgrowth => exact hgrowth.lengthened
  | _ => exact .of_same (.of_same rfl rfl rfl) rfl rfl

theorem Change.steady (h : Change net net') (hwell : net.WellFormed) :
    net.graph.Steady net'.graph := by
  have hwell' := hwell.of_change h
  cases h with
  | extension hextension => exact hextension.lengthened.steady hwell.graph hwell'.graph
  | redirection old new hredirected =>
      obtain ⟨fanouts, _, rfl⟩ := hredirected.result
      exact Graph.steady_redirect net.graph old new

/-- What each elementary change keeps, a sequence of them keeps. -/
theorem steady_of_changes (hwell : net.WellFormed)
    (h : Relation.ReflTransGen Change net net') : net.graph.Steady net'.graph := by
  induction h with
  | refl => exact .refl _
  | tail hsteps hstep ih => exact ih.trans (hstep.steady (hwell.of_changes hsteps))

theorem undisturbed_of_extensions (h : Relation.ReflTransGen Extension net net') :
    net.graph.Undisturbed net'.graph := by
  induction h with
  | refl => exact ⟨fun _ _ hn => hn, fun _ _ => List.prefix_rfl⟩
  | tail _ hstep ih => exact ih.trans hstep.lengthened.undisturbed

/-- What is asked of single nodes leaves no trace at all. -/
theorem onNode_state {α : Type} (n : NodeId) {x : Action Scratch α} (h : ∀ s, (x s).state = s)
    (net : Network) : (onNode n x net).state = net := by
  unfold onNode
  rw [Action.get_bind_run]
  cases net.graph.check n with
  | error fault => rw [Action.lift_error_bind_run]
  | ok _ =>
      rw [Action.lift_ok_bind_run]
      show { net with scratch := (x net.scratch).state } = net
      rw [h]

theorem compute_state (n : NodeId) (values : List Bool) (net : Network) :
    (compute n values net).state = net := by
  unfold compute
  rw [Action.get_bind_run]
  cases net.graph.compute n values with
  | error fault => rw [Action.lift_error_bind_run]
  | ok value => rw [Action.lift_ok_bind_run, Action.report_bind_run]; rfl

theorem computeVectors_state (n : NodeId) (vectors : List (Array Bool)) (net : Network) :
    (computeVectors n vectors net).state = net := by
  unfold computeVectors
  rw [Action.get_bind_run]
  cases net.graph.computeVectors n vectors with
  | error fault => rw [Action.lift_error_bind_run]
  | ok values => rw [Action.lift_ok_bind_run, Action.report_bind_run]; rfl

end Network

/-- In every reachable network names go on to name what they named, whatever is called. Only a
substitution that is met touches children and outputs, and it rewires them; calls that look touch
nothing but the scratch space. -/
theorem Reachable.names_stable {net : Network} (h : Reachable net) :
    (∀ {α : Type} {x : Action Network α}, Script x → net.graph.Steady (x net).state.graph) ∧
    (∀ {α : Type} {x : Action Network α}, ScriptOf (fun _ op => op.substitution? = none) x →
      net.graph.Undisturbed (x net).state.graph) ∧
    (∀ old new, (∃ fault, (substitute old new net).answer = .error fault ∧
        (substitute old new net).state = net) ∨
      (substitute old new net).answer = .ok () ∧
        Rewired net old new (substitute old new net).state) ∧
    (∀ {α : Type} {x : Action Network α}, ScriptOf (fun _ op => op.observes = true) x →
      Scratched net (x net).state) ∧
    ∀ n values vectors, (value n net).state = net ∧ (mark n net).state = net ∧
      (compute n values net).state = net ∧ (computeVectors n vectors net).state = net := by
  refine ⟨fun hx => ?_, fun hx => ?_, ?_, fun hx => ?_, fun n values vectors => ?_⟩
  · exact steady_of_changes h.wellFormed (hx.changes net)
  · apply undisturbed_of_extensions
    exact hx.moves (fun _ op hop => op.perform_moves hop) net
  · intro old new
    rcases h.wellFormed.substitute_cases old new with ⟨hsame, fault, hfault, _⟩ | ⟨hredirected, hok⟩
    · exact .inl ⟨fault, hfault, hsame⟩
    · exact .inr ⟨hok, h.wellFormed.rewired hredirected⟩
  · apply scratched_of_moves
    exact hx.moves (fun _ op hop => op.perform_scratched hop) net
  · exact ⟨onNode_state n (fun _ => rfl) net, onNode_state n (fun _ => rfl) net,
      compute_state n values net, computeVectors_state n vectors net⟩

theorem conjunction_undisturbing (operands : List NodeId) :
    ScriptOf (fun _ op => op.substitution? = none) (conjunction operands) :=
  ScriptOf.composes.reduce (fun a b => .call (.gate .and [a, b]) rfl) _ _ _

/-- A node that has been replaced stays a gate and a register output keeps its position, new gates
leave the old ones alone, a refused substitution everything, and so does a simulation. -/
theorem fanned_stable : Reachable fanned ∧
    (substitute 4 7 fanned).state.graph.isOf .gate 4 = true ∧
    (substitute 4 7 fanned).state.graph.inputPosition .input 3 = .ok 1 ∧
    (conjunction [2, 3, 7, 4] fanned).state.graph.nodes[5]? = some ⟨[4, 2, 4], 5⟩ ∧
    (substitute 4 5 fanned).state = fanned ∧
    (evaluateAll fanned).state.graph = fanned.graph := by
  obtain ⟨hsteady, hundisturbed, hsubstitute, hscratched, _⟩ :=
    Reachable.names_stable fanned_reachable
  have hlt : (4 : NodeId) < fanned.graph.size ∧ (3 : NodeId) < fanned.graph.size := by
    decide +kernel
  have hreplaced := hsteady (.call (.substitute 4 7))
  refine ⟨fanned_reachable, (hreplaced.kind 4 hlt.1 .gate).trans (by decide +kernel),
    (hreplaced.position 3 hlt.2 .input (by decide)).trans (by decide +kernel),
    (hundisturbed (conjunction_undisturbing _)).nodes 5 _ (by decide +kernel), ?_, ?_⟩
  · rcases hsubstitute 4 5 with ⟨_, _, hsame⟩ | ⟨hmet, _⟩
    · exact hsame
    · have hrefused : (substitute 4 5 fanned).answer ≠ .ok () := by decide +kernel
      exact absurd hmet hrefused
  · have hgraph := congrArg Network.graph (hscratched (.call .evaluateAll rfl)).rest
    exact hgraph

end LogicNet
