import LogicNet.Proofs.Soundness

/-!
Requests keep their nodes. What the sharing table finds once it finds in every later state of the
network: entries are only added for requests that have none, redirections leave the table alone, and
a kind of gate that has a cover keeps it. So a request that was met while sharing was on is met by
the same node, without any other effect, whenever sharing is on.
-/

namespace LogicNet
namespace Network

variable {net net' : Network} {request : Request} {n : NodeId}

/-- An extension adds a node at the end, and an entry for it if sharing is on, or it changes neither
nodes nor entries. No entry is for a request that had one. -/
theorem Extension.table_cases (h : Extension net net') :
    (net'.graph.nodes = net.graph.nodes ∧ net'.table = net.table) ∨
    ∃ node : Node, net'.graph.nodes = net.graph.nodes.push node ∧
      (∀ request, net'.table.find? request =
        if net.options.share = true ∧ node = request then some net.graph.size
        else net.table.find? request) ∧
      (node.cover = net.graph.covers.size ∨ net.shared? node = none) := by
  cases h with
  | growth hgrowth =>
      cases hgrowth with
      | primaryInput _ | registerOutput =>
          exact Or.inr ⟨net.graph.inputNode, by simp, find?_addInputNode_table net, Or.inl rfl⟩
      | gate request fanouts _ fresh _ =>
          refine Or.inr ⟨request, ?_, find?_record_table (net.addNode request fanouts) request _,
            Or.inr fresh⟩
          rw [record_graph]
          rfl
      | _ => exact Or.inl ⟨rfl, rfl⟩
  | _ => exact Or.inl ⟨rfl, rfl⟩

/-- It is settled which node meets a request as long as sharing is on. -/
inductive Settled (net : Network) (request : Request) : NodeId → Prop where
  | constant (cover : Cover) (childless : request.children = [])
      (named : net.graph.covers[request.cover]? = some cover) :
      Settled net request (Graph.constant cover.polarity)
  | recorded (n : NodeId) (accepted : net.graph.Accepts request)
      (found : net.table.find? request = some n) : Settled net request n

theorem shared?_eq (hshare : net.options.share = true) (request : Request) :
    net.shared? request = net.table.find? request := by
  rw [shared?, if_pos hshare]

/-- A request that has been met is settled. -/
theorem Met.settled (h : Met net request n net') (hshare : net.options.share = true) :
    Settled net' request n := by
  cases h with
  | constant cover childless named => exact .constant cover childless named
  | shared n accepted found => exact .recorded n accepted (by rw [← shared?_eq hshare, found])
  | created fanouts accepted fresh raised =>
      have hgrowth := Growth.gate request fanouts accepted fresh raised
      refine .recorded _ (accepted.of_grown hgrowth.grown) ?_
      rw [find?_record_table]
      exact if_pos ⟨hshare, rfl⟩

namespace Settled

/-- A settled request is met by its node, which leaves nothing but a note. -/
theorem node_run (h : Settled net request n) (hshare : net.options.share = true) :
    ∃ notes : List Note, node request.children request.cover net =
      ⟨.ok n, net, notes.map .noted⟩ := by
  unfold node
  rw [Action.get_bind_run]
  cases h with
  | constant cover childless named =>
      rw [(Graph.cover_eq_ok_iff _ _ _).2 named, Action.lift_ok_bind_run, childless]
      exact ⟨[], rfl⟩
  | recorded n accepted found =>
      have hnamed := Array.getElem?_eq_getElem accepted.cover_lt
      have hchildren : ¬ request.children.isEmpty = true := by simpa using accepted.children_ne_nil
      rw [(Graph.cover_eq_ok_iff _ _ _).2 hnamed, Action.lift_ok_bind_run, if_neg hchildren,
        Action.require_bind_run accepted.length_le,
        (checkAll_eq_ok_iff _ _).2 accepted.child_lt, Action.lift_ok_bind_run,
        shared?_eq hshare, found]
      exact ⟨[.nodeShared request.children request.cover n], rfl⟩

theorem of_extension (h : Settled net request n) (hextension : Extension net net') :
    Settled net' request n := by
  have hgrown := hextension.grown
  cases h with
  | constant cover childless named => exact .constant cover childless (hgrown.covers _ _ named)
  | recorded n accepted found =>
      refine .recorded n (accepted.of_grown hgrown) ?_
      rcases hextension.table_cases with ⟨_, htable⟩ | ⟨node, _, htable, hfresh⟩
      · rw [htable, found]
      · rw [htable, if_neg, found]
        rintro ⟨hshare, rfl⟩
        rcases hfresh with hcover | hfresh
        · exact Nat.ne_of_lt accepted.cover_lt hcover
        · rw [shared?_eq hshare, found] at hfresh
          cases hfresh

theorem of_redirection (h : Settled net request n) {old new : NodeId}
    (hredirected : Redirection net old new net') : Settled net' request n := by
  obtain ⟨fanouts, _, rfl⟩ := hredirected.result
  cases h with
  | constant cover childless named => exact .constant cover childless named
  | recorded n accepted found =>
      refine .recorded n ⟨accepted.cover_lt, accepted.children_ne_nil, accepted.length_le, ?_⟩ found
      rw [Graph.redirect_size]
      exact accepted.child_lt

/-- A request stays settled whatever happens to the network. -/
theorem of_changes (h : Settled net request n) (hchanges : Relation.ReflTransGen Change net net') :
    Settled net' request n := by
  induction hchanges with
  | refl => exact h
  | tail _ hchange ih =>
      cases hchange with
      | extension hextension => exact ih.of_extension hextension
      | redirection old new hredirected => exact ih.of_redirection hredirected

end Settled

theorem Change.gateCover_kept (h : Change net net') {kind : Gate} {c : CoverId}
    (hc : net.gateCover kind = some c) : net'.gateCover kind = some c := by
  cases h with
  | extension hextension =>
      cases hextension with
      | growth hgrowth => rw [hgrowth.gateCover_eq, hc]
      | gateCover assigned kept _ => exact kept kind c hc
      | _ => exact hc
  | redirection old new hredirected =>
      obtain ⟨fanouts, _, rfl⟩ := hredirected.result
      exact hc

/-- A kind of gate keeps its cover whatever happens to the network. -/
theorem gateCover_kept_of_changes (h : Relation.ReflTransGen Change net net') {kind : Gate}
    {c : CoverId} (hc : net.gateCover kind = some c) : net'.gateCover kind = some c := by
  induction h with
  | refl => exact hc
  | tail _ hchange ih => exact hchange.gateCover_kept ih

/-- After the cover of a kind of gate has been asked for it is known. -/
theorem coverOfGate_known {kind : Gate} {c : CoverId}
    (h : (coverOfGate kind net).answer = .ok c) :
    (coverOfGate kind net).state.gateCover kind = some c ∧
      (coverOfGate kind net).state.options = net.options := by
  have hrun := coverOfGate_run kind net
  rw [h] at hrun
  cases hknown : net.gateCover kind with
  | some known =>
      simp only [hknown, Except.ok.injEq] at hrun
      rw [hrun.1, hrun.2, hknown]
      exact ⟨rfl, rfl⟩
  | none =>
      simp only [hknown, Except.ok.injEq] at hrun
      rw [hrun.1, hrun.2]
      exact ⟨if_pos rfl, rfl⟩

theorem coverOfGate_of_known {kind : Gate} {c : CoverId} (h : net.gateCover kind = some c) :
    coverOfGate kind net = ⟨.ok c, net, []⟩ := by
  unfold coverOfGate
  rw [Action.get_bind_run, h]
  rfl

/-- A gate that has been made has a number of operands that suits its kind, its kind has a cover,
and the request for both is settled. -/
theorem gate_settled {kind : Gate} {operands : List NodeId} (hshare : net.options.share = true)
    (hn : (gate kind operands net).answer = .ok n) : operands.length = kind.arity ∧
      ∃ c, (gate kind operands net).state.gateCover kind = some c ∧
        Settled (gate kind operands net).state ⟨operands, c⟩ n := by
  unfold gate at hn ⊢
  by_cases harity : operands.length = kind.arity
  · rw [Action.require_bind_run harity] at hn ⊢
    obtain ⟨c, hc, hn⟩ := Action.exists_of_bind_ok hn
    rw [Action.bind_state_of_ok hc]
    obtain ⟨hknown, hoptions⟩ := coverOfGate_known hc
    have hmet := node_met hn
    refine ⟨harity, c, ?_, hmet.settled (by rw [hoptions, hshare])⟩
    rw [gateCover_eq_of_growth hmet.growths, hknown]
  · rw [Action.require_bind_run_error harity] at hn
    cases hn

/-- A node or a gate that was asked for while sharing was on is the answer to the same call for the
life of the network, whatever happens in between, as long as sharing is on again. The call then
leaves the network as it is, and no listener hears of it. -/
theorem asked_again {op : Operation NodeId}
    (hop : (∃ children cover, op = .node children cover) ∨ ∃ kind operands, op = .gate kind operands)
    (hshare : net.options.share = true) (hn : (op.perform net).answer = .ok n) {α : Type}
    {x : Action Network α} (hx : Script x)
    (hlater : (x (net.after op)).state.options.share = true) :
    ∃ notes : List Note, op.perform (x (net.after op)).state =
      ⟨.ok n, (x (net.after op)).state, notes.map .noted⟩ := by
  have hchanges := hx.changes (net.after op)
  rcases hop with ⟨children, c, rfl⟩ | ⟨kind, operands, rfl⟩
  · have hsettled : Settled (net.after (.node children c)) ⟨children, c⟩ n :=
      (node_met hn).settled hshare
    exact (hsettled.of_changes hchanges).node_run hlater
  · obtain ⟨harity, c, hknown, hsettled⟩ := gate_settled hshare hn
    obtain ⟨notes, hrun⟩ := (hsettled.of_changes hchanges).node_run hlater
    refine ⟨notes, ?_⟩
    show gate kind operands _ = _
    unfold gate
    rw [Action.require_bind_run harity,
      Action.bind_run_ok (coverOfGate_of_known (gateCover_kept_of_changes hchanges hknown)), hrun]
    rfl

end Network

open Network

/-- A script after which a gate has another child, and which makes a gate for the same request while
sharing is off. -/
def upheaval : Action Network Unit := do
  setOptions .plain
  let _ ← gate .and [2, 3]
  substitute 2 3
  let _ ← addPrimaryOutput 4
  let _ ← Action.attempt (substitute 3 4)
  setOptions .sharing

theorem upheaval_script : Script upheaval :=
  .next (.call (.setOptions .plain)) fun _ => .next (.call (.gate .and [2, 3])) fun _ =>
    .next (.call (.substitute 2 3)) fun _ => .next (.call (.addPrimaryOutput 4)) fun _ =>
    .next (.attempt (.call (.substitute 3 4))) fun _ => .call (.setOptions .sharing)

/-- Two inputs. -/
def paired : Network := ((Network.new .sharing).after .addPrimaryInput).after .addPrimaryInput

/-- A conjunction of the two, and what became of it. -/
def conjoined : Network := (upheaval (paired.after (.gate .and [2, 3]))).state

theorem conjoined_again : conjoined.graph.childrenOf 4 = [3, 3] ∧
    conjoined.graph.childrenOf 5 = [3, 3] ∧
    ∃ notes : List Note, (Operation.gate .and [2, 3]).perform conjoined =
      ⟨.ok 4, conjoined, notes.map .noted⟩ := by
  refine ⟨by decide +kernel, by decide +kernel, ?_⟩
  exact Network.asked_again (Or.inr ⟨.and, [2, 3], rfl⟩) (by decide +kernel) (by decide +kernel)
    upheaval_script (by decide +kernel)

end LogicNet
