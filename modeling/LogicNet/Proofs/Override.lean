import LogicNet.Proofs.Evaluation

/-!
Substitution as an override. Whoever reads the replaced node reads the value of the other one from
then on, and nothing else changes: the values after a substitution are those before it, with the
value of the replaced node overridden by that of its replacement wherever it is read. The nodes
below the two, and so the two themselves, keep their values, since neither is read there.
-/

namespace LogicNet
namespace Graph

variable {g : Graph} {v : Nat → Bool} {old new : NodeId} {value : Bool}

/-- The value of a node when those who read `old` are given `value` for it. -/
def overridden (g : Graph) (v : Nat → Bool) (old : NodeId) (value : Bool) : NodeId → Bool :=
  g.descend (fun n below => if n = old then value else g.nodeValue v n below) false

theorem overridden_old (h : g.WellFormed) : g.overridden v old value old = value := by
  rw [overridden, descend_eq h, if_pos rfl]

theorem overridden_of_ne (h : g.WellFormed) {n : NodeId} (hn : n ≠ old) :
    g.overridden v old value n =
      g.nodeValue v n ((g.childrenOf n).map (g.overridden v old value)) := by
  rw [overridden, descend_eq h, if_neg hn]

/-- A node that does not depend on `old` does not see the override. -/
theorem overridden_of_not_reaches (h : g.WellFormed) {n : NodeId}
    (hn : ¬ Reaches g.childrenOf n old) : g.overridden v old value n = g.value v n := by
  refine eq_value h (P := fun n => ¬ Reaches g.childrenOf n old)
    (fun n hn child hchild hreach => hn (.head hchild hreach)) (fun n hn => ?_) n hn
  refine overridden_of_ne h fun heq => hn ?_
  rw [heq]

@[simp] theorem nodeValue_redirect (n : NodeId) (below : List Bool) :
    (g.redirect old new).nodeValue v n below = g.nodeValue v n below := by
  unfold nodeValue
  rw [nodeCover_redirect]
  rfl

/-- A node without a use of `old` below it keeps its value. -/
theorem value_redirect_of_unread (h : g.WellFormed) (h' : (g.redirect old new).WellFormed)
    {n : NodeId} (hn : ∀ child ∈ g.childrenOf n, ¬ Reaches g.childrenOf child old) :
    (g.redirect old new).value v n = g.value v n := by
  refine eq_value h (P := fun n => ∀ child ∈ g.childrenOf n, ¬ Reaches g.childrenOf child old)
    (fun n hn child hchild below hbelow hreach => hn child hchild (.head hbelow hreach))
    (fun n hn => ?_) n hn
  have hchildren : renamed g.childrenOf old new n = g.childrenOf n := by
    calc
      renamed g.childrenOf old new n = (g.childrenOf n).map id := by
        apply List.map_congr_left
        intro child hchild
        refine if_neg fun heq => hn child hchild ?_
        rw [heq]
      _ = g.childrenOf n := List.map_id _
  rw [value_eq h', nodeValue_redirect, childrenOf_redirect, hchildren]

/-- Whoever reads a node after a redirection reads its overridden value. -/
theorem value_redirect_rename (h : g.WellFormed) (h' : (g.redirect old new).WellFormed)
    (hne : new ≠ old) (hreach : ¬ Reaches g.childrenOf new old) (n : NodeId) :
    (g.redirect old new).value v (rename old new n) = g.overridden v old (g.value v new) n := by
  have hrename : ∀ n, g.overridden v old (g.value v new) (rename old new n) =
      g.overridden v old (g.value v new) n := by
    intro n
    unfold rename
    split
    · next heq => rw [heq, overridden_old h, overridden_of_not_reaches h hreach]
    · rfl
  have hread : ∀ n, rename old new n ≠ old := by
    intro n
    unfold rename
    split
    · exact hne
    · next hn => exact hn
  -- Nobody reads `old` any more, so the rule has to be followed at the other nodes only.
  rw [← hrename n]
  refine (eq_value h' (P := fun n => n ≠ old) (fun n _ child hchild => ?_) (fun n hn => ?_) _
    (hread n)).symm
  · rw [childrenOf_redirect, renamed, List.mem_map] at hchild
    obtain ⟨before, _, rfl⟩ := hchild
    exact hread before
  · calc
      g.overridden v old (g.value v new) n
          = g.nodeValue v n ((g.childrenOf n).map (g.overridden v old (g.value v new))) :=
            overridden_of_ne h hn
      _ = g.nodeValue v n
            (((g.childrenOf n).map (rename old new)).map (g.overridden v old (g.value v new))) := by
          rw [List.map_map]
          congr 1
          exact List.map_congr_left fun child _ => (hrename child).symm
      _ = (g.redirect old new).nodeValue v n (((g.redirect old new).childrenOf n).map
            (g.overridden v old (g.value v new))) := by
          rw [nodeValue_redirect, childrenOf_redirect]
          rfl

/-- An override by the value that the node has anyway changes nothing. -/
theorem overridden_value (h : g.WellFormed) (n : NodeId) :
    g.overridden v old (g.value v old) n = g.value v n := by
  refine h.acyclic.eq_of_rule h.bounded (P := fun _ => True) (fun _ _ _ _ => trivial)
    (fun n _ => descend_eq h _ _ n) (fun n _ => ?_) n trivial
  split
  · next heq => rw [heq]
  · exact value_eq h v n

end Graph

namespace Network

variable {net after : Network} {old new : NodeId} {journal : List Entry}

/-- A substitution that is met redirects the uses. -/
theorem redirection_of_substitute (h : substitute old new net = ⟨.ok (), after, journal⟩) :
    Redirection net old new after := by
  have hredirected := redirection_of_met (congrArg Outcome.answer h)
  rwa [h] at hredirected

/-- After a redirection whoever reads a node reads its overridden value. -/
theorem Redirection.value_rename (h : Redirection net old new after) (hwell : net.WellFormed)
    (v : Nat → Bool) (n : NodeId) : after.graph.value v (Graph.rename old new n) =
      net.graph.overridden v old (net.graph.value v new) n := by
  obtain ⟨_, _, hne, hreach⟩ :=
    (checkSubstitution_eq_ok_iff hwell.graph.bounded old new).1 h.checked
  have hwell' := hwell.of_redirection h
  obtain ⟨fanouts, _, rfl⟩ := h.result
  exact Graph.value_redirect_rename hwell.graph hwell'.graph hne.symm hreach n

/-- A redirection changes neither the value of the replaced node nor that of the other one: no use
of the replaced node is below either of them. -/
theorem Redirection.value_eq (h : Redirection net old new after) (hwell : net.WellFormed)
    (v : Nat → Bool) : after.graph.value v old = net.graph.value v old ∧
      after.graph.value v new = net.graph.value v new := by
  obtain ⟨_, _, _, hreach⟩ :=
    (checkSubstitution_eq_ok_iff hwell.graph.bounded old new).1 h.checked
  have hwell' := hwell.of_redirection h
  obtain ⟨fanouts, _, rfl⟩ := h.result
  constructor
  · refine Graph.value_redirect_of_unread hwell.graph hwell'.graph fun child hchild hback => ?_
    exact hwell.graph.acyclic old (.head' hchild hback)
  · refine Graph.value_redirect_of_unread hwell.graph hwell'.graph fun child hchild hback => ?_
    exact hreach (.head hchild hback)

theorem Redirection.outputs (h : Redirection net old new after) :
    after.graph.outputs = net.graph.outputs.map (Graph.rename old new) := by
  obtain ⟨fanouts, _, rfl⟩ := h.result
  exact Graph.redirect_outputs _ _ _

end Network

open Network

/-- A substitution that is met overrides the value of the replaced node by that of the other one
wherever it is read: in every node but the replaced one itself, and in every answer of evaluation.
The two nodes keep their values, and if these are always equal, so do all outputs. -/
theorem Reachable.substitute_overrides {net after : Network} {old new : NodeId}
    {journal : List Entry} (h : Reachable net) (hfresh : net.scratch.Fresh)
    (hroom : net.scratch.traversal.toNat < UInt32.size - 2)
    (hmet : substitute old new net = ⟨.ok (), after, journal⟩) :
    (∀ v, after.graph.value v old = net.graph.value v old ∧
      after.graph.value v new = net.graph.value v new ∧
      ∀ n, n ≠ old →
        after.graph.value v n = net.graph.overridden v old (net.graph.value v new) n) ∧
    (∀ inputs : List Bool, inputs.length = net.graph.inputs.length →
      (evaluate inputs after).answer = .ok (net.graph.outputs.map
        (net.graph.overridden (Graph.assigned inputs) old
          (net.graph.value (Graph.assigned inputs) new)))) ∧
    ((∀ v, net.graph.value v old = net.graph.value v new) →
      (∀ inputs : List Bool, inputs.length = net.graph.inputs.length → ∃ results,
        (evaluate inputs net).answer = .ok results ∧
        (evaluate inputs after).answer = .ok results) ∧
      ∀ words : List Word, words.length = net.graph.inputs.length → ∃ results,
        (evaluateWords words net).answer = .ok results ∧
        (evaluateWords words after).answer = .ok results) := by
  have hwell := h.wellFormed
  have hredirected := redirection_of_substitute hmet
  have hwell' := hwell.of_redirection hredirected
  have hread := hredirected.value_rename hwell
  obtain ⟨hscratch, hinputs⟩ : after.scratch = net.scratch ∧
      after.graph.inputs = net.graph.inputs := by
    obtain ⟨fanouts, _, rfl⟩ := hredirected.result
    exact ⟨rfl, rfl⟩
  have hfresh' : after.scratch.Fresh := hscratch ▸ hfresh
  have hroom' : after.scratch.traversal.toNat + 1 < UInt32.size := by
    rw [hscratch]
    omega
  have houtputs : ∀ v, after.graph.outputs.map (after.graph.value v) =
      net.graph.outputs.map (net.graph.overridden v old (net.graph.value v new)) := by
    intro v
    rw [hredirected.outputs, List.map_map]
    exact List.map_congr_left fun n _ => hread v n
  have hevaluate : ∀ inputs : List Bool, inputs.length = net.graph.inputs.length →
      (evaluate inputs after).answer = .ok (net.graph.outputs.map
        (net.graph.overridden (Graph.assigned inputs) old
          (net.graph.value (Graph.assigned inputs) new))) := by
    intro inputs hlength
    rw [evaluate_answer hwell' hfresh' hroom' (by rw [hlength, hinputs]), houtputs]
  refine ⟨fun v => ?_, hevaluate, fun hsame => ?_⟩
  · obtain ⟨hold, hnew⟩ := hredirected.value_eq hwell v
    refine ⟨hold, hnew, fun n hn => ?_⟩
    rw [← hread v n, Graph.rename, if_neg hn]
  have hkept : ∀ v n, net.graph.overridden v old (net.graph.value v new) n =
      net.graph.value v n := by
    intro v n
    rw [← hsame v, Graph.overridden_value hwell.graph]
  refine ⟨fun inputs hlength => ⟨_, evaluate_answer hwell hfresh (by omega) hlength, ?_⟩,
    fun words hlength => ⟨_, evaluateWords_answer hwell hfresh (by omega) hlength, ?_⟩⟩
  · rw [hevaluate inputs hlength]
    exact congrArg Except.ok (List.map_congr_left fun n _ => hkept _ n)
  · rw [evaluateWords_answer hwell' hfresh' hroom' (by rw [hlength, hinputs]),
      hredirected.outputs, List.map_map]
    refine congrArg Except.ok (List.map_congr_left fun n _ => Word.eq_ofLanes fun p hp => ?_)
    rw [Function.comp_apply, Graph.valueWord_getLsbD words _ hp, hread, hkept]

/-- A gate that is read by others, twice by one of them, and drives an output as well, gives way to
an input. -/
theorem widened_substitute : widened.scratch.Fresh ∧
    widened.scratch.traversal.toNat < UInt32.size - 2 ∧
    (evaluate [false, false] widened).answer = .ok [true, true] ∧
    (substitute 4 3 widened).answer = .ok () ∧
    widened.graph.outputs.map (widened.graph.overridden (Graph.assigned [false, false]) 4
      (widened.graph.value (Graph.assigned [false, false]) 3)) = [false, false] := by
  have hfresh : widened.scratch.Fresh := by decide +kernel
  have hroom : widened.scratch.traversal.toNat < UInt32.size - 2 := by decide +kernel
  have hanswer : (substitute 4 3 widened).answer = .ok () := by decide +kernel
  have hmet : substitute 4 3 widened =
      ⟨.ok (), (substitute 4 3 widened).state, (substitute 4 3 widened).journal⟩ := by
    rw [← hanswer]
  obtain ⟨_, hevaluate, _⟩ := Reachable.substitute_overrides widened_reachable hfresh hroom hmet
  have hafter := hevaluate [false, false] (by decide +kernel)
  have hrun : (evaluate [false, false] (substitute 4 3 widened).state).answer =
      .ok [false, false] := by decide +kernel
  exact ⟨hfresh, hroom, by decide +kernel, hanswer, Except.ok.inj (hafter.symm.trans hrun)⟩

end LogicNet
