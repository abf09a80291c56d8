import LogicNet.Proofs.Parallel
import Mathlib.Data.List.Induction

/-!
Sharing as a quotient. A program is run on a network without sharing and on one with sharing. The
same calls are met, covers get the same names, and the nodes of the steps of the first run go to those
of the steps of the second one by a map of the nodes: the first network folds onto the second one. So
sharing never makes more nodes, and it does not change what the outputs compute.
-/

namespace LogicNet

open Network

/-- The second call came to what the first one came to, by a map of the nodes: the same number of
steps, the node of each being where that of the first goes, and an answer or none. -/
structure Made.Sent (f : NodeId → NodeId) (made made' : Made) : Prop where
  nodes : made'.nodes = made.nodes.map f
  answer : InStep (fun answer answer' => answer' = answer.map f) made.answer made'.answer

/-- The steps of runs whose calls go to each other. -/
theorem Made.Sent.map_nodes {f : NodeId → NodeId} {made made' : List Made}
    (h : List.Forall₂ (Made.Sent f) made made') :
    made'.map Made.nodes = (made.map Made.nodes).map (List.map f) := by
  induction h with
  | nil => rfl
  | cons hfirst _ ih => rw [List.map_cons, hfirst.nodes, ih, List.map_cons, List.map_cons]

/-- Both calls are made of nodes of the networks, and those of the first go to those of the second. -/
structure Made.Go (f : NodeId → NodeId) (s : Network) (made made' : Made) : Prop where
  nodes : AllGo f s made.nodes made'.nodes
  answer : InStep (AnswersGo f s) made.answer made'.answer

namespace Made.Go

variable {f f' : NodeId → NodeId} {s s' : Network} {made made' : Made}

theorem sent (h : Made.Go f s made made') : Made.Sent f made made' :=
  ⟨h.nodes.2, h.answer.mono fun _ _ hgo => hgo.2⟩

theorem prolong (h : Made.Go f s made made') (hprolongs : Prolongs f s f' s') :
    Made.Go f' s' made made' :=
  ⟨h.nodes.prolong hprolongs, h.answer.mono fun _ _ hgo => hgo.prolong hprolongs⟩

theorem signals (h : Made.Go f s made made') : AllGo f s made.signals made'.signals := by
  obtain ⟨nodes, answer⟩ := made
  obtain ⟨nodes', answer'⟩ := made'
  obtain ⟨hnodes, hanswer⟩ := h
  cases hanswer with
  | refused fault fault' => exact hnodes
  | answered hgo => exact hnodes.append hgo.nodes

theorem allSignals {before before' : List Made} (h : List.Forall₂ (Made.Go f s) before before') :
    AllGo f s (before.flatMap Made.signals) (before'.flatMap Made.signals) := by
  induction h with
  | nil => exact .nil f s
  | cons hfirst _ ih => exact hfirst.signals.append ih

end Made.Go

namespace Progress

/-- The first run, without sharing, has got as far as the second one, with sharing. -/
structure SideBySide (f : NodeId → NodeId) (plain sharing : Progress) : Prop where
  network : Network.Folded f plain.network sharing.network
  made : List.Forall₂ (Made.Go f plain.network) plain.made sharing.made
  covered : ∀ n < plain.network.graph.size, n ≤ 1 ∨ ∃ made ∈ plain.made, n ∈ made.nodes

namespace SideBySide

variable {f : NodeId → NodeId} {plain sharing : Progress}

theorem new : SideBySide id (run .plain []) (run .sharing []) where
  network := .new
  made := .nil
  covered _ hn := Or.inl (Nat.le_of_lt_succ hn)

theorem signals (h : SideBySide f plain sharing) :
    AllGo f plain.network plain.signals sharing.signals :=
  AllGo.append (.cons (h.network.goes_constant false) (.singleton (h.network.goes_constant true)))
    (Made.Go.allSignals h.made)

theorem next (h : SideBySide f plain sharing) (call : Construction)
    (hfits : (plain.next call).Fits) :
    ∃ f', SideBySide f' (plain.next call) (sharing.next call) := by
  obtain ⟨f', hnetwork, hprolongs, hsteps, hnew, hanswer⟩ :=
    perform_together h.signals call h.network
      (hfits.room _ (List.mem_append_right _ List.mem_cons_self)) hfits.uses_lt
  refine ⟨f', hnetwork, ?_, fun n hn => ?_⟩
  · refine List.rel_append ?_ (.cons ⟨hsteps, hanswer⟩ .nil)
    exact h.made.imp fun _ _ hgo => hgo.prolong hprolongs
  · rcases hnew n hn with hn | hn
    · refine (h.covered n hn).imp_right fun ⟨made, hmade, hmem⟩ => ?_
      exact ⟨made, List.mem_append_left _ hmade, hmem⟩
    · exact Or.inr ⟨_, List.mem_append_right _ List.mem_cons_self, hn⟩

end SideBySide

/-- What fits after a call has fitted before it. -/
theorem Fits.of_next {progress : Progress} {call : Construction} (h : (progress.next call).Fits) :
    progress.Fits where
  uses_lt := Nat.lt_of_le_of_lt
    (references_le_of_extensions (call.perform_moves _ progress.network)) h.uses_lt
  room made hmade := h.room made (List.mem_append_left _ hmade)

end Progress

/-- Every program, run without sharing, folds onto the same program run with sharing. -/
theorem run_folded {program : List Construction} (hfits : (run .plain program).Fits) :
    ∃ f, Progress.SideBySide f (run .plain program) (run .sharing program) := by
  induction program using List.reverseRecOn with
  | nil => exact ⟨id, .new⟩
  | append_singleton program call ih =>
      rw [run_snoc] at hfits ⊢
      rw [run_snoc]
      obtain ⟨f, hf⟩ := ih hfits.of_next
      exact hf.next call hfits

/-- Sharing is a quotient. If no counter gets full, a program meets the same calls on a network
without sharing and on one with sharing; the nodes of the steps of the first run are all of its nodes
but the constants, and sending each to the node of the same step of the second run is a map that the
first graph folds onto the second one by. So the second network has no more nodes, and evaluation
answers the same on both. -/
theorem run_folds {program : List Construction} (hfits : (run .plain program).Fits) :
    ∃ f, Graph.Folds f (run .plain program).network.graph (run .sharing program).network.graph ∧
      List.Forall₂ (Made.Sent f) (run .plain program).made (run .sharing program).made ∧
      (∀ n < (run .plain program).network.graph.size,
        n ≤ 1 ∨ ∃ made ∈ (run .plain program).made, n ∈ made.nodes) ∧
      (run .sharing program).network.graph.size ≤ (run .plain program).network.graph.size ∧
      ∀ inputs, inputs.length = (run .plain program).network.graph.inputs.length →
        ∃ outputs, (evaluate inputs (run .plain program).network).answer = .ok outputs ∧
          (evaluate inputs (run .sharing program).network).answer = .ok outputs := by
  obtain ⟨f, hnetwork, hmade, hcovered⟩ := run_folded hfits
  have hfolds := hnetwork.folds
  refine ⟨f, hfolds, hmade.imp fun _ _ hgo => hgo.sent, hcovered, hfolds.size_le,
    fun inputs hinputs => ?_⟩
  refine ⟨_, hnetwork.plain_kept.evaluate_answer hinputs, ?_⟩
  rw [hnetwork.sharing_kept.evaluate_answer (by rw [hfolds.inputs, List.length_map, hinputs]),
    hfolds.map_value hnetwork.plain_kept.wellFormed.graph hnetwork.sharing_kept.wellFormed.graph
      hinputs]

/-- A program that asks for one gate twice, the second time inside a reduction, uses both of them,
and names a step that there is not. -/
def repeating : List Construction :=
  [.primaryInput, .registerOutput, .gate .and [2, 4],
    .reduction .linear none [] [.gate .and [0, 1]] 2 [2, 4, 2], .gate .xor [6, 8], .gate .not [40],
    .primaryOutput 11, .registerInput 9 .one]

theorem repeating_folds : (run .plain repeating).Fits ∧
    (run .plain repeating).network.graph.size = 8 ∧
    (run .sharing repeating).network.graph.size = 7 ∧
    ∃ f : NodeId → NodeId, f 4 = 4 ∧ f 5 = 4 ∧ f 6 = 5 ∧ f 7 = 6 ∧
      Graph.Folds f (run .plain repeating).network.graph (run .sharing repeating).network.graph := by
  have hfits : (run .plain repeating).Fits := ⟨by decide +kernel, by decide +kernel⟩
  have hplain : (run .plain repeating).made.map Made.nodes =
      [[2], [3], [4], [5, 6], [7], [], [], []] := by decide +kernel
  have hsharing : (run .sharing repeating).made.map Made.nodes =
      [[2], [3], [4], [4, 5], [6], [], [], []] := by decide +kernel
  obtain ⟨f, hfolds, hmade, _⟩ := run_folds hfits
  have hnodes := Made.Sent.map_nodes hmade
  rw [hplain, hsharing] at hnodes
  simp only [List.map_cons, List.map_nil, List.cons.injEq, and_true] at hnodes
  obtain ⟨_, _, hfour, ⟨hfive, hsix⟩, hseven⟩ := hnodes
  exact ⟨hfits, by decide +kernel, by decide +kernel, f, hfour.symm, hfive.symm, hsix.symm,
    hseven.symm, hfolds⟩

end LogicNet
