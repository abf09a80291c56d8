import LogicNet.Proofs.Copying

/-!
What calls can rely on in every reachable network, whatever was refused on the way to it: the
network passes its own check, no node reaches itself, and a substitution is met exactly if it closes
no cycle. The one exception to the last would be a counter that gets full, which takes 2^32 uses.
-/

namespace LogicNet

open Network

/-- A script that substitutes a later node into an earlier one, after a substitution that would have
closed a cycle. -/
def detour : Action Network Nat := do
  let a ← addPrimaryInput
  let b ← addPrimaryInput
  let state ← addRegisterOutput
  let below ← gate .and [a, b]
  let above ← gate .not [below]
  let _ ← addPrimaryOutput above
  let later ← gate .or [a, state]
  let _ ← Action.attempt (substitute below above)
  substitute below later
  addRegisterInput above .one

theorem detour_script : Script detour :=
  .next (.call .addPrimaryInput) fun a => .next (.call .addPrimaryInput) fun b =>
    .next (.call .addRegisterOutput) fun state => .next (.call (.gate .and [a, b])) fun below =>
    .next (.call (.gate .not [below])) fun above => .next (.call (.addPrimaryOutput above)) fun _ =>
    .next (.call (.gate .or [a, state])) fun later =>
    .next (.attempt (.call (.substitute below above))) fun _ =>
    .next (.call (.substitute below later)) fun _ => .call (.addRegisterInput above .one)

/-- The network that the script makes. -/
def detoured : Network := (detour (Network.new .sharing)).state

theorem detoured_reachable : Reachable detoured := .run (.new .sharing) detour_script

theorem uses_eq_total (g : Graph) (n : NodeId) :
    g.uses n =
      total (g.nodes.toList.map fun node => node.children.count n) + g.outputs.count n := by
  rw [Graph.uses, Graph.references, List.count_append, List.count_flatMap]
  rfl

/-- Every reachable network is consistent: it passes its own check, its names belong to something,
its registers are paired, and the counter of a node is the number of its occurrences in lists of
children and among the outputs. -/
theorem Reachable.consistent {net : Network} (h : Reachable net) :
    net.checkInvariants = .ok () ∧
    (∀ (n : NodeId) (node : Node), net.graph.nodes[n]? = some node →
      node.cover < net.graph.covers.size ∧ ∀ child ∈ node.children, child < net.graph.size) ∧
    (∀ n ∈ net.graph.outputs, n < net.graph.size) ∧
    net.graph.resets.length = net.graph.registerInputs.length ∧
    net.graph.registerInputs.length ≤ net.graph.registerOutputs.length ∧
    ∀ n < net.graph.size, net.fanout n = .ok
      (total (net.graph.nodes.toList.map fun node => node.children.count n) +
        net.graph.outputs.count n) := by
  have hwell := h.wellFormed
  refine ⟨hwell.checkInvariants_eq_ok, fun n node hn => ?_, hwell.graph.output_lt, ?_, ?_,
    fun n hn => ?_⟩
  · refine ⟨hwell.graph.cover_lt n node hn, fun child hchild => ?_⟩
    exact hwell.graph.bounded n child (by rwa [Graph.childrenOf_eq hn])
  · exact hwell.graph.matched.registerInputs_length.symm
  · rw [hwell.graph.matched.registerInputs_length]
    exact hwell.graph.paired
  · rw [← uses_eq_total, ← hwell.fanouts_get, fanout, (check_eq_ok_iff _ _).2 hn]
    rfl

theorem detoured_consistent : Reachable detoured ∧ detoured.checkInvariants = .ok () ∧
    detoured.fanout 5 = .ok 0 ∧ detoured.fanout 6 = .ok 2 := by
  obtain ⟨hcheck, _, _, _, _, hfanout⟩ := Reachable.consistent detoured_reachable
  refine ⟨detoured_reachable, hcheck, ?_, ?_⟩
  · rw [hfanout 5 (by decide +kernel)]
    decide +kernel
  · rw [hfanout 6 (by decide +kernel)]
    decide +kernel

theorem count_add_count_le {a b : NodeId} (hne : a ≠ b) (ns : List NodeId) :
    ns.count a + ns.count b ≤ ns.length := by
  induction ns with
  | nil => simp
  | cons n rest ih =>
      simp only [List.count_cons, List.length_cons, beq_iff_eq]
      by_cases ha : n = a
      · have hb : n ≠ b := fun hb => hne (ha.symm.trans hb)
        rw [if_pos ha, if_neg hb]
        omega
      · rw [if_neg ha]
        split <;> omega

/-- No counter gets full by a substitution if all uses together are fewer than 2^32. -/
theorem WellFormed.moveUses_isOk {net : Network} (h : net.WellFormed) {old new : NodeId}
    (hnew : new < net.graph.size) (hne : old ≠ new)
    (hroom : net.graph.references.length < UInt32.size) :
    ∃ fanouts, net.moveUses old new = .ok fanouts := by
  refine ⟨_, (moveUses_eq_ok_iff (h.fanouts_size ▸ hnew)).2 ⟨?_, rfl⟩⟩
  have hsum := count_add_count_le hne net.graph.references
  rw [h.fanouts_get]
  simp only [Graph.uses]
  omega

/-- In every reachable network no node reaches itself, and of all substitutions by and of its nodes
exactly those that keep it so are met. -/
theorem Reachable.substitute_eq_ok_iff {net : Network} (h : Reachable net) :
    Acyclic net.graph.childrenOf ∧
    (net.graph.references.length < UInt32.size → ∀ old new : NodeId,
      (substitute old new net).answer = .ok () ↔
        old < net.graph.size ∧ new < net.graph.size ∧ old ≠ new ∧
          Acyclic (renamed net.graph.childrenOf old new)) := by
  have hwell := h.wellFormed
  refine ⟨hwell.graph.acyclic, fun hroom old new => ?_⟩
  have hchecked := checkSubstitution_eq_ok_iff hwell.graph.bounded old new
  have hacyclic : old ≠ new → (Acyclic (renamed net.graph.childrenOf old new) ↔
      ¬ Reaches net.graph.childrenOf new old) :=
    fun hne => acyclic_renamed_iff hwell.graph.acyclic hne.symm
  constructor
  · intro hanswer
    rcases substitute_run old new net with ⟨_, fault, hfault, _⟩ | ⟨hredirected, _⟩
    · rw [hfault] at hanswer
      cases hanswer
    · obtain ⟨hold, hnew, hne, hreach⟩ := hchecked.1 hredirected.checked
      exact ⟨hold, hnew, hne, (hacyclic hne).2 hreach⟩
  · rintro ⟨hold, hnew, hne, hrenamed⟩
    rcases substitute_run old new net with ⟨_, fault, _, hrefused | hfull⟩ | ⟨hredirected, hanswer⟩
    · rw [hchecked.2 ⟨hold, hnew, hne, (hacyclic hne).1 hrenamed⟩] at hrefused
      cases hrefused
    · obtain ⟨fanouts, hmove⟩ := WellFormed.moveUses_isOk hwell hnew hne hroom
      rw [hmove] at hfull
      cases hfull
    · rw [hanswer, (hwell.of_redirection hredirected).checkInvariants_eq_ok]
      split <;> rfl

theorem detoured_substitute : detoured.graph.references.length < UInt32.size ∧
    Acyclic (renamed detoured.graph.childrenOf 6 7) ∧
    ¬ Acyclic (renamed detoured.graph.childrenOf 7 6) := by
  have hroom : detoured.graph.references.length < UInt32.size := by decide +kernel
  have hiff := (Reachable.substitute_eq_ok_iff detoured_reachable).2 hroom
  refine ⟨hroom, ((hiff 6 7).1 (by decide +kernel)).2.2.2, fun hacyclic => ?_⟩
  have hrefused : (substitute 7 6 detoured).answer ≠ .ok () := by decide +kernel
  exact hrefused ((hiff 7 6).2 ⟨by decide +kernel, by decide +kernel, by decide, hacyclic⟩)

end LogicNet
