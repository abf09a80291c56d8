import LogicNet.Proofs.Rewiring
import LogicNet.Proofs.Terminals
import Mathlib.Algebra.BigOperators.Group.Finset.Basic
import Mathlib.Algebra.Group.Action.Defs
import Mathlib.Algebra.GroupWithZero.Nat

/-!
Conservation of uses. The counters of all nodes together hold one for each child of a gate and one
for each output, and the histogram of the counters accounts for all of them but what the constants
hold. A substitution only moves uses from one node to another, so it leaves the sum over the
histogram as it is, unless one of the two nodes is a constant.
-/

namespace LogicNet

/-- How often each of some numbers occurs. -/
def tally (numbers : List Nat) : Std.ExtTreeMap Nat Nat :=
  numbers.foldl (fun histogram number => histogram.insert number (histogram.getD number 0 + 1)) ∅

theorem tally_snoc (numbers : List Nat) (number : Nat) : tally (numbers ++ [number]) =
    (tally numbers).insert number ((tally numbers).getD number 0 + 1) := by
  simp [tally, List.foldl_append]

theorem getD_tally (numbers : List Nat) (number : Nat) :
    (tally numbers).getD number 0 = numbers.count number := by
  induction numbers using List.reverseRecOn with
  | nil => rfl
  | append_singleton numbers last ih =>
      rw [tally_snoc, Std.ExtTreeMap.getD_insert, List.count_append, List.count_singleton]
      by_cases hlast : last = number
      · subst hlast
        simp [ih]
      · simp [hlast, ih]

theorem mem_tally_iff (numbers : List Nat) (number : Nat) :
    number ∈ tally numbers ↔ number ∈ numbers := by
  induction numbers using List.reverseRecOn with
  | nil => simp [tally]
  | append_singleton numbers last ih =>
      rw [tally_snoc, Std.ExtTreeMap.mem_insert, Std.LawfulEqCmp.compare_eq_iff_eq, ih,
        List.mem_append, List.mem_singleton, or_comm, eq_comm]

theorem total_eq_sum (numbers : List Nat) : total numbers = numbers.sum := rfl

/-- A weighted sum over a histogram is the sum over what was counted. -/
theorem total_tally (weight : Nat → Nat) (numbers : List Nat) :
    total ((tally numbers).toList.map fun entry => weight entry.1 * entry.2) =
      total (numbers.map weight) := by
  have hentries : (tally numbers).toList.map (fun entry => weight entry.1 * entry.2) =
      (tally numbers).keys.map fun number => numbers.count number • weight number := by
    rw [← Std.ExtTreeMap.map_fst_toList_eq_keys, List.map_map]
    refine List.map_congr_left fun ⟨number, count⟩ hentry => ?_
    have hcount := Std.ExtTreeMap.mem_toList_iff_getElem?_eq_some.1 hentry
    have hnumber := getD_tally numbers number
    rw [Std.ExtTreeMap.getD_eq_getD_getElem?, hcount, Option.getD_some] at hnumber
    rw [hnumber, Function.comp_apply, smul_eq_mul, Nat.mul_comm]
  have hkeys : (tally numbers).keys.toFinset = numbers.toFinset := by
    ext number
    rw [List.mem_toFinset, List.mem_toFinset, Std.ExtTreeMap.mem_keys, mem_tally_iff]
  calc total ((tally numbers).toList.map fun entry => weight entry.1 * entry.2)
      = ∑ number ∈ (tally numbers).keys.toFinset, numbers.count number • weight number := by
        rw [hentries, List.sum_toFinset _ Std.ExtTreeMap.nodup_keys, total_eq_sum]
    _ = total (numbers.map weight) := by
        rw [hkeys, total_eq_sum, Finset.sum_list_map_count]

namespace Graph

variable {g : Graph}

namespace WellFormed

/-- A sum over all nodes, by their kinds. -/
theorem total_nodeIds (h : g.WellFormed) (f : NodeId → Nat) : total (g.nodeIds.map f) =
    f (constant false) + f (constant true) + total ((g.inputs ++ g.gates).map f) := by
  rw [total_eq_sum, ← (h.perm_nodeIds.map f).sum_eq, List.map_append, List.sum_append]
  rfl

/-- The constants apart, the nodes are the inputs and the gates. -/
theorem perm_counted (h : g.WellFormed) :
    (g.nodeIds.filter fun n => !isConstant n).Perm (g.inputs ++ g.gates) := by
  have hothers : (g.inputs ++ g.gates).filter (fun n => !isConstant n) = g.inputs ++ g.gates := by
    refine List.filter_eq_self.2 fun n hn => ?_
    have hlt : 1 < n := by
      rcases List.mem_append.1 hn with hinput | hgate
      · exact (h.input_lt n hinput).1
      · exact ((h.isGate_iff n).1 (mem_gates_iff.1 hgate).2).1
    simpa [isConstant] using hlt
  have hfiltered := h.perm_nodeIds.symm.filter fun n => !isConstant n
  rwa [List.filter_append, hothers] at hfiltered

/-- Every use is a use of some node. -/
theorem total_uses (h : g.WellFormed) : total (g.nodeIds.map g.uses) = g.references.length := by
  have hlt : ∀ n ∈ g.references, n ∈ g.nodeIds.toFinset := by
    intro n hn
    rw [List.mem_toFinset, nodeIds, List.mem_range]
    rw [references, flatMap_children_eq] at hn
    rcases List.mem_append.1 hn with hchild | houtput
    · obtain ⟨parent, _, hchild⟩ := List.mem_flatMap.1 hchild
      exact h.bounded parent n hchild
    · exact h.output_lt n houtput
  calc total (g.nodeIds.map g.uses)
      = ∑ n ∈ g.nodeIds.toFinset, g.uses n := (List.sum_toFinset _ List.nodup_range).symm
    _ = g.references.length := by
        simpa [uses] using Multiset.sum_count_eq_card (m := (g.references : Multiset NodeId)) hlt

/-- Uses are the children of the gates and the outputs. -/
theorem length_references (h : g.WellFormed) : g.references.length =
    total (g.gates.map fun n => (g.childrenOf n).length) + g.outputs.length := by
  have hchildless : ∀ n, g.isGate n = false → (g.childrenOf n).length = 0 := fun n hn => by
    rw [h.childless n hn, List.length_nil]
  have hinputs : total (g.inputs.map fun n => (g.childrenOf n).length) = 0 :=
    List.sum_eq_zero (List.forall_mem_map.2 fun n hn => hchildless n (h.isGate_input hn))
  calc g.references.length
      = total (g.nodeIds.map fun n => (g.childrenOf n).length) + g.outputs.length := by
        rw [references, List.length_append, flatMap_children_eq, List.length_flatMap, total_eq_sum]
    _ = total (g.gates.map fun n => (g.childrenOf n).length) + g.outputs.length := by
        rw [h.total_nodeIds, hchildless _ (g.isGate_constant false),
          hchildless _ (g.isGate_constant true), List.map_append, total_append, hinputs,
          Nat.zero_add, Nat.zero_add]

end WellFormed
end Graph

namespace Network

variable {net net' : Network}

/-- The nodes that a histogram is about. -/
def counted (net : Network) : List NodeId := net.graph.nodeIds.filter fun n => !Graph.isConstant n

/-- The uses that the histogram accounts for: each fanout as often as it is counted. -/
def countedUses (net : Network) : Nat :=
  total (net.fanoutHistogram.toList.map fun entry => entry.1 * entry.2)

theorem fanoutHistogram_eq_tally (net : Network) :
    net.fanoutHistogram = tally (net.counted.map net.fanouts.get) := by
  rw [tally, List.foldl_map]
  rfl

/-- The inputs and the gates are counted, each of them once. -/
theorem WellFormed.total_counts (h : net.WellFormed) :
    total (net.fanoutHistogram.toList.map (·.2)) =
      net.graph.inputs.length + net.graph.gateCount := by
  have hones := total_tally (fun _ => 1) (net.counted.map net.fanouts.get)
  simp only [Nat.one_mul, ← fanoutHistogram_eq_tally] at hones
  rw [hones, List.map_const', total_eq_sum, List.sum_replicate_nat, Nat.mul_one, List.length_map,
    counted, h.graph.perm_counted.length_eq, List.length_append, h.graph.gateCount_eq]

/-- Every use that the histogram does not account for is one of a constant. -/
theorem WellFormed.countedUses_add (h : net.WellFormed) :
    net.countedUses + (net.graph.uses (Graph.constant false) +
      net.graph.uses (Graph.constant true)) = net.graph.references.length := by
  have hget : net.fanouts.get = net.graph.uses := funext h.fanouts_get
  have hcounted : net.countedUses =
      total ((net.graph.inputs ++ net.graph.gates).map net.graph.uses) := by
    calc net.countedUses
        = total (net.counted.map net.graph.uses) := by
          rw [countedUses, fanoutHistogram_eq_tally, hget]
          exact (total_tally id _).trans (by rw [List.map_id])
      _ = total ((net.graph.inputs ++ net.graph.gates).map net.graph.uses) :=
          (h.graph.perm_counted.map _).sum_eq
  rw [hcounted, Nat.add_comm, ← h.graph.total_nodeIds, h.graph.total_uses]

/-- A redirection between nodes that are no constants keeps the uses that are accounted for. -/
theorem WellFormed.countedUses_redirection (h : net.WellFormed) {old new : NodeId}
    (hredirected : Redirection net old new net') (hold : Graph.isConstant old = false)
    (hnew : Graph.isConstant new = false) : net'.countedUses = net.countedUses := by
  obtain ⟨_, _, hne, _⟩ :=
    (checkSubstitution_eq_ok_iff h.graph.bounded old new).1 hredirected.checked
  have hgraph : net'.graph = net.graph.redirect old new := by
    obtain ⟨_, _, rfl⟩ := hredirected.result
    rfl
  have hconstant : ∀ value, net'.graph.uses (Graph.constant value) =
      net.graph.uses (Graph.constant value) := by
    intro value
    have hkept : ∀ n, Graph.isConstant n = false → Graph.constant value ≠ n := by
      rintro n hn rfl
      cases value <;> cases hn
    rw [hgraph, Graph.uses_redirect hne.symm, if_neg (hkept old hold), if_neg (hkept new hnew)]
  have hlength : net'.graph.references.length = net.graph.references.length := by
    rw [hgraph, Graph.redirect_references, List.length_map]
  have hbefore := h.countedUses_add
  have hafter := (h.of_redirection hredirected).countedUses_add
  rw [hconstant, hconstant, hlength] at hafter
  omega

end Network

open Network

/-- Uses are conserved. In every reachable network the histogram counts the inputs and the gates,
its fanouts and those of the constants are together as many as the children of the gates and the
outputs, and no substitution, be it met or refused, changes what the fanouts add up to, if neither
of its nodes is a constant. -/
theorem Reachable.uses_conserved {net : Network} (h : Reachable net) :
    total (net.fanoutHistogram.toList.map (·.2)) =
      net.graph.inputs.length + net.graph.gateCount ∧
    (∃ low high, net.fanout (Graph.constant false) = .ok low ∧
      net.fanout (Graph.constant true) = .ok high ∧
      net.countedUses + (low + high) =
        total (net.graph.gates.map fun n => (net.graph.childrenOf n).length) +
          net.graph.outputs.length) ∧
    ∀ old new, Graph.isConstant old = false → Graph.isConstant new = false →
      (substitute old new net).state.countedUses = net.countedUses := by
  have hwell := h.wellFormed
  refine ⟨hwell.total_counts, ⟨_, _, fanout_of_lt (hwell.graph.constant_lt false),
    fanout_of_lt (hwell.graph.constant_lt true), ?_⟩, fun old new hold hnew => ?_⟩
  · rw [hwell.fanouts_get, hwell.fanouts_get, hwell.countedUses_add,
      hwell.graph.length_references]
  · rcases hwell.substitute_cases old new with ⟨hsame, _⟩ | ⟨hredirected, _⟩
    · rw [hsame]
    · exact hwell.countedUses_redirection hredirected hold hnew

/-- A script in which both constants are used, one of them in place of a register output. -/
def grounding : Action Network Nat := do
  let a ← addPrimaryInput
  let state ← addRegisterOutput
  let both ← gate .and [a, state]
  let tied ← gate .or [both, Graph.constant false]
  let top ← gate .xor [tied, both]
  let _ ← addPrimaryOutput tied
  let _ ← Action.attempt (substitute both top)
  substitute state (Graph.constant true)
  addRegisterInput top .zero

theorem grounding_script : Script grounding :=
  .next (.call .addPrimaryInput) fun a => .next (.call .addRegisterOutput) fun state =>
    .next (.call (.gate .and [a, state])) fun both =>
    .next (.call (.gate .or [both, Graph.constant false])) fun tied =>
    .next (.call (.gate .xor [tied, both])) fun top =>
    .next (.call (.addPrimaryOutput tied)) fun _ =>
    .next (.attempt (.call (.substitute both top))) fun _ =>
    .next (.call (.substitute state (Graph.constant true))) fun _ =>
    .call (.addRegisterInput top .zero)

/-- The network that the script makes. -/
def grounded : Network := (grounding (Network.new .sharing)).state

theorem grounded_reachable : Reachable grounded := .run (.new .sharing) grounding_script

/-- Of eight uses two are of constants. The other six are as many after a gate has given way to an
input, and fewer after an input has given way to a constant. -/
theorem grounded_uses_conserved : Reachable grounded ∧
    grounded.fanoutHistogram.toList = [(0, 1), (1, 2), (2, 2)] ∧
    grounded.countedUses + (1 + 1) =
      total (grounded.graph.gates.map fun n => (grounded.graph.childrenOf n).length) +
        grounded.graph.outputs.length ∧
    grounded.graph.inputs.length + grounded.graph.gateCount = 5 ∧
    (substitute 4 2 grounded).answer = .ok () ∧
    (substitute 4 2 grounded).state.countedUses = grounded.countedUses ∧
    (substitute 2 1 grounded).state.countedUses < grounded.countedUses := by
  obtain ⟨hcounts, ⟨low, high, hlow, hhigh, hsum⟩, hkept⟩ :=
    Reachable.uses_conserved grounded_reachable
  have hfalse : grounded.fanout (Graph.constant false) = .ok 1 := by decide +kernel
  have htrue : grounded.fanout (Graph.constant true) = .ok 1 := by decide +kernel
  have hentries : grounded.fanoutHistogram.toList = [(0, 1), (1, 2), (2, 2)] := by decide +kernel
  cases hfalse.symm.trans hlow
  cases htrue.symm.trans hhigh
  rw [hentries] at hcounts
  exact ⟨grounded_reachable, hentries, hsum, hcounts.symm, by decide +kernel,
    hkept 4 2 rfl rfl, by decide +kernel⟩

end LogicNet
