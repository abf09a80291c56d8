import LogicNet.Network.Analysis
import LogicNet.Proofs.Value
import LogicNet.Proofs.Walk

/-!
Simulation computes the values of nodes. Settling nodes along an order in which children come first
gives each of them the value that belongs to those of its children; from the outputs on, the walk
provides such an order. So evaluation answers the values of the outputs.
-/

namespace LogicNet
namespace Graph

variable {g : Graph} {α : Type}

/-- What a node is settled to, given the values of the nodes below. -/
def settled (g : Graph) (constant : Bool → α) (gate : NodeId → List α → Except Fault α)
    (inputs : List α) (below : NodeId → α) (n : NodeId) : Except Fault α :=
  if isConstant n then pure (constant (constantValue n))
  else match g.inputPositions[n]? with
    | some position => pure (inputs.getD position (constant false))
    | none => gate n ((g.childrenOf n).map below)

theorem settled_congr {constant : Bool → α} {gate : NodeId → List α → Except Fault α}
    {inputs : List α} {below below' : NodeId → α} {n : NodeId}
    (h : ∀ child ∈ g.childrenOf n, below child = below' child) :
    g.settled constant gate inputs below n = g.settled constant gate inputs below' n := by
  unfold settled
  rw [List.map_congr_left h]

/-- Settles a node from the values of the nodes below. -/
def settleNode (g : Graph) (constant : Bool → α) (gate : NodeId → List α → Except Fault α)
    (inputs : List α) (values : Array α) (n : NodeId) : Except Fault (Array α) := do
  let value ← g.settled constant gate inputs (values.getD · (constant false)) n
  return values.setIfInBounds n value

theorem settle_eq_foldlM (constant : Bool → α) (gate : NodeId → List α → Except Fault α)
    (inputs : List α) (order : List NodeId) :
    g.settle constant gate inputs order = order.foldlM (g.settleNode constant gate inputs)
      (Array.replicate g.size (constant false)) := by
  unfold settle
  congr 1
  funext values n
  unfold settleNode settled
  cases isConstant n with
  | true => rfl
  | false => cases g.inputPositions[n]? <;> rfl

section Settling

variable {constant : Bool → α} {gate : NodeId → List α → Except Fault α} {inputs : List α}
  {f : NodeId → α} {done order : List NodeId} {values : Array α}

/-- A node whose children have their values gets its own. -/
theorem settleNode_eq_ok {n : NodeId} (hn : n < values.size)
    (hf : g.settled constant gate inputs f n = .ok (f n))
    (hchildren : ∀ child ∈ g.childrenOf n, child ∈ done)
    (hdone : ∀ m ∈ done, values.getD m (constant false) = f m) :
    ∃ values', g.settleNode constant gate inputs values n = .ok values' ∧
      values'.size = values.size ∧
      ∀ m ∈ done ++ [n], values'.getD m (constant false) = f m := by
  have hvalue : g.settled constant gate inputs (values.getD · (constant false)) n = .ok (f n) := by
    rw [settled_congr fun child hchild => hdone child (hchildren child hchild), hf]
  refine ⟨values.setIfInBounds n (f n), ?_, Array.size_setIfInBounds, fun m hm => ?_⟩
  · unfold settleNode
    rw [hvalue]
    rfl
  · rw [getD_setIfInBounds _ _ _ hn]
    split
    · next heq => rw [heq]
    · next hne =>
        rcases List.mem_append.1 hm with hm | hm
        · exact hdone m hm
        · exact absurd (List.mem_singleton.1 hm) hne

theorem settleNodes_eq_ok (hordered : Postordered g.childrenOf order)
    (hf : ∀ n ∈ order, g.settled constant gate inputs f n = .ok (f n)) {rest : List NodeId}
    (hsplit : order = done ++ rest) (hlt : ∀ n ∈ rest, n < values.size)
    (hdone : ∀ n ∈ done, values.getD n (constant false) = f n) :
    ∃ values', rest.foldlM (g.settleNode constant gate inputs) values = .ok values' ∧
      ∀ n ∈ order, values'.getD n (constant false) = f n := by
  induction rest generalizing done values with
  | nil =>
      rw [List.append_nil] at hsplit
      exact ⟨values, rfl, hsplit ▸ hdone⟩
  | cons n rest ih =>
      have hn : n ∈ order := by rw [hsplit]; simp
      obtain ⟨middle, hstep, hsize, hmiddle⟩ := settleNode_eq_ok
        (hlt n List.mem_cons_self) (hf n hn) (hordered done n rest hsplit).2 hdone
      obtain ⟨values', hrest, hvalues'⟩ := ih
        (by rw [hsplit, List.append_assoc, List.singleton_append])
        (fun m hm => hsize ▸ hlt m (List.mem_cons_of_mem n hm)) hmiddle
      refine ⟨values', ?_, hvalues'⟩
      rw [List.foldlM_cons, hstep]
      exact hrest

/-- Settling along an order in which children come first gives the values that agree with those of
the children, whatever kind of value is settled. -/
theorem settle_eq_ok (f : NodeId → α) (hordered : Postordered g.childrenOf order)
    (hlt : ∀ n ∈ order, n < g.size)
    (hf : ∀ n ∈ order, g.settled constant gate inputs f n = .ok (f n)) :
    ∃ values, g.settle constant gate inputs order = .ok values ∧
      ∀ n ∈ order, values.getD n (constant false) = f n := by
  rw [settle_eq_foldlM]
  refine settleNodes_eq_ok hordered hf (List.nil_append order).symm (fun n hn => ?_) (by simp)
  rw [Array.size_replicate]
  exact hlt n hn

end Settling

/-- The assignment that a list of values makes to the inputs, by position. -/
def assigned (inputs : List Bool) (position : Nat) : Bool := inputs.getD position false

/-- A gate computes its value from those of its children, whose number is right. -/
theorem compute_eq_value (h : g.WellFormed) {v : Nat → Bool} {n : Nat} (hn : n < g.size)
    (hgate : g.isGate n = true) :
    g.compute n ((g.childrenOf n).map (g.value v)) = .ok (g.value v n) := by
  obtain ⟨node, cover, hnode, hcover⟩ := h.exists_cover hn
  have harity := (h.arity n hn hgate).2
  rw [value_gate h hnode hcover hgate]
  rw [childrenOf_eq hnode] at harity ⊢
  simp only [compute, if_neg (Nat.not_lt.2 harity), hgate, children,
    (node_eq_ok_iff g n node).2 hnode, nodeCover, (cover_eq_ok_iff g node.cover cover).2 hcover,
    List.length_map, Bind.bind, Except.bind, pure, Except.pure, ne_eq, not_true_eq_false, if_true,
    if_false]

theorem settled_eq_value (h : g.WellFormed) (inputs : List Bool) {n : Nat} (hn : n < g.size) :
    g.settled id g.compute inputs (g.value (assigned inputs)) n =
      .ok (g.value (assigned inputs) n) := by
  have hvalue := value_eq h (assigned inputs) n
  unfold nodeValue at hvalue
  unfold settled
  rw [h.inputPositions_eq]
  cases hconstant : isConstant n with
  | true =>
      rw [hvalue, hconstant]
      rfl
  | false =>
      cases hposition : g.position? .input n with
      | some position =>
          rw [hvalue, hconstant, hposition]
          rfl
      | none =>
          have hgate : g.isGate n = true := by
            refine (h.isGate_iff n).2 ⟨?_, position?_input_eq_none_iff.1 hposition⟩
            simpa [isConstant] using hconstant
          exact compute_eq_value h hn hgate

/-- The walk from the outputs gives an order along which the nodes can be settled, and the outputs
stand in it. -/
theorem postorderOfOutputs_settle {α : Type} {constant : Bool → α}
    {gate : NodeId → List α → Except Fault α} {inputs : List α} (h : g.WellFormed)
    (f : NodeId → α)
    (hf : ∀ n < g.size, g.settled constant gate inputs f n = .ok (f n)) {s : Scratch}
    (hsize : s.marks.size = g.size) (hfresh : s.Fresh)
    (hroom : s.traversal.toNat + 1 < UInt32.size) :
    ∃ order values, (g.postorderOfOutputs s).answer = .ok order ∧
      g.settle constant gate inputs order = .ok values ∧
      g.outputs.map (values.getD · (constant false)) = g.outputs.map f := by
  obtain ⟨order, _, horder, _, _, _, hordered, hmem⟩ :=
    postorder_run h h.output_lt hsize hfresh hroom
  have hlt : ∀ n ∈ order, n < g.size := by
    intro n hn
    obtain ⟨start, hstart, hreach⟩ := (hmem n).1 hn
    exact h.lt_size_of_reaches (h.output_lt start hstart) hreach
  obtain ⟨values, hsettle, hvalues⟩ := settle_eq_ok f hordered hlt fun n hn => hf n (hlt n hn)
  exact ⟨order, values, horder, hsettle,
    List.map_congr_left fun n hn => hvalues n ((hmem n).2 ⟨n, hn, .refl⟩)⟩

/-- Evaluation answers the values of the outputs, and walks from them. -/
theorem evaluate_run (h : g.WellFormed) {inputs : List Bool}
    (hinputs : inputs.length = g.inputs.length) {s : Scratch} (hsize : s.marks.size = g.size)
    (hfresh : s.Fresh) (hroom : s.traversal.toNat + 1 < UInt32.size) :
    (g.evaluate inputs s).answer = .ok (g.outputs.map (g.value (assigned inputs))) ∧
      (g.evaluate inputs s).state = (g.postorderOfOutputs s).state := by
  obtain ⟨order, values, hwalk, hsettle, houtputs⟩ := postorderOfOutputs_settle h
    (g.value (assigned inputs)) (fun n hn => settled_eq_value h inputs hn) hsize hfresh hroom
  have houtputs' : g.outputs.map (values.getD · false) =
      g.outputs.map (g.value (assigned inputs)) := houtputs
  unfold evaluate
  rw [Action.require_bind_run hinputs, Action.bind_answer_of_ok hwalk,
    Action.bind_state_of_ok hwalk]
  simp only [hsettle, Action.lift_ok_bind_run, Action.report_bind_run, Action.pure_run, houtputs',
    and_self]

end Graph

theorem Network.evaluate_answer {net : Network} (hwell : net.WellFormed)
    (hfresh : net.scratch.Fresh) (hroom : net.scratch.traversal.toNat + 1 < UInt32.size)
    {inputs : List Bool} (hinputs : inputs.length = net.graph.inputs.length) :
    (evaluate inputs net).answer =
      .ok (net.graph.outputs.map (net.graph.value (Graph.assigned inputs))) :=
  (Graph.evaluate_run hwell.graph hinputs hwell.marks_size hfresh hroom).1

end LogicNet
