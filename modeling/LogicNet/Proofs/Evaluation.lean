import LogicNet.Proofs.Copying
import LogicNet.Proofs.Lanes
import LogicNet.Proofs.Simulation

/-!
What evaluation answers. The inputs determine one value for each node: that of a constant, that of
the input, or what the cover of a gate makes of the pattern that holds the values of its children.
In every reachable network evaluation answers these values of the outputs, and evaluation on words
answers them lane by lane.
-/

namespace LogicNet

/-- The word with the given value in each lane. -/
def Word.ofLanes (lane : Nat → Bool) : Word :=
  (BitVec.ofBoolListLE ((List.range 64).map lane)).setWidth 64

theorem Word.ofLanes_getLsbD (lane : Nat → Bool) {p : Nat} (hp : p < 64) :
    (ofLanes lane).getLsbD p = lane p := by
  rw [ofLanes, BitVec.getLsbD_setWidth, BitVec.getLsbD_ofBoolListLE, decide_eq_true hp,
    Bool.true_and, List.getD_eq_getElem?_getD, List.getElem?_map, List.getElem?_range hp]
  rfl

/-- A word is the one of its lanes. -/
theorem Word.eq_ofLanes {word : Word} {lane : Nat → Bool}
    (h : ∀ p < 64, word.getLsbD p = lane p) : word = ofLanes lane :=
  BitVec.eq_of_getLsbD_eq fun p hp => (h p hp).trans (ofLanes_getLsbD lane hp).symm

namespace Graph

variable {g : Graph}

theorem constantWord_getLsbD (value : Bool) {p : Nat} (hp : p < 64) :
    (constantWord value).getLsbD p = value := by
  cases value with
  | false => simp [constantWord]
  | true => rw [constantWord, if_pos rfl, BitVec.getLsbD_allOnes, decide_eq_true hp]

theorem getD_constantWord_getLsbD (words : List Word) (position p : Nat) (hp : p < 64) :
    (words.getD position (constantWord false)).getLsbD p =
      assigned (words.map (·.getLsbD p)) position := by
  rw [assigned, List.getD_eq_getElem?_getD, List.getD_eq_getElem?_getD, List.getElem?_map]
  cases words[position]? with
  | none => exact constantWord_getLsbD false hp
  | some word => rfl

/-- The values of a node under the assignments in the lanes of words. -/
def valueWord (g : Graph) (words : List Word) (n : NodeId) : Word :=
  Word.ofLanes fun p => g.value (assigned (words.map (·.getLsbD p))) n

theorem valueWord_getLsbD (words : List Word) (n : NodeId) {p : Nat} (hp : p < 64) :
    (g.valueWord words n).getLsbD p = g.value (assigned (words.map (·.getLsbD p))) n :=
  Word.ofLanes_getLsbD _ hp

theorem map_valueWord_getLsbD (words : List Word) (ns : List NodeId) {p : Nat} (hp : p < 64) :
    (ns.map (g.valueWord words)).map (·.getLsbD p) =
      ns.map (g.value (assigned (words.map (·.getLsbD p)))) := by
  rw [List.map_map]
  exact List.map_congr_left fun n _ => valueWord_getLsbD words n hp

/-- A gate computes its word from those of its children, whose number is right. -/
theorem computeWords_eq_valueWord (h : g.WellFormed) (words : List Word) {n : Nat}
    (hn : n < g.size) (hgate : g.isGate n = true) :
    g.computeWords n ((g.childrenOf n).map (g.valueWord words)) = .ok (g.valueWord words n) := by
  obtain ⟨node, cover, hnode, hcover⟩ := h.exists_cover hn
  have harity := (h.arity n hn hgate).2
  rw [childrenOf_eq hnode] at harity ⊢
  have hlanes : cover.lanes (node.children.map (g.valueWord words)) = g.valueWord words n := by
    refine Word.eq_ofLanes fun p hp => ?_
    rw [cover.lanes_getLsbD (by rwa [List.length_map]) hp, map_valueWord_getLsbD words _ hp,
      value_gate h hnode hcover hgate]
  simp only [computeWords, children, (node_eq_ok_iff g n node).2 hnode, nodeCover,
    (cover_eq_ok_iff g node.cover cover).2 hcover, List.length_map, Bind.bind, Except.bind, pure,
    Except.pure, ne_eq, not_true_eq_false, if_false, hlanes]

theorem settled_eq_valueWord (h : g.WellFormed) (words : List Word) {n : Nat} (hn : n < g.size) :
    g.settled constantWord g.computeWords words (g.valueWord words) n =
      .ok (g.valueWord words n) := by
  unfold settled
  rw [h.inputPositions_eq]
  cases hconstant : isConstant n with
  | true =>
      refine congrArg Except.ok (Word.eq_ofLanes fun p hp => ?_)
      rw [constantWord_getLsbD _ hp, value_eq h, nodeValue, hconstant, if_pos rfl]
  | false =>
      cases hposition : g.position? .input n with
      | some position =>
          refine congrArg Except.ok (Word.eq_ofLanes fun p hp => ?_)
          rw [getD_constantWord_getLsbD words position p hp, value_eq h, nodeValue, hconstant,
            hposition, if_neg Bool.false_ne_true]
      | none =>
          have hgate : g.isGate n = true := by
            refine (h.isGate_iff n).2 ⟨?_, position?_input_eq_none_iff.1 hposition⟩
            simpa [isConstant] using hconstant
          exact computeWords_eq_valueWord h words hn hgate

/-- Evaluation on words answers the words of the outputs, and walks from them. -/
theorem evaluateWords_run (h : g.WellFormed) {words : List Word}
    (hwords : words.length = g.inputs.length) {s : Scratch} (hsize : s.marks.size = g.size)
    (hfresh : s.Fresh) (hroom : s.traversal.toNat + 1 < UInt32.size) :
    (g.evaluateWords words s).answer = .ok (g.outputs.map (g.valueWord words)) ∧
      (g.evaluateWords words s).state = (g.postorderOfOutputs s).state := by
  obtain ⟨order, values, hwalk, hsettle, houtputs⟩ := postorderOfOutputs_settle h
    (g.valueWord words) (fun n hn => settled_eq_valueWord h words hn) hsize hfresh hroom
  have houtputs' : g.outputs.map (values.getD · 0) = g.outputs.map (g.valueWord words) := houtputs
  unfold evaluateWords
  rw [Action.require_bind_run hwords, Action.bind_answer_of_ok hwalk,
    Action.bind_state_of_ok hwalk]
  simp only [hsettle, Action.lift_ok_bind_run, Action.pure_run, houtputs', and_self]

/-- The values that the inputs give to the nodes: to a constant its own, to an input the one at its
position, and to a gate that of its cover on the values of its children. -/
structure Valuation (g : Graph) (inputs : List Bool) (f : NodeId → Bool) : Prop where
  constant : ∀ value, f (constant value) = value
  input : ∀ (position : Nat) (n : NodeId), g.inputs[position]? = some n →
    inputs[position]? = some (f n)
  gate : ∀ (n : NodeId) (node : Node) (cover : Cover), g.isGate n = true →
    g.nodes[n]? = some node → g.covers[node.cover]? = some cover →
    ∃ pattern : Pattern, pattern.Holds (node.children.map f) ∧ f n = cover.evaluate pattern

theorem valuation_value (h : g.WellFormed) {inputs : List Bool}
    (hinputs : inputs.length = g.inputs.length) :
    g.Valuation inputs (g.value (assigned inputs)) where
  constant := value_constant h
  input position n hn := by
    have hlt := (List.getElem?_eq_some_iff.1 hn).1
    rw [value_input h hn, assigned, List.getD_eq_getElem?_getD,
      List.getElem?_eq_getElem (hinputs ▸ hlt)]
    rfl
  gate n node cover hgate hnode hcover := by
    have harity := (h.arity n (lt_size_of_nodes hnode) hgate).2
    rw [childrenOf_eq hnode] at harity
    exact ⟨_, Pattern.ofBits_holds (by rwa [List.length_map]), value_gate h hnode hcover hgate⟩

/-- The inputs give no other values to the nodes. -/
theorem Valuation.eq_value (h : g.WellFormed) {inputs : List Bool} {f : NodeId → Bool}
    (hf : g.Valuation inputs f) {n : Nat} (hn : n < g.size) : f n = g.value (assigned inputs) n := by
  refine Graph.eq_value h (P := fun n : Nat => n < g.size)
    (fun n _ child hchild => h.bounded n child hchild) (fun n hn => ?_) n hn
  unfold nodeValue
  cases hconstant : isConstant n with
  | true =>
      have hle : n ≤ 1 := by simpa [isConstant] using hconstant
      rcases Nat.le_one_iff_eq_zero_or_eq_one.1 hle with rfl | rfl
      · exact hf.constant false
      · exact hf.constant true
  | false =>
      have hlt : 1 < n := by simpa [isConstant] using hconstant
      rw [if_neg Bool.false_ne_true]
      cases hposition : g.position? .input n with
      | some position =>
          obtain ⟨hposition, heq, _⟩ := List.idxOf?_eq_some_iff.1 hposition
          have hinput := hf.input position n (List.getElem?_eq_some_iff.2 ⟨hposition, heq⟩)
          show f n = inputs.getD position false
          rw [List.getD_eq_getElem?_getD, hinput, Option.getD_some]
      | none =>
          have hgate := (h.isGate_iff n).2 ⟨hlt, position?_input_eq_none_iff.1 hposition⟩
          obtain ⟨node, cover, hnode, hcover⟩ := h.exists_cover hn
          obtain ⟨pattern, hpattern, hvalue⟩ := hf.gate n node cover hgate hnode hcover
          have harity := (h.arity n hn hgate).2
          rw [childrenOf_eq hnode] at harity ⊢
          have hholds : (Pattern.ofBits (node.children.map f)).Holds (node.children.map f) :=
            Pattern.ofBits_holds (by rwa [List.length_map])
          simp only [nodeCover, (node_eq_ok_iff g n node).2 hnode, Bind.bind, Except.bind,
            (cover_eq_ok_iff g _ _).2 hcover]
          rw [hvalue, hpattern.eq hholds]

/-- A walk from the outputs takes one traversal number, and no mark is ahead of it. -/
theorem postorderOfOutputs_fresh (h : g.WellFormed) {s : Scratch} (hsize : s.marks.size = g.size)
    (hfresh : s.Fresh) (hroom : s.traversal.toNat + 1 < UInt32.size) :
    (g.postorderOfOutputs s).state.Fresh ∧
      (g.postorderOfOutputs s).state.traversal.toNat = s.traversal.toNat + 1 := by
  obtain ⟨order, marks, _, hstate, _, hmarks, _⟩ := postorder_run h h.output_lt hsize hfresh hroom
  have hwalk : (g.postorderOfOutputs s).state = { s with traversal := s.traversal + 1, marks } :=
    hstate
  rw [hwalk]
  exact ⟨hfresh.marked hroom hmarks, Scratch.toNat_next hroom⟩

end Graph

theorem Network.evaluateWords_answer {net : Network} (hwell : net.WellFormed)
    (hfresh : net.scratch.Fresh) (hroom : net.scratch.traversal.toNat + 1 < UInt32.size)
    {words : List Word} (hwords : words.length = net.graph.inputs.length) :
    (evaluateWords words net).answer =
      .ok (net.graph.outputs.map (net.graph.valueWord words)) :=
  (Graph.evaluateWords_run hwell.graph hwords hwell.marks_size hfresh hroom).1

open Network

/-- A script with a cover that has a place more than its node has children, with a repeated child,
and with a substitution that leaves a gate without uses and points at a later one. -/
def widening : Action Network Nat := do
  let a ← addPrimaryInput
  let state ← addRegisterOutput
  let wide ← coverNode [a, state] (Cover.offSet [⟨1, 5⟩, ⟨4, 4⟩])
  let twice ← gate .and [wide, wide]
  let top ← gate .xor [twice, a]
  let _ ← addPrimaryOutput top
  let later ← gate .or [a, wide]
  substitute twice later
  addRegisterInput wide .zero

theorem widening_script : Script widening :=
  .next (.call .addPrimaryInput) fun a => .next (.call .addRegisterOutput) fun state =>
    .next (.call (.coverNode [a, state] (.offSet [⟨1, 5⟩, ⟨4, 4⟩]))) fun wide =>
    .next (.call (.gate .and [wide, wide])) fun twice =>
    .next (.call (.gate .xor [twice, a])) fun top => .next (.call (.addPrimaryOutput top)) fun _ =>
    .next (.call (.gate .or [a, wide])) fun later =>
    .next (.call (.substitute twice later)) fun _ => .call (.addRegisterInput wide .zero)

/-- The network that the script makes. -/
def widened : Network := (widening (Network.new .sharing)).state

theorem widened_reachable : Reachable widened := .run (.new .sharing) widening_script

/-- In every reachable network evaluation is not refused, and it answers the values that the inputs
give to the outputs, the primary ones first. -/
theorem Reachable.evaluate_eq_ok {net : Network} (h : Reachable net) (hfresh : net.scratch.Fresh)
    (hroom : net.scratch.traversal.toNat < UInt32.size - 1) {inputs : List Bool}
    (hinputs : inputs.length = net.graph.inputs.length) :
    ∃ f : NodeId → Bool, net.graph.Valuation inputs f ∧
      (∀ f', net.graph.Valuation inputs f' → ∀ n < net.graph.size, f' n = f n) ∧
      (evaluate inputs net).answer =
        .ok ((net.graph.primaryOutputs ++ net.graph.registerInputs).map f) := by
  have hwell := h.wellFormed
  refine ⟨net.graph.value (Graph.assigned inputs), Graph.valuation_value hwell.graph hinputs,
    fun f' hf' n hn => hf'.eq_value hwell.graph hn, ?_⟩
  rw [Outputs.primaryOutputs_append]
  exact evaluate_answer hwell hfresh (by omega) hinputs

theorem widened_evaluate : widened.scratch.Fresh ∧
    widened.scratch.traversal.toNat < UInt32.size - 1 ∧ widened.graph.outputs = [6, 4] ∧
    ∃ f, widened.graph.Valuation [true, false] f ∧ f 6 = false ∧ f 4 = true := by
  have hfresh : widened.scratch.Fresh := by decide +kernel
  have hroom : widened.scratch.traversal.toNat < UInt32.size - 1 := by decide +kernel
  have houtputs : widened.graph.outputs = [6, 4] := by decide +kernel
  obtain ⟨f, hf, _, hanswer⟩ := Reachable.evaluate_eq_ok widened_reachable hfresh hroom
    (show [true, false].length = widened.graph.inputs.length by decide +kernel)
  have hrun : (evaluate [true, false] widened).answer = .ok [false, true] := by decide +kernel
  rw [Outputs.primaryOutputs_append] at hanswer
  have hvalues : [false, true] = widened.graph.outputs.map f :=
    Except.ok.inj (hrun.symm.trans hanswer)
  rw [houtputs] at hvalues
  simp only [List.map_cons, List.map_nil, List.cons.injEq, and_true] at hvalues
  exact ⟨hfresh, hroom, houtputs, f, hf, hvalues.1.symm, hvalues.2.symm⟩

/-- Evaluation on words agrees with evaluation lane by lane: the bits of its answer in a lane are
what evaluation answers to the bits of the inputs in that lane, before it or after it. -/
theorem Reachable.evaluateWords_lanes {net : Network} (h : Reachable net)
    (hfresh : net.scratch.Fresh) (hroom : net.scratch.traversal.toNat < UInt32.size - 2)
    {words : List Word} (hwords : words.length = net.graph.inputs.length) :
    ∃ results : List Word, (evaluateWords words net).answer = .ok results ∧
      results.length = net.graph.outputs.length ∧
      ∀ p < 64,
        (evaluate (words.map (·.getLsbD p)) net).answer = .ok (results.map (·.getLsbD p)) ∧
        (evaluate (words.map (·.getLsbD p)) (evaluateWords words net).state).answer =
          .ok (results.map (·.getLsbD p)) := by
  have hwell := h.wellFormed
  have hwell' := (Reachable.run h (.call (.evaluateWords words))).wellFormed
  have hstate := (Graph.evaluateWords_run hwell.graph hwords hwell.marks_size hfresh (by omega)).2
  obtain ⟨hfresh', hnext⟩ := Graph.postorderOfOutputs_fresh hwell.graph hwell.marks_size hfresh
    (by omega)
  rw [← hstate] at hfresh' hnext
  refine ⟨_, evaluateWords_answer hwell hfresh (by omega) hwords, List.length_map _,
    fun p hp => ?_⟩
  have hlane : (words.map (·.getLsbD p)).length = net.graph.inputs.length := by
    rw [List.length_map, hwords]
  rw [Graph.map_valueWord_getLsbD words _ hp]
  refine ⟨evaluate_answer hwell hfresh (by omega) hlane, ?_⟩
  refine evaluate_answer hwell' hfresh' ?_ hlane
  have hnext' : (evaluateWords words net).state.scratch.traversal.toNat =
      net.scratch.traversal.toNat + 1 := hnext
  show (evaluateWords words net).state.scratch.traversal.toNat + 1 < UInt32.size
  omega

theorem widened_evaluateWords : widened.scratch.Fresh ∧
    widened.scratch.traversal.toNat < UInt32.size - 2 ∧
    (evaluateWords [10, 12] widened).answer = .ok [~~~14, ~~~12] ∧
    (evaluate [true, false] widened).answer = .ok [false, true] := by
  have hfresh : widened.scratch.Fresh := by decide +kernel
  have hroom : widened.scratch.traversal.toNat < UInt32.size - 2 := by decide +kernel
  obtain ⟨results, hanswer, _, hlanes⟩ := Reachable.evaluateWords_lanes widened_reachable hfresh
    hroom (show ([10, 12] : List Word).length = widened.graph.inputs.length by decide +kernel)
  have hrun : (evaluateWords [10, 12] widened).answer = .ok [~~~14, ~~~12] := by decide +kernel
  have hresults : [~~~14, ~~~12] = results := Except.ok.inj (hrun.symm.trans hanswer)
  refine ⟨hfresh, hroom, hrun, ?_⟩
  rw [← hresults] at hlanes
  exact (hlanes 1 (by decide)).1

end LogicNet
