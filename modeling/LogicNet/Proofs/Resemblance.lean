import LogicNet.Proofs.Evaluation
import LogicNet.Proofs.Listing

/-!
What a listing tells of the values. The literals that are shown of a cube decide which values it
accepts, if it demands no one at a place above those of the children; one that does is never met,
but it is listed like a cube that does not. Where there are no such cubes, graphs with equal
listings compute the same.
-/

namespace LogicNet

/-- Whether a literal admits a value. -/
def Literal.admits : Literal → Bool → Bool
  | zero, value => !value
  | one, value => value
  | free, _ => true

theorem Cube.admits_literalAt (cube : Cube) (place : Nat) (value : Bool) :
    (cube.literalAt place).admits value = true ↔
      (cube.mask.getLsbD place = true → value = cube.bits.getLsbD place) := by
  unfold literalAt
  cases cube.mask.getLsbD place <;> cases cube.bits.getLsbD place <;> cases value <;>
    simp [Literal.admits]

/-- The cube demands no one at a place that is not shown over so many inputs. -/
def Cube.Shown (cube : Cube) (width : Nat) : Prop :=
  cube.bits &&& cube.mask &&& ~~~Pattern.low width = 0

instance (cube : Cube) (width : Nat) : Decidable (cube.Shown width) :=
  inferInstanceAs (Decidable (_ = _))

theorem Cube.literals_getElem? (cube : Cube) {width position : Nat} (h : position < width) :
    (cube.literals width)[position]? = some (cube.literalAt (width - 1 - position)) := by
  rw [literals, List.getElem?_map, List.getElem?_reverse (by simpa using h), List.length_range,
    List.getElem?_range (by omega)]
  rfl

/-- What is shown of a cube decides which values it accepts. -/
theorem Cube.accepts_eq_literals {cube : Cube} {values : List Bool} (hlength : values.length ≤ 32)
    (h : cube.Shown values.length) : cube.accepts (Pattern.ofBits values) =
      (values.zip (cube.literals values.length)).all fun pair => pair.2.admits pair.1 := by
  rw [Bool.eq_iff_iff, cube.accepts_iff_of_holds (Pattern.ofBits_holds hlength) hlength,
    and_iff_right ((cube.demands_above_iff _).1 h), List.all_eq_true]
  constructor
  · rintro hall ⟨value, literal⟩ hpair
    obtain ⟨position, hposition⟩ := List.mem_iff_getElem?.1 hpair
    obtain ⟨hvalue, hliteral⟩ := List.getElem?_zip_eq_some.1 hposition
    have hlt := (List.getElem?_eq_some_iff.1 hvalue).1
    rw [cube.literals_getElem? hlt] at hliteral
    cases hliteral
    exact (cube.admits_literalAt _ _).2 (hall position value hvalue)
  · intro hall position value hvalue
    have hlt := (List.getElem?_eq_some_iff.1 hvalue).1
    have hpair := List.getElem?_zip_eq_some (z := (value, cube.literalAt _)).2
      ⟨hvalue, cube.literals_getElem? hlt⟩
    exact (cube.admits_literalAt _ _).1 (hall _ (List.mem_of_getElem? hpair))

/-- Covers that are shown alike have the same values. -/
theorem Cover.evaluate_eq_of_literals {cover cover' : Cover} {values : List Bool}
    (hlength : values.length ≤ 32) (hpolarity : cover.polarity = cover'.polarity)
    (hliterals : cover.cubes.map (·.literals values.length) =
      cover'.cubes.map (·.literals values.length))
    (h : ∀ cube ∈ cover.cubes, cube.Shown values.length)
    (h' : ∀ cube ∈ cover'.cubes, cube.Shown values.length) :
    cover.evaluate (Pattern.ofBits values) = cover'.evaluate (Pattern.ofBits values) := by
  let agrees := fun literals : List Literal =>
    (values.zip literals).all fun pair => pair.2.admits pair.1
  have hany : ∀ cubes : List Cube, (∀ cube ∈ cubes, cube.Shown values.length) →
      cubes.any (·.accepts (Pattern.ofBits values)) =
        (cubes.map (·.literals values.length)).any agrees := by
    intro cubes hcubes
    have hmap : cubes.map (·.accepts (Pattern.ofBits values)) =
        (cubes.map (·.literals values.length)).map agrees := by
      rw [List.map_map]
      exact List.map_congr_left fun cube hcube =>
        Cube.accepts_eq_literals hlength (hcubes cube hcube)
    calc cubes.any (·.accepts (Pattern.ofBits values))
      _ = (cubes.map (·.accepts (Pattern.ofBits values))).any id := by rw [List.any_map]; rfl
      _ = ((cubes.map (·.literals values.length)).map agrees).any id := by rw [hmap]
      _ = (cubes.map (·.literals values.length)).any agrees := by rw [List.any_map]; rfl
  rw [evaluate, evaluate, hany _ h, hany _ h', hliterals, hpolarity]

namespace Graph

variable {g g' : Graph} {v : Nat → Bool}

/-- No cube of a gate demands a one at a place that its listing does not show. -/
def Shown (g : Graph) : Prop :=
  ∀ n ∈ g.gates, ∀ cube ∈ (g.coverOf n).cubes, cube.Shown (g.childrenOf n).length

instance (g : Graph) : Decidable g.Shown := inferInstanceAs (Decidable (∀ n ∈ g.gates, _))

namespace Resembles

theorem inputs (hsame : g.Resembles g') : g.inputs = g'.inputs := by
  rw [← g.primaryInputs_append, hsame.primaryInputs, hsame.registerOutputs,
    g'.primaryInputs_append]

theorem outputs (hsame : g.Resembles g') (h : g.WellFormed) (h' : g'.WellFormed) :
    g.outputs = g'.outputs := by
  rw [← g.primaryOutputs_append, ← h.matched.signals, hsame.primaryOutputs, hsame.nextStates,
    h'.matched.signals, g'.primaryOutputs_append]

theorem resets (hsame : g.Resembles g') (h : g.WellFormed) (h' : g'.WellFormed) :
    g.resets = g'.resets := by
  rw [← h.matched.resets, hsame.nextStates, h'.matched.resets]

theorem isGate (hsame : g.Resembles g') (h : g.WellFormed) (h' : g'.WellFormed) (n : NodeId) :
    g.isGate n = g'.isGate n := by
  rw [Bool.eq_iff_iff, h.isGate_iff, h'.isGate_iff, hsame.inputs]

theorem childrenOf (hsame : g.Resembles g') (h : g.WellFormed) (h' : g'.WellFormed) {n : NodeId}
    (hn : n < g.size) : g.childrenOf n = g'.childrenOf n := by
  cases hgate : g.isGate n with
  | true => exact hsame.children n (mem_gates_iff.2 ⟨hn, hgate⟩)
  | false => rw [h.childless n hgate, h'.childless n (by rwa [← hsame.isGate h h' n])]

theorem size_eq (hsame : g.Resembles g') (h : g.WellFormed) (h' : g'.WellFormed) :
    g.size = g'.size := by
  rw [h.size_eq, h'.size_eq, hsame.inputs, hsame.gates]

/-- What a node makes of the values of its children is the same in both graphs. -/
theorem nodeValue (hsame : g.Resembles g') (h : g.WellFormed) (h' : g'.WellFormed)
    (hshown : g.Shown) (hshown' : g'.Shown) {n : NodeId} (hn : n < g.size) {below : List Bool}
    (hbelow : below.length = (g.childrenOf n).length) :
    g.nodeValue v n below = g'.nodeValue v n below := by
  have hposition : g.position? .input n = g'.position? .input n := by
    rw [position?, terminals, hsame.inputs, position?, terminals]
  unfold Graph.nodeValue
  rw [← hposition]
  by_cases hconstant : isConstant n = true
  · rw [if_pos hconstant, if_pos hconstant]
  rw [if_neg hconstant, if_neg hconstant]
  cases hinput : g.position? .input n with
  | some position => rfl
  | none =>
      have hgate : g.isGate n = true := (h.isGate_iff n).2
        ⟨by simpa [isConstant] using hconstant, position?_input_eq_none_iff.1 hinput⟩
      have hmem : n ∈ g.gates := mem_gates_iff.2 ⟨hn, hgate⟩
      simp only [h.nodeCover_eq_ok hn, h'.nodeCover_eq_ok (hsame.size_eq h h' ▸ hn)]
      have hchildren := hsame.children n hmem
      have hliterals := hsame.literals n hmem
      rw [← hchildren, ← hbelow] at hliterals
      refine Cover.evaluate_eq_of_literals (hbelow ▸ (h.arity n hn hgate).2) (hsame.polarity n hmem)
        hliterals (hbelow ▸ hshown n hmem) ?_
      rw [hbelow, hchildren]
      exact hshown' n (hsame.gates ▸ hmem)

/-- Well-formed graphs that have the same listing, with all that counts shown, have the same
values. -/
theorem value_eq (hsame : g.Resembles g') (h : g.WellFormed) (h' : g'.WellFormed)
    (hshown : g.Shown) (hshown' : g'.Shown) {n : NodeId} (hn : n < g.size) :
    g.value v n = g'.value v n := by
  refine eq_value h' (fun n (hn : n < g.size) child hchild => ?_) (fun n hn => ?_) n hn
  · exact h.bounded n child (hsame.childrenOf h h' hn ▸ hchild)
  · rw [Graph.value_eq h, hsame.nodeValue h h' hshown hshown' hn (List.length_map _),
      hsame.childrenOf h h' hn]

end Resembles
end Graph

/-- Evaluation refuses values that are too many or too few. -/
theorem Network.evaluate_refused {net : Network} {inputs : List Bool}
    (h : inputs.length ≠ net.graph.inputs.length) : (evaluate inputs net).answer =
      .error (.wrongInputCount inputs.length net.graph.inputs.length) := by
  have hrun : net.graph.evaluate inputs net.scratch =
      ⟨.error (.wrongInputCount inputs.length net.graph.inputs.length), net.scratch, []⟩ :=
    Action.require_bind_run_error h _ _ _
  show (net.graph.evaluate inputs net.scratch).answer = _
  rw [hrun]

open Network

/-- The listing of a reachable network is never refused, and it is exact where all that counts is
shown: networks with equal listings have the same inputs, outputs and reset values, and if no gate
of either has a cube that demands a one beyond the gate's children, they evaluate alike. -/
theorem Reachable.dump_exact {net net' : Network} (h : Reachable net) (h' : Reachable net') :
    (∃ text, net.graph.dump = .ok text) ∧
    (net.graph.dump = net'.graph.dump →
      net.graph.inputs = net'.graph.inputs ∧ net.graph.outputs = net'.graph.outputs ∧
      net.graph.resets = net'.graph.resets ∧
      (net.graph.Shown → net'.graph.Shown → net.scratch.Fresh → net'.scratch.Fresh →
        net.scratch.traversal.toNat < UInt32.size - 1 →
        net'.scratch.traversal.toNat < UInt32.size - 1 →
        ∀ inputs : List Bool, (evaluate inputs net).answer = (evaluate inputs net').answer)) := by
  have hwell := h.wellFormed
  have hwell' := h'.wellFormed
  refine ⟨⟨_, Graph.dump_eq_ok hwell.graph⟩, fun hdump => ?_⟩
  have hsame := hwell.graph.resembles hwell'.graph hdump
  have houtputs := hsame.outputs hwell.graph hwell'.graph
  refine ⟨hsame.inputs, houtputs, hsame.resets hwell.graph hwell'.graph, ?_⟩
  intro hshown hshown' hfresh hfresh' hroom hroom' inputs
  by_cases hinputs : inputs.length = net.graph.inputs.length
  · rw [evaluate_answer hwell hfresh (by omega) hinputs,
      evaluate_answer hwell' hfresh' (by omega) (hsame.inputs ▸ hinputs), houtputs]
    refine congrArg Except.ok (List.map_congr_left fun n hn => ?_)
    have hlt := hwell'.graph.output_lt n hn
    exact hsame.value_eq hwell.graph hwell'.graph hshown hshown'
      (hsame.size_eq hwell.graph hwell'.graph ▸ hlt)
  · rw [evaluate_refused hinputs, evaluate_refused (hsame.inputs ▸ hinputs), hsame.inputs]

/-- A script of one gate, with a cover of its own, on two inputs. -/
def oneGate (cover : Cover) : Action Network Nat := do
  let a ← addPrimaryInput
  let b ← addPrimaryInput
  let top ← coverNode [a, b] cover
  addPrimaryOutput top

theorem oneGate_script (cover : Cover) : Script (oneGate cover) :=
  .next (.call .addPrimaryInput) fun a => .next (.call .addPrimaryInput) fun b =>
    .next (.call (.coverNode [a, b] cover)) fun top => .call (.addPrimaryOutput top)

/-- The network that the script makes. -/
def singleton (cover : Cover) : Network := (oneGate cover (Network.new .sharing)).state

theorem singleton_reachable (cover : Cover) : Reachable (singleton cover) :=
  .run (.new .sharing) (oneGate_script cover)

/-- A zero that a cube demands beyond the children is not listed, and there always is one. -/
theorem singleton_dump_exact :
    (singleton (.onSet [⟨3, 3⟩])).graph.dump = (singleton (.onSet [⟨3, 7⟩])).graph.dump ∧
    (singleton (.onSet [⟨3, 3⟩])).graph.Shown ∧ (singleton (.onSet [⟨3, 7⟩])).graph.Shown ∧
    ∀ inputs, (evaluate inputs (singleton (.onSet [⟨3, 3⟩]))).answer =
      (evaluate inputs (singleton (.onSet [⟨3, 7⟩]))).answer := by
  have hdump : (singleton (.onSet [⟨3, 3⟩])).graph.dump =
      (singleton (.onSet [⟨3, 7⟩])).graph.dump := by decide +kernel
  have hshown : (singleton (.onSet [⟨3, 3⟩])).graph.Shown := by decide +kernel
  have hshown' : (singleton (.onSet [⟨3, 7⟩])).graph.Shown := by decide +kernel
  obtain ⟨_, _, _, halike⟩ := (Reachable.dump_exact (singleton_reachable (.onSet [⟨3, 3⟩]))
    (singleton_reachable (.onSet [⟨3, 7⟩]))).2 hdump
  refine ⟨hdump, hshown, hshown', halike hshown hshown' ?_ ?_ ?_ ?_⟩
  · decide +kernel
  · decide +kernel
  · decide +kernel
  · decide +kernel

/-- A one that a cube demands beyond the children is not listed either, and there never is one. -/
theorem singleton_dump_inexact :
    (Reachable (singleton (.onSet [⟨0, 0⟩])) ∧ Reachable (singleton (.onSet [⟨4, 4⟩]))) ∧
    ((singleton (.onSet [⟨0, 0⟩])).scratch.Fresh ∧ (singleton (.onSet [⟨4, 4⟩])).scratch.Fresh) ∧
    ((singleton (.onSet [⟨0, 0⟩])).scratch.traversal = 0 ∧
      (singleton (.onSet [⟨4, 4⟩])).scratch.traversal = 0) ∧
    (singleton (.onSet [⟨0, 0⟩])).graph.dump = (singleton (.onSet [⟨4, 4⟩])).graph.dump ∧
    (evaluate [false, false] (singleton (.onSet [⟨0, 0⟩]))).answer = .ok [true] ∧
    (evaluate [false, false] (singleton (.onSet [⟨4, 4⟩]))).answer = .ok [false] := by
  refine ⟨⟨singleton_reachable _, singleton_reachable _⟩, ⟨?_, ?_⟩, ⟨?_, ?_⟩, ?_, ?_, ?_⟩
  all_goals decide +kernel

end LogicNet
