import LogicNet.Cover.Lanes
import LogicNet.Graph.Postorder
import LogicNet.Graph.Terminals

/-!
Simulation. A single node is evaluated on the values of its fanins: on one assignment, on vectors
of them, or on sixty-four in the lanes of words. A whole network is evaluated by walking from its
outputs and settling each node after its children; what the walk leaves out keeps the value false.
-/

namespace LogicNet.Graph

/-- The value of a node on one assignment to its fanins. The number of values has to be that of the
fanins for a gate; for constants and inputs, which have none, it is not looked at. -/
def compute (g : Graph) (n : NodeId) (values : List Bool) : Except Fault Bool := do
  if maxFanin < values.length then
    throw (.tooManyValues values.length)
  if g.isGate n then
    let children ← g.children n
    if values.length ≠ children.length then
      throw (.wrongValueCount n children.length values.length)
  return (← g.nodeCover n).evaluate (Pattern.ofBits values)

/-- Refuses vectors that are not all as wide as the first one. -/
def checkWidths (width : Nat) (vectors : List (Array Bool)) : Except Fault Unit :=
  vectors.zipIdx.forM fun (vector, position) =>
    if vector.size = width then .ok ()
    else .error (.wrongVectorWidth position vector.size width)

/-- The assignment at position `p` of vectors, one vector for each fanin. -/
def slice (vectors : List (Array Bool)) (p : Nat) : List Bool := vectors.map (·.getD p false)

/-- The width of a list of vectors, which is that of the first. -/
def vectorWidth : List (Array Bool) → Nat
  | [] => 0
  | vector :: _ => vector.size

/-- The values of a node on vectors of assignments, one vector of equal width for each fanin. -/
def computeVectors (g : Graph) (n : NodeId) (vectors : List (Array Bool)) :
    Except Fault (List Bool) := do
  let children ← g.children n
  if children.isEmpty then
    throw (.noFanins n)
  if vectors.length ≠ children.length then
    throw (.wrongVectorCount n children.length vectors.length)
  checkWidths (vectorWidth vectors) vectors
  let cover ← g.nodeCover n
  return (List.range (vectorWidth vectors)).map fun p =>
    cover.evaluate (Pattern.ofBits (slice vectors p))

/-- The values of a node in sixty-four lanes, one word for each fanin. -/
def computeWords (g : Graph) (n : NodeId) (words : List Word) : Except Fault Word := do
  let children ← g.children n
  if words.length ≠ children.length then
    throw (.wrongWordCount n children.length words.length)
  return (← g.nodeCover n).lanes words

/-- The values of the nodes in `order`, settled from first to last: a constant has its value, an
input the one given for its position, and a gate that of `gate` on the values of its children. -/
def settle {α : Type} (g : Graph) (constant : Bool → α) (gate : NodeId → List α → Except Fault α)
    (inputs : List α) (order : List NodeId) : Except Fault (Array α) :=
  order.foldlM (fun values n => do
    let value ←
      if isConstant n then pure (constant (constantValue n))
      else match g.inputPositions[n]? with
        | some position => pure (inputs.getD position (constant false))
        | none => gate n ((g.childrenOf n).map (values.getD · (constant false)))
    return values.setIfInBounds n value) (Array.replicate g.size (constant false))

/-- The note that a cover accepted a pattern, if one of its cubes did. -/
def acceptance (cover : Cover) (pattern : Pattern) : List Entry :=
  match cover.firstMatch? pattern with
  | some (cube, position) => [.noted (.cubeAccepted pattern position cube)]
  | none => []

/-- The note on evaluating one node, if a cube of its cover accepts the assignment. -/
def nodeAcceptance (g : Graph) (n : NodeId) (values : List Bool) : List Entry :=
  match g.nodeCover n with
  | .ok cover => acceptance cover (Pattern.ofBits values)
  | .error _ => []

/-- The notes on evaluating the gates of `order` when the nodes have the given values. -/
def acceptances (g : Graph) (values : Array Bool) (order : List NodeId) : List Entry :=
  (order.filter g.isGate).flatMap fun n =>
    g.nodeAcceptance n ((g.childrenOf n).map (values.getD · false))

/-- The values of the combinational outputs, given those of the combinational inputs. -/
def evaluate (g : Graph) (inputs : List Bool) : Action Scratch (List Bool) := do
  Action.require (inputs.length = g.inputs.length)
    (.wrongInputCount inputs.length g.inputs.length)
  let order ← g.postorderOfOutputs
  let values ← g.settle id g.compute inputs order
  Action.report (g.acceptances values order)
  return g.outputs.map (values.getD · false)

/-- The value of a constant in every lane. -/
def constantWord (value : Bool) : Word := if value then BitVec.allOnes 64 else 0

/-- As `evaluate`, on the sixty-four assignments in the lanes of words. -/
def evaluateWords (g : Graph) (inputs : List Word) : Action Scratch (List Word) := do
  Action.require (inputs.length = g.inputs.length)
    (.wrongInputWordCount inputs.length g.inputs.length)
  let order ← g.postorderOfOutputs
  let values ← g.settle constantWord g.computeWords inputs order
  return g.outputs.map (values.getD · 0)

end LogicNet.Graph
