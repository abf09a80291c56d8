import LogicNet.Assignment
import LogicNet.Graph.Simulation
import LogicNet.Graph.Statistics
import LogicNet.Network.Basic

/-!
Asking a network about itself: walks, simulation and statistics as actions on the network, which
change nothing but its scratch space, and the operations on that space for checked names.
-/

namespace LogicNet.Network

/-- Runs a computation on the scratch space of a node, which has to exist. -/
def onNode {α : Type} (n : NodeId) (x : Action Scratch α) : Action Network α := do
  (← get).graph.check n
  onScratch x

def value (n : NodeId) : Action Network UInt32 := onNode n (return (← get).value n)

def setValue (n : NodeId) (value : UInt32) : Action Network Unit :=
  onNode n (modify (·.setValue n value))

/-- Adds one to the counter of a node, modulo 2^32, and answers what it was. -/
def increment (n : NodeId) : Action Network UInt32 := onNode n do
  let old := (← get).value n
  modify (·.setValue n (old + 1))
  return old

/-- Takes one from the counter of a node, modulo 2^32, and answers what it is then. -/
def decrement (n : NodeId) : Action Network UInt32 := onNode n do
  let new := (← get).value n - 1
  modify (·.setValue n new)
  return new

def clearValues : Action Network Unit := onScratch (modify Scratch.clearValues)

def mark (n : NodeId) : Action Network UInt32 := onNode n (return (← get).mark n)

def setMark (n : NodeId) (mark : UInt32) : Action Network Unit :=
  onNode n (modify (·.setMark n mark))

def clearMarks : Action Network Unit := onScratch (modify Scratch.clearMarks)

/-- Takes the next traversal number. -/
def nextTraversal : Action Network UInt32 := onScratch Scratch.nextTraversal

/-- The nodes that can be reached from the starts, each after its children. -/
def postorder (starts : List NodeId) : Action Network (List NodeId) :=
  withGraph (·.postorder starts)

/-- The nodes that some output depends on, each after its children. -/
def postorderOfOutputs : Action Network (List NodeId) := withGraph (·.postorderOfOutputs)

/-- For each node, whether some output depends on it. -/
def live : Action Network (List Bool) := withGraph (·.live)

/-- The value of a node on one assignment to its fanins. -/
def compute (n : NodeId) (values : List Bool) : Action Network Bool := do
  let g := (← get).graph
  let value ← g.compute n values
  Action.report (g.nodeAcceptance n values)
  return value

/-- The values of a node on vectors of assignments, one vector for each fanin. -/
def computeVectors (n : NodeId) (vectors : List (Array Bool)) : Action Network (List Bool) := do
  let g := (← get).graph
  let values ← g.computeVectors n vectors
  Action.report <| (List.range values.length).flatMap fun p =>
    g.nodeAcceptance n (Graph.slice vectors p)
  return values

/-- The values of the combinational outputs, given those of the combinational inputs. -/
def evaluate (inputs : List Bool) : Action Network (List Bool) := withGraph (·.evaluate inputs)

/-- As `evaluate`, on the sixty-four assignments in the lanes of words. -/
def evaluateWords (inputs : List Word) : Action Network (List Word) :=
  withGraph (·.evaluateWords inputs)

/-- The values of the combinational outputs on every assignment to the inputs. -/
def evaluateAll : Action Network (List (List Bool)) := do
  let numVars := (← get).graph.inputs.length
  Assignment.check numVars
  (Assignment.all numVars).mapM evaluate

/-- The depths of the nodes that some output depends on. -/
def depths : Action Network (NodeMap Nat) := withGraph (·.depths)

/-- The figures of the network. -/
def summary : Action Network Summary := withGraph (·.summary)

end LogicNet.Network
