import LogicNet.Fanouts
import LogicNet.Gate.Basic
import LogicNet.Graph.Terminals
import LogicNet.Graph.Uses
import LogicNet.Listeners
import LogicNet.Scratch
import LogicNet.Sharing

/-!
Networks: a graph together with what its construction and the algorithms on it keep beside it. The
invariants that hold between these parts can be checked at any time; nothing but the graph decides
what a network computes.
-/

namespace LogicNet

/-- How a network is built. -/
structure Options where
  /-- Meet a request for a node by one that was made for the same request. -/
  share : Bool
  /-- Check the invariants after each substitution. -/
  verify : Bool
  deriving DecidableEq

namespace Options

/-- Sharing on. -/
def sharing : Options := ⟨true, false⟩

/-- Sharing off: each request makes a node. -/
def plain : Options := ⟨false, false⟩

instance : Inhabited Options := ⟨sharing⟩

end Options

/-- A graph with its fanout counters, its scratch space, its sharing table, the covers that its
primitive gates use, its listeners and its options. -/
structure Network where
  graph : Graph
  fanouts : Fanouts
  scratch : Scratch
  table : SharingTable
  /-- The cover of each kind of gate, from its first use on. -/
  gateCover : Gate → Option CoverId
  listeners : Listeners
  options : Options

namespace Network

/-- The network of the two constants. They are in the sharing table whatever the options are. -/
def new (options : Options) : Network where
  graph := Graph.constants
  fanouts := #[0, 0]
  scratch := Scratch.clear 2
  table := SharingTable.record (SharingTable.record ∅ ⟨[], 0⟩ 0) ⟨[], 1⟩ 1
  gateCover := fun _ => none
  listeners := Listeners.none
  options := options

instance : Inhabited Network := ⟨new default⟩

/-- The number of uses of a node. -/
def fanout (net : Network) (n : NodeId) : Except Fault Nat := do
  net.graph.check n
  return net.fanouts.get n

/-- How many inputs and gates have each fanout; constants are left out. -/
def fanoutHistogram (net : Network) : Std.ExtTreeMap Nat Nat :=
  let counted := net.graph.nodeIds.filter fun n => !Graph.isConstant n
  counted.foldl (fun histogram n =>
    let fanout := net.fanouts.get n
    histogram.insert fanout (histogram.getD fanout 0 + 1)) ∅

/-- Runs an action on the scratch space of a network. -/
def onScratch {α : Type} (x : Action Scratch α) : Action Network α :=
  Action.within (·.scratch) (fun net scratch => { net with scratch }) x

/-- Runs an action on the scratch space that looks at the graph. -/
def withGraph {α : Type} (x : Graph → Action Scratch α) : Action Network α := do
  onScratch (x (← get).graph)

/-- Checks the names that a node holds: those of its cover and of its children. -/
def checkNode (g : Graph) (n : NodeId) (node : Node) : Except Fault Unit := do
  if g.covers.size ≤ node.cover then
    throw (.danglingCover n node.cover g.covers.size)
  node.children.forM fun child =>
    if child < g.size then .ok () else .error (.danglingChild n child g.size)

/-- Checks that each counter of `fanouts` is the number of uses. -/
def checkFanouts (uses : Array Nat) (fanouts : Fanouts) (nodes : List NodeId) : Except Fault Unit :=
  nodes.forM fun n =>
    if fanouts.get n = uses.getD n 0 then .ok ()
    else .error (.wrongFanout n (fanouts.get n) (uses.getD n 0))

/-- Checks that the register inputs have as many reset values and at least as many register
outputs. -/
def checkRegisters (g : Graph) : Except Fault Unit := do
  let registerInputs := g.terminalCount .registerInput
  let registerOutputs := g.terminalCount .registerOutput
  if registerInputs ≠ g.resets.length then
    throw .unmatchedResets
  if registerOutputs < registerInputs then
    throw (.excessRegisterInputs registerInputs registerOutputs)

/-- Checks the invariants: every name belongs to something, every register input has a reset value
and a register output, and the fanout counters are the numbers of uses. -/
def checkInvariants (net : Network) : Except Fault Unit := do
  let g := net.graph
  g.nodes.toList.zipIdx.forM fun (node, n) => checkNode g n node
  g.outputs.forM fun n => if n < g.size then .ok () else .error (.danglingOutput n g.size)
  checkRegisters g
  checkFanouts g.useCounts net.fanouts g.nodeIds

end Network
end LogicNet
