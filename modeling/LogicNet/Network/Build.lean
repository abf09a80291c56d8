import LogicNet.Gate.Cover
import LogicNet.Network.Basic
import LogicNet.TruthTable.Basic

/-!
Building a network. Everything is added at the end and nothing is ever removed, so a name keeps its
meaning. A gate is asked for by its children and its cover; with sharing on, a request that has been
met before is met by the same node, without any other effect.
-/

namespace LogicNet.Network

/-- Adds a node with clear scratch space, given the fanout counters from then on. -/
def addNode (net : Network) (node : Node) (fanouts : Fanouts) : Network :=
  { net with
    graph := net.graph.addNode node
    fanouts
    scratch := net.scratch.grow }

/-- Makes `n` the node of a request, if sharing is on. -/
def record (net : Network) (request : Request) (n : NodeId) : Network :=
  if net.options.share then { net with table := net.table.record request n } else net

/-- The node of a request, if sharing is on and there is one. -/
def shared? (net : Network) (request : Request) : Option NodeId :=
  if net.options.share then net.table.find? request else none

/-- Adds the node of an input, behind all other inputs. -/
def addInputNode (net : Network) : Network :=
  let added := { net with
    graph := net.graph.pushInput
    fanouts := net.fanouts.push 0
    scratch := net.scratch.grow }
  added.record net.graph.inputNode net.graph.size

/-- Creates a primary input. All primary inputs come before the first register output. -/
def addPrimaryInput : Action Network NodeId := do
  let net ← get
  Action.require (net.graph.inputs.length = net.graph.primaryInputCount) .lateInput
  let n := net.graph.size
  let position := net.graph.primaryInputCount
  modify fun net => { net.addInputNode with graph := net.graph.pushPrimaryInput }
  Action.note (.primaryInputCreated n position)
  return n

/-- Creates a register output: the present state of a register. -/
def addRegisterOutput : Action Network NodeId := do
  let net ← get
  let n := net.graph.size
  let position := net.graph.terminalCount .registerOutput
  modify addInputNode
  Action.note (.registerOutputCreated n position)
  return n

/-- Makes a signal a primary output and answers its position. All primary outputs come before the
first register input. -/
def addPrimaryOutput (signal : NodeId) : Action Network Nat := do
  let net ← get
  net.graph.check signal
  Action.require (net.graph.outputs.length = net.graph.primaryOutputCount) .lateOutput
  let fanouts ← net.fanouts.raise signal 1
  set { net with fanouts, graph := net.graph.pushPrimaryOutput signal }
  return net.graph.outputs.length

/-- Makes a signal the next state of the first register that lacks one, with the register's reset
value, and answers the position among the combinational outputs. -/
def addRegisterInput (signal : NodeId) (reset : Reset) : Action Network Nat := do
  let net ← get
  net.graph.check signal
  let position := net.graph.resets.length
  let registers := net.graph.terminalCount .registerOutput
  Action.require (position < registers) (.unmatchedRegisterInput position registers)
  let fanouts ← net.fanouts.raise signal 1
  set { net with fanouts, graph := net.graph.pushRegisterInput signal reset }
  return net.graph.outputs.length

/-- Adds a cover to the table. Its cubes have to demand nothing outside their masks. -/
def addCover (cover : Cover) : Action Network CoverId := do
  let net ← get
  if let some cube := cover.firstStray? then
    Action.fail (.strayCubeBits cube)
  set { net with graph := net.graph.addCover cover }
  return net.graph.covers.size

/-- Creates the node of a request, whose names have been checked. -/
def createNode (request : Request) : Action Network NodeId := do
  let net ← get
  let n := net.graph.size
  let fanouts ← Fanouts.raiseAll (net.fanouts.push 0) request.children
  set ((net.addNode request fanouts).record request n)
  Action.note (.nodeCreated n request.children.length request.cover)
  Action.report (net.listeners.deliveries (.added n))
  return n

/-- The node with these children and this cover: the one that was made for the same request if
sharing is on, and a new one otherwise. Without children it is the constant of the cover's
polarity. -/
def node (children : List NodeId) (cover : CoverId) : Action Network NodeId := do
  let net ← get
  let function ← net.graph.cover cover
  if children.isEmpty then
    return Graph.constant function.polarity
  Action.require (children.length ≤ maxFanin) (.tooManyChildren children.length)
  net.graph.checkAll children
  match net.shared? ⟨children, cover⟩ with
  | some existing =>
    Action.note (.nodeShared children cover existing)
    return existing
  | none => createNode ⟨children, cover⟩

/-- The cover of a kind of gate. It is added to the table on first use, and every gate of the kind
uses it from then on. -/
def coverOfGate (gate : Gate) : Action Network CoverId := do
  match (← get).gateCover gate with
  | some cover => return cover
  | none =>
    let cover ← addCover gate.cover
    Action.note (.gateCoverRegistered gate cover)
    modify fun net =>
      { net with gateCover := fun kind => if kind = gate then some cover else net.gateCover kind }
    return cover

/-- A primitive gate on the given operands. -/
def gate (gate : Gate) (operands : List NodeId) : Action Network NodeId := do
  Action.require (operands.length = gate.arity) (.wrongOperandCount gate operands.length)
  node operands (← coverOfGate gate)

/-- A buffer, which is its operand. -/
def buffer (operand : NodeId) : Action Network NodeId := return operand

/-- A node that applies a cover of its own to its children, and without children the constant of
the cover's polarity. -/
def coverNode (children : List NodeId) (cover : Cover) : Action Network NodeId := do
  if children.isEmpty then
    return Graph.constant cover.polarity
  node children (← addCover cover)

/-- A node that applies a truth table to its children, the first of which is the first variable.
Without children it is the constant false if the table is false everywhere, and true otherwise. -/
def tableNode (children : List NodeId) (table : TruthTable) : Action Network NodeId := do
  if children.isEmpty then
    return Graph.constant !table.isZero
  Action.require (children.length = table.numVars)
    (.wrongTableArity table.numVars children.length)
  coverNode children table.toCover

/-- A node that applies the cover of a node of another graph. -/
def copyNode (other : Graph) (source : NodeId) (children : List NodeId) :
    Action Network NodeId := do
  Action.require (children ≠ []) (.copyWithoutChildren source)
  coverNode children (← other.nodeCover source)

end LogicNet.Network
