import LogicNet.Graph.Statistics
import LogicNet.Network.Build

/-!
Compaction: a copy of a network without the gates that no output depends on. The constants, all
inputs and all outputs are kept in their order, gates that use one cover go on to use one, and the
copy shares nodes as its options say, so gates that have become alike may become one. Subscriptions
are not carried over.
-/

namespace LogicNet.Network

/-- A copy in progress: where the nodes and the covers that were copied so far have gone. -/
structure Copying where
  nodes : NodeMap NodeId
  covers : Std.ExtTreeMap CoverId CoverId

namespace Copying

/-- Where the constants go, which keep their names. -/
def constants : NodeMap NodeId := ((∅ : NodeMap NodeId).insert 0 0).insert 1 1

/-- Where a child of `n` has gone; children are copied before the nodes above them. -/
def child (copying : Copying) (n child : NodeId) : Except Fault NodeId :=
  match copying.nodes[child]? with
  | some copied => .ok copied
  | none => .error (.childNotCopied child n)

/-- Copies inputs, one after the other, by `create`. -/
def inputs (create : Action Network NodeId) (nodes : NodeMap NodeId) (sources : List NodeId) :
    Action Network (NodeMap NodeId) :=
  sources.foldlM (fun nodes source => return nodes.insert source (← create)) nodes

/-- Copies a cover, unless it has been copied already. -/
def cover (g : Graph) (copying : Copying) (source : CoverId) :
    Action Network (CoverId × Copying) := do
  match copying.covers[source]? with
  | some copied => return (copied, copying)
  | none =>
    let copied ← addCover (← g.cover source)
    return (copied, { copying with covers := copying.covers.insert source copied })

/-- Copies a gate. -/
def gate (g : Graph) (copying : Copying) (n : NodeId) : Action Network Copying := do
  let source ← g.node n
  let children ← (source.children.mapM (copying.child n) : Except Fault (List NodeId))
  let (cover, copying) ← copying.cover g source.cover
  let copied ← node children cover
  return { copying with nodes := copying.nodes.insert n copied }

/-- The cover that a kind of gate has in the copy, given those it has in the source: a kind whose
cover was not copied has none. -/
def gateCover (copying : Copying) (source : Gate → Option CoverId) (kind : Gate) :
    Option CoverId :=
  (source kind).bind fun cover => copying.covers[cover]?

end Copying

/-- Copies the inputs of a graph into a network of the constants. -/
def copyInputs (g : Graph) : Action Network (NodeMap NodeId) := do
  let nodes ← Copying.inputs addPrimaryInput Copying.constants g.primaryInputs
  Copying.inputs addRegisterOutput nodes g.registerOutputs

/-- Copies the gates of `order`, then the kinds of gate, then the outputs. -/
def copyRest (net : Network) (order : List NodeId) (nodes : NodeMap NodeId) :
    Action Network (NodeMap NodeId) := do
  let g := net.graph
  let copying ← (order.filter g.isGate).foldlM (Copying.gate g) ⟨nodes, ∅⟩
  modify fun copy => { copy with gateCover := copying.gateCover net.gateCover }
  g.primaryOutputs.forM fun signal => do
    let _ ← addPrimaryOutput (← copying.nodes.entry signal)
  g.nextStates.forM fun next => do
    let _ ← addRegisterInput (← copying.nodes.entry next.signal) next.reset
  return copying.nodes

/-- The compacted copy, and where each node that it keeps has gone. The network itself is left as it
is but for the marks of the walk. -/
def compact : Action Network (Network × NodeMap NodeId) := do
  let net ← get
  let g := net.graph
  let (nodes, copy) ← Action.elsewhere (Network.new net.options) (copyInputs g)
  let order ← withGraph (·.postorderOfOutputs)
  let (nodes, copy) ← Action.elsewhere copy (copyRest net order nodes)
  Action.note (.compacted g.size copy.graph.size g.covers.size copy.graph.covers.size)
  copy.checkInvariants
  return (copy, nodes)

end LogicNet.Network
