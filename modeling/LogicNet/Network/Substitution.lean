import LogicNet.Graph.Reach
import LogicNet.Network.Basic

/-!
Substitution: every use of one node becomes a use of another. The replaced node stays where it is,
with its children and without uses, and so do the entries of the sharing table: a request with the
replaced node among its children is still met by the node that was made for it, whatever that node's
children are now. A node cannot be replaced by one that depends on it, since that would close a
cycle.
-/

namespace LogicNet.Network

/-- Refuses a substitution that is not possible: of or by a name without a node, of a node by
itself, or of a node by one that depends on it. -/
def checkSubstitution (g : Graph) (old new : NodeId) : Except Fault Unit := do
  g.check old
  g.check new
  if old = new then
    throw (.selfSubstitution old)
  if ← g.dependsOn new old then
    throw (.cyclicSubstitution old new)

/-- A rewriting in progress: the graph and the counters so far, what listeners have been told, and
how many nodes and how many of their children have been rewritten. -/
structure Rewriting where
  graph : Graph
  fanouts : Fanouts
  told : List Entry
  parents : Nat
  references : Nat

namespace Rewriting

/-- Nothing has been rewritten. -/
def start (net : Network) : Rewriting := ⟨net.graph, net.fanouts, [], 0, 0⟩

/-- Goes on to a node. If `old` is among its children, `new` takes each of its places there, these
uses are counted as uses of `new`, and listeners are told what the children were. -/
def next (listeners : Listeners) (old new : NodeId) (done : Rewriting) (n : NodeId) :
    Except Fault Rewriting := do
  let children ← done.graph.children n
  if !children.contains old then
    return done
  let count := children.count old
  let fanouts ← done.fanouts.raise new count
  return {
    graph := done.graph.setChildren n (children.map (Graph.rename old new))
    fanouts
    told := done.told ++ listeners.deliveries (.modified n children)
    parents := done.parents + 1
    references := done.references + count }

end Rewriting

/-- Replaces every use of `old` by a use of `new`: node by node, in the order of their creation, and
then among the outputs. -/
def substitute (old new : NodeId) : Action Network Unit := do
  let net ← get
  checkSubstitution net.graph old new
  let done ← (net.graph.nodeIds.foldlM (Rewriting.next net.listeners old new) (.start net) :
    Except Fault Rewriting)
  let outputs := done.graph.outputs.count old
  let fanouts ← done.fanouts.raise new outputs
  set { net with
    graph := done.graph.renameOutputs old new
    fanouts := fanouts.setIfInBounds old 0 }
  Action.report done.told
  Action.note (.substituted old new done.parents done.references outputs)
  if net.options.verify then
    (← get).checkInvariants

end LogicNet.Network
