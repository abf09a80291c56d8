import LogicNet.Graph.Postorder
import LogicNet.Graph.Terminals

/-!
Statistics of the part of a graph that the outputs depend on. The depth of a gate is the number of
gates on the longest path from it down to an input or a constant, which are at depth zero.
-/

namespace LogicNet

/-- The entry of a node, which has to be there. -/
def NodeMap.entry {α : Type} (map : NodeMap α) (n : NodeId) : Except Fault α :=
  match map[n]? with
  | some value => .ok value
  | none => .error (.missingEntry n)

/-- The figures of a network. Gates that no output depends on count among `nodes` and `gates`
only. -/
structure Summary where
  nodes : Nat
  gates : Nat
  liveGates : Nat
  /-- The cubes of the covers of live gates, counted once for each gate. -/
  cubes : Nat
  maxFanin : Nat
  /-- The depth of the deepest output. -/
  deepest : Nat
  deriving DecidableEq

namespace Graph

/-- The depth of a node, given those of its children. -/
def depthAbove (g : Graph) (depths : NodeMap Nat) (n : NodeId) : Except Fault Nat := do
  if g.isGate n then
    let below ← (g.childrenOf n).mapM depths.entry
    return below.foldl max 0 + 1
  else return 0

/-- The depths of the nodes in `order`, each of which follows its children. -/
def depthsAlong (g : Graph) (order : List NodeId) : Except Fault (NodeMap Nat) :=
  order.foldlM (fun depths n => return depths.insert n (← g.depthAbove depths n)) ∅

/-- The depths of the nodes that some output depends on. -/
def depths (g : Graph) : Action Scratch (NodeMap Nat) := do
  let order ← g.postorderOfOutputs
  g.depthsAlong order

/-- The number of cubes of the cover of a node. -/
def cubeCount (g : Graph) (n : NodeId) : Nat :=
  match g.nodeCover n with
  | .ok cover => cover.cubes.length
  | .error _ => 0

/-- The depth of the deepest output, and zero without outputs. -/
def deepestOutput (g : Graph) (depths : NodeMap Nat) : Except Fault Nat :=
  return (← g.outputs.mapM depths.entry).foldl max 0

/-- The figures of a graph. -/
def summary (g : Graph) : Action Scratch Summary := do
  let depths ← g.depths
  let live := depths.keys.filter g.isGate
  let deepest ← g.deepestOutput depths
  Action.note (.summarized live.length g.gateCount deepest)
  return {
    nodes := g.size
    gates := g.gateCount
    liveGates := live.length
    cubes := total (live.map g.cubeCount)
    maxFanin := (live.map fun n => (g.childrenOf n).length).foldl max 0
    deepest }

end Graph
end LogicNet
