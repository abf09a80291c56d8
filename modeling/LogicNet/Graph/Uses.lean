import LogicNet.Graph.Basic

/-!
Uses of nodes. A node is used once for each occurrence in a list of children and once for each
combinational output that it drives.
-/

namespace LogicNet.Graph

/-- Every use of a node, as a list of the nodes used. -/
def references (g : Graph) : List NodeId := g.nodes.toList.flatMap (·.children) ++ g.outputs

/-- The number of uses of a node. -/
def uses (g : Graph) (n : NodeId) : Nat := g.references.count n

/-- The numbers of uses of all nodes, in one pass. -/
def useCounts (g : Graph) : Array Nat :=
  g.references.foldl (fun counts n => counts.modify n (· + 1)) (Array.replicate g.size 0)

/-- The name `new` in place of `old`, and every other name as it is. -/
def rename (old new n : NodeId) : NodeId := if n = old then new else n

/-- Gives a node other children. -/
def setChildren (g : Graph) (n : NodeId) (children : List NodeId) : Graph :=
  { g with nodes := g.nodes.modify n ({ · with children }) }

/-- Makes every output that is `old` the output `new`. -/
def renameOutputs (g : Graph) (old new : NodeId) : Graph :=
  { g with outputs := g.outputs.map (rename old new) }

end LogicNet.Graph
