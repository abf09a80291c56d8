import LogicNet.Graph.Basic
import LogicNet.Scratch

/-!
Postorders: lists of nodes in which every node stands after its children. A graph lists its nodes in
the order of their creation, but redirected uses may point at later nodes, so whatever has to see
children first goes through a walk from here. The walk takes the next traversal number, marks what
it lists, and leaves out what carries that mark already.
-/

namespace LogicNet

/-- The state of a walk: the marks, the nodes still to be dealt with, the next one first, and the
nodes listed so far. -/
structure Walk where
  marks : Array UInt32
  pending : List NodeId
  listed : Array NodeId

namespace Walk

/-- Whether a node carries the mark of this walk. -/
def isMarked (walk : Walk) (pass : UInt32) (n : NodeId) : Bool := walk.marks.getD n 0 == pass

/-- Deals with the next pending node: one that is marked is dropped, one with an unmarked child is
put off until after the first such child, and any other is listed and marked. -/
def step (g : Graph) (pass : UInt32) (walk : Walk) : Walk :=
  match walk.pending with
  | [] => walk
  | n :: rest =>
    if walk.isMarked pass n then { walk with pending := rest }
    else
      match (g.childrenOf n).find? fun child => !walk.isMarked pass child with
      | some child => { walk with pending := child :: n :: rest }
      | none =>
        ⟨walk.marks.setIfInBounds n pass, rest, walk.listed.push n⟩

/-- Takes steps until nothing is pending, at most as many as `fuel` allows. -/
def run (g : Graph) (pass : UInt32) : Nat → Walk → Walk
  | 0, walk => walk
  | fuel + 1, walk =>
    if walk.pending.isEmpty then walk else run g pass fuel (walk.step g pass)

end Walk

namespace Graph

/-- Enough steps for a walk on a graph without cycles: a step that puts a node off leads to its
child being listed, and every pending entry is dropped or listed once. -/
def walkFuel (g : Graph) (starts : List NodeId) : Nat := 2 * g.size + starts.length + 1

/-- The nodes that can be reached from the starts, each after its children, the starts and the
children of each node from first to last. The starts are checked from last to first. -/
def postorder (g : Graph) (starts : List NodeId) : Action Scratch (List NodeId) := do
  let pass ← Scratch.nextTraversal
  g.checkAll starts.reverse
  let walk := Walk.run g pass (g.walkFuel starts) ⟨(← get).marks, starts, #[]⟩
  modify fun s => { s with marks := walk.marks }
  Action.note (.walked starts.length walk.listed.size)
  return walk.listed.toList

/-- The nodes that some output depends on. -/
def postorderOfOutputs (g : Graph) : Action Scratch (List NodeId) := g.postorder g.outputs

/-- For each node, whether the walk from the outputs meets it. -/
def live (g : Graph) : Action Scratch (List Bool) := do
  let order ← g.postorderOfOutputs
  let met := order.foldl (fun met n => met.setIfInBounds n true) (Array.replicate g.size false)
  return met.toList

end Graph
end LogicNet
