import LogicNet.Action
import LogicNet.Node

/-!
Scratch space for algorithms that run over a network: for each node a counter and a mark, and the
number of the current traversal. A traversal takes a fresh number and marks the nodes that it has
met with it, so marks need not be cleared between traversals. None of this is part of what a
network computes.
-/

namespace LogicNet

/-- Counters, marks and the number of the last traversal. -/
structure Scratch where
  values : Array UInt32
  marks : Array UInt32
  traversal : UInt32
  deriving DecidableEq

namespace Scratch

/-- Scratch space for `count` nodes. -/
def clear (count : Nat) : Scratch := ⟨Array.replicate count 0, Array.replicate count 0, 0⟩

/-- Room for one more node. -/
def grow (s : Scratch) : Scratch := { s with values := s.values.push 0, marks := s.marks.push 0 }

/-- The counter of a node. -/
def value (s : Scratch) (n : NodeId) : UInt32 := s.values.getD n 0

/-- The mark of a node. -/
def mark (s : Scratch) (n : NodeId) : UInt32 := s.marks.getD n 0

def setValue (s : Scratch) (n : NodeId) (value : UInt32) : Scratch :=
  { s with values := s.values.setIfInBounds n value }

def setMark (s : Scratch) (n : NodeId) (mark : UInt32) : Scratch :=
  { s with marks := s.marks.setIfInBounds n mark }

/-- Sets every counter to zero. -/
def clearValues (s : Scratch) : Scratch := { s with values := s.values.map fun _ => 0 }

/-- Sets every mark to zero; the number of the traversal stays. -/
def clearMarks (s : Scratch) : Scratch := { s with marks := s.marks.map fun _ => 0 }

/-- Takes the next traversal number; the largest one has no successor. -/
def nextTraversal : Action Scratch UInt32 := do
  let s ← get
  Action.require (s.traversal.toNat + 1 < UInt32.size) .counterFull
  set { s with traversal := s.traversal + 1 }
  return s.traversal + 1

end Scratch
end LogicNet
