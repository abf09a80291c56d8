import LogicNet.Network.Build

/-!
Reductions: combining a list of operands by a two-operand construction, from left to right or as a
balanced tree. An empty list has no reduction unless an identity is given for it, and a single
operand is its own.
-/

namespace LogicNet.Network

/-- A construction on two operands. -/
abbrev Combine := NodeId → NodeId → Action Network NodeId

/-- The construction of a two-operand gate. -/
def combineBy (kind : Gate) : Combine := fun a b => gate kind [a, b]

/-- Combines the operands from left to right. -/
def linearReduce (combine : Combine) : List NodeId → Action Network NodeId
  | [] => Action.fail .nothingToReduce
  | operand :: rest => rest.foldlM combine operand

/-- Combines the reductions of the two halves of the operands, of which the first is the shorter one
if they differ. -/
def treeReduce (combine : Combine) (operands : List NodeId) : Action Network NodeId :=
  match operands with
  | [] => Action.fail .nothingToReduce
  | [operand] => return operand
  | a :: b :: rest => do
    let operands := a :: b :: rest
    let half := operands.length / 2
    Action.note (.operandsSplit operands.length half (operands.length - half))
    let left ← treeReduce combine (operands.take half)
    let right ← treeReduce combine (operands.drop half)
    combine left right
termination_by operands.length
decreasing_by
  · simp only [List.length_take, List.length_cons]
    omega
  · simp only [List.length_drop, List.length_cons]
    omega

/-- The shape of a reduction. -/
inductive Shape where
  | linear | tree
  deriving DecidableEq

/-- Combines the operands in the given shape; of no operands the result is `identity`. -/
def reduce (shape : Shape) (combine : Combine) (identity : NodeId) (operands : List NodeId) :
    Action Network NodeId :=
  if operands.isEmpty then return identity
  else match shape with
    | .linear => linearReduce combine operands
    | .tree => treeReduce combine operands

/-- The conjunction of any number of operands. -/
def conjunction : List NodeId → Action Network NodeId :=
  reduce .tree (combineBy .and) (Graph.constant true)

/-- The disjunction of any number of operands. -/
def disjunction : List NodeId → Action Network NodeId :=
  reduce .tree (combineBy .or) (Graph.constant false)

/-- The parity of any number of operands. -/
def parity : List NodeId → Action Network NodeId :=
  reduce .tree (combineBy .xor) (Graph.constant false)

end LogicNet.Network
