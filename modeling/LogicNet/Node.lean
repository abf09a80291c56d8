import LogicNet.Pattern
import Std.Data.ExtTreeMap

/-!
Names of nodes and of covers, and the record of a node. A signal carries no complement, so a
signal is the name of the node that drives it. Names are positions: a node's in the list of nodes,
a cover's in the table of covers.
-/

namespace LogicNet

/-- The name of a node, and of the signal that it drives. -/
abbrev NodeId := Nat

/-- The name of an entry of the cover table. -/
abbrev CoverId := Nat

/-- A table over nodes, in the order of their names. -/
abbrev NodeMap (α : Type) := Std.ExtTreeMap NodeId α

/-- A node applies the function of a cover to an ordered list of children, the first of which is
the most significant input. Constants and inputs have no children. -/
structure Node where
  children : List NodeId
  cover : CoverId
  deriving DecidableEq

/-- The text of a signal in a listing. -/
def NodeId.text (n : NodeId) : String := s!"%{n}"

/-- The text of a node where a message names it. -/
def NodeId.label (n : NodeId) : String := s!"NodeRef \x7b id: {n} \x7d"

/-- The text of a cover where a message names it. -/
def CoverId.label (c : CoverId) : String := s!"CoverRef \x7b id: {c} \x7d"

end LogicNet
