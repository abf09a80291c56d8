import LogicNet.Fault

/-!
Fanout counters: for each node the number of its uses, kept up to date as uses come and go. A
counter holds 32 bits. An update that would take one past its largest value is refused as a whole.
-/

namespace LogicNet

/-- The counters, by node. -/
abbrev Fanouts := Array Nat

namespace Fanouts

/-- The counter of a node. -/
def get (counts : Fanouts) (n : NodeId) : Nat := counts.getD n 0

/-- Counts `extra` more uses of a node. -/
def raise (counts : Fanouts) (n : NodeId) (extra : Nat) : Except Fault Fanouts :=
  if counts.get n + extra < UInt32.size then .ok (counts.setIfInBounds n (counts.get n + extra))
  else .error .counterFull

/-- Counts one use of each node of a list, once for each of its occurrences. -/
def raiseAll (counts : Fanouts) (used : List NodeId) : Except Fault Fanouts :=
  used.foldlM (fun counts n => counts.raise n 1) counts

end Fanouts
end LogicNet
