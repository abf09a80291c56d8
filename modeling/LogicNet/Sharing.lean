import LogicNet.Node
import Std.Data.ExtTreeMap

/-!
The sharing table: for each request for a node, by its ordered children and its cover, the node that
was made for it. Two tables with the same entries are equal. The order of the requests has no
meaning; it only serves to find them.
-/

namespace LogicNet

/-- A request for a node. -/
abbrev Request := Node

/-- Requests are ordered by their children and then by their cover. -/
def Request.order : Request → Request → Ordering :=
  compareLex (compareOn Node.children) (compareOn Node.cover)

instance : Std.TransCmp Request.order :=
  inferInstanceAs (Std.TransCmp (compareLex (compareOn Node.children) (compareOn Node.cover)))

instance : Std.LawfulEqCmp Request.order where
  eq_of_compare {a b} h := by
    have h' : a.children = b.children ∧ a.cover = b.cover := by
      simpa only [Request.order, compareLex, compareOn, Ordering.then_eq_eq,
        Std.LawfulEqOrd.compare_eq_iff_eq] using h
    cases a
    cases b
    simp_all

/-- The nodes that were made for requests. -/
abbrev SharingTable := Std.ExtTreeMap Request NodeId Request.order

namespace SharingTable

/-- Makes `n` the node of a request. -/
def record (table : SharingTable) (request : Request) (n : NodeId) : SharingTable :=
  table.insert request n

/-- The node of a request. -/
def find? (table : SharingTable) (request : Request) : Option NodeId := table[request]?

theorem find?_record (table : SharingTable) (request other : Request) (n : NodeId) :
    (table.record request n).find? other = if request = other then some n else table.find? other := by
  simp [find?, record, Std.ExtTreeMap.getElem?_insert, Std.LawfulEqCmp.compare_eq_iff_eq]

end SharingTable
end LogicNet
