import LogicNet.Graph.Basic

/-!
Dependence: whether one node can be reached from another by going to children. The search keeps a
list of nodes still to be looked at and remembers those that it has looked at. Each step takes a node
off the list and adds the children of a node at most once, so the search ends on every graph, with
cycles or without.
-/

namespace LogicNet.Graph

/-- The number of children of the nodes that have not been looked at. -/
def unseenChildren (g : Graph) (seen : Array Bool) : Nat :=
  total ((List.range seen.size).map fun n => if seen[n]? = some true then 0
    else (g.childrenOf n).length)

theorem total_map_range_congr_except (f f' : Nat → Nat) (n : Nat) (h : ∀ i, i ≠ n → f i = f' i) :
    ∀ count, n < count →
      total ((List.range count).map f) + f' n = total ((List.range count).map f') + f n := by
  intro count
  induction count with
  | zero => intro hn; omega
  | succ count ih =>
    intro hn
    simp only [List.range_succ, List.map_append, List.map_cons, List.map_nil, total_append,
      total_cons, total_nil]
    by_cases hcount : n = count
    · subst hcount
      have : (List.range n).map f = (List.range n).map f' :=
        List.map_congr_left fun i hi => h i (Nat.ne_of_lt (List.mem_range.1 hi))
      rw [this]
      omega
    · have := ih (by omega)
      have := h count (Ne.symm hcount)
      omega

theorem unseenChildren_set (g : Graph) (seen : Array Bool) (n : NodeId) (h : n < seen.size)
    (hseen : seen[n] ≠ true) :
    g.unseenChildren (seen.set n true) + (g.childrenOf n).length = g.unseenChildren seen := by
  have := total_map_range_congr_except
    (fun i => if (seen.set n true)[i]? = some true then 0 else (g.childrenOf i).length)
    (fun i => if seen[i]? = some true then 0 else (g.childrenOf i).length) n
    (fun i hi => by simp [Ne.symm hi]) seen.size h
  simpa [unseenChildren, h, hseen] using this

/-- Looks for `target` among the pending nodes and everything below them. A pending name that
belongs to no node and is not the target ends the search. -/
def search (g : Graph) (target : NodeId) (seen : Array Bool) (pending : List NodeId) :
    Except Fault Bool :=
  match pending with
  | [] => .ok false
  | n :: rest =>
    if n = target then .ok true
    else if h : n < seen.size then
      if hseen : seen[n] = true then g.search target seen rest
      else g.search target (seen.set n true) ((g.childrenOf n).reverse ++ rest)
    else .error (.unknownNode n)
termination_by g.unseenChildren seen + pending.length
decreasing_by
  · simp only [List.length_cons]
    omega
  · have := g.unseenChildren_set seen n h hseen
    simp only [List.length_append, List.length_reverse, List.length_cons]
    omega

/-- Whether `n` is `target` or `target` is below it. -/
def dependsOn (g : Graph) (n target : NodeId) : Except Fault Bool :=
  g.search target (Array.replicate g.size false) [n]

end LogicNet.Graph
