import LogicNet.Fanouts
import LogicNet.Proofs.WellFormed
import Mathlib.Data.List.Flatten

/-!
Uses and their counters. A node more uses each of its children once for every occurrence, a
redirection moves all uses of one node to the other, and the operations on the counters do the same
to the numbers.
-/

namespace LogicNet

namespace Graph

variable {g : Graph}

theorem count_map_rename {old new : NodeId} (hne : new ≠ old) (ns : List NodeId) (n : NodeId) :
    (ns.map (rename old new)).count n =
      if n = old then 0 else if n = new then ns.count new + ns.count old else ns.count n := by
  induction ns with
  | nil => simp
  | cons head rest ih =>
      rw [List.map_cons, List.count_cons, ih]
      simp only [List.count_cons, rename, beq_iff_eq]
      by_cases hhead : head = old
      · subst hhead
        simp only [if_true]
        by_cases hold : n = head
        · subst hold
          simp [hne]
        · by_cases hnew : n = new
          · subst hnew
            simp [hne, Ne.symm hne]
            omega
          · simp [hold, hnew, Ne.symm hold, Ne.symm hnew]
      · simp only [hhead, if_false]
        by_cases hold : n = old
        · subst hold
          simp [hhead]
        · by_cases hnew : n = new
          · subst hnew
            simp [hold]
            omega
          · simp [hold, hnew]

theorem uses_redirect {old new : NodeId} (hne : new ≠ old) (n : NodeId) :
    (g.redirect old new).uses n =
      if n = old then 0 else if n = new then g.uses new + g.uses old else g.uses n := by
  rw [uses, redirect_references, count_map_rename hne]
  rfl

theorem uses_addNode (node : Node) (n : NodeId) :
    (g.addNode node).uses n = g.uses n + node.children.count n := by
  have hout : (g.addNode node).outputs = g.outputs := rfl
  have hnodes : (g.addNode node).nodes.toList = g.nodes.toList ++ [node] := by simp [addNode]
  simp only [uses, references, hout, hnodes, List.flatMap_append, List.flatMap_cons,
    List.flatMap_nil, List.append_nil, List.count_append]
  omega

theorem uses_of_outputs {g' : Graph} (hnodes : g'.nodes = g.nodes) (signal n : NodeId)
    (houtputs : g'.outputs.Perm (g.outputs ++ [signal])) :
    g'.uses n = g.uses n + if n = signal then 1 else 0 := by
  simp only [uses, references, hnodes, List.count_append, houtputs.count_eq, List.count_singleton,
    beq_iff_eq, eq_comm (a := signal)]
  omega

theorem references_of_input {g' : Graph} (hnodes : g'.nodes = g.nodes.push g.inputNode)
    (houtputs : g'.outputs = g.outputs) : g'.references = g.references := by
  simp [references, inputNode, hnodes, houtputs]

theorem length_references_addNode (g : Graph) (node : Node) :
    (g.addNode node).references.length = g.references.length + node.children.length := by
  simp [references, addNode]
  omega

theorem length_references_pushPrimaryOutput (g : Graph) (signal : NodeId) :
    (g.pushPrimaryOutput signal).references.length = g.references.length + 1 := by
  simp [references, Nat.add_assoc]

theorem length_references_pushRegisterInput (g : Graph) (signal : NodeId) (reset : Reset) :
    (g.pushRegisterInput signal reset).references.length = g.references.length + 1 := by
  simp [references, Nat.add_assoc]

/-- The children of the nodes, in the order of their names. -/
theorem flatMap_children_eq (g : Graph) :
    g.nodes.toList.flatMap (·.children) = g.nodeIds.flatMap g.childrenOf := by
  rw [List.flatMap_def, List.flatMap_def]
  congr 1
  refine List.ext_getElem (by simp [nodeIds, size]) fun i hi _ => ?_
  have hi : i < g.nodes.size := by simpa using hi
  simp only [nodeIds, List.getElem_map, List.getElem_range]
  rw [childrenOf_eq (Array.getElem?_eq_getElem hi), Array.getElem_toList]

/-- Different nodes use no more than all nodes do. -/
theorem length_flatMap_childrenOf_le {ns : List NodeId} (hnodup : ns.Nodup)
    (hlt : ∀ n ∈ ns, n < g.size) :
    (ns.flatMap g.childrenOf).length + g.outputs.length ≤ g.references.length := by
  obtain ⟨some, hperm, hsublist⟩ := hnodup.subperm fun n hn => List.mem_range.2 (hlt n hn)
  rw [references, List.length_append, flatMap_children_eq,
    ← (hperm.flatMap_right g.childrenOf).length_eq]
  exact Nat.add_le_add_right (hsublist.flatMap g.childrenOf).length_le _

/-- The occurrences of a node among the children of its parents are all of its uses as a child. -/
theorem total_count_parents (g : Graph) (n : NodeId) :
    total ((g.parents n).map fun parent => (g.childrenOf parent).count n) + g.outputs.count n =
      g.uses n := by
  have htotal : ∀ nodes : List NodeId,
      total ((g.parentsAmong n nodes).map fun parent => (g.childrenOf parent).count n) =
        (nodes.flatMap g.childrenOf).count n := by
    intro nodes
    induction nodes with
    | nil => rfl
    | cons node rest ih =>
        rw [List.flatMap_cons, List.count_append, ← ih, parentsAmong, parentsAmong]
        by_cases hmem : n ∈ g.childrenOf node
        · rw [List.filter_cons_of_pos (by simpa using hmem)]
          simp
        · rw [List.filter_cons_of_neg (by simpa using hmem), List.count_eq_zero.2 hmem]
          simp
  rw [uses, references, List.count_append, flatMap_children_eq, ← htotal]
  rfl

theorem getElem?_foldl_modify (ns : List NodeId) (counts : Array Nat) (n : NodeId) :
    (ns.foldl (fun counts n => counts.modify n (· + 1)) counts)[n]? =
      (counts[n]?).map (· + ns.count n) := by
  induction ns generalizing counts with
  | nil => simp
  | cons head rest ih =>
      rw [List.foldl_cons, ih, Array.getElem?_modify, List.count_cons]
      by_cases hhead : head = n
      · subst hhead
        cases counts[head]? with
        | none => simp
        | some count =>
            simp
            omega
      · simp [hhead]

theorem useCounts_getD {n : NodeId} (hn : n < g.size) : g.useCounts.getD n 0 = g.uses n := by
  rw [Array.getD_eq_getD_getElem?, useCounts, getElem?_foldl_modify]
  simp [hn, uses]

end Graph

namespace Fanouts

variable {counts counts' : Fanouts}

theorem get_set (n m value : Nat) (hn : n < counts.size) :
    Fanouts.get (counts.setIfInBounds n value) m = if m = n then value else counts.get m :=
  getD_setIfInBounds value m 0 hn

theorem get_push_zero (n : Nat) : Fanouts.get (counts.push 0) n = counts.get n := by
  unfold Fanouts.get
  rw [Array.getD_eq_getD_getElem?, Array.getD_eq_getD_getElem?, Array.getElem?_push]
  by_cases h : n = counts.size
  · subst h
    simp
  · simp [h]

theorem raise_eq_ok_iff (n extra : Nat) : counts.raise n extra = .ok counts' ↔
    counts.get n + extra < UInt32.size ∧
      counts' = counts.setIfInBounds n (counts.get n + extra) := by
  unfold raise
  split
  · next h => simp [h, eq_comm]
  · next h => simp [h]

/-- Only a full counter refuses a use. -/
theorem raise_error {n extra : Nat} {fault : Fault}
    (h : counts.raise n extra = .error fault) : fault = .counterFull := by
  unfold raise at h
  split at h
  · cases h
  · cases h
    rfl

theorem raiseAll_error {used : List NodeId} {fault : Fault}
    (h : counts.raiseAll used = .error fault) : fault = .counterFull := by
  induction used generalizing counts with
  | nil => cases h
  | cons head rest ih =>
      rw [raiseAll, List.foldlM_cons] at h
      cases hraise : counts.raise head 1 with
      | error other =>
          rw [hraise] at h
          cases h
          exact raise_error hraise
      | ok middle =>
          rw [hraise] at h
          exact ih h

/-- Counting one use more of each node of a list. -/
theorem raiseAll_get {used : List NodeId} (h : counts.raiseAll used = .ok counts')
    (hused : ∀ n ∈ used, n < counts.size) :
    counts'.size = counts.size ∧ ∀ n, counts'.get n = counts.get n + used.count n := by
  induction used generalizing counts with
  | nil =>
      cases h
      simp
  | cons head rest ih =>
      rw [raiseAll, List.foldlM_cons] at h
      cases hraise : counts.raise head 1 with
      | error fault =>
          rw [hraise] at h
          cases h
      | ok middle =>
          rw [hraise] at h
          obtain ⟨_, rfl⟩ := (raise_eq_ok_iff _ _).1 hraise
          have hhead := hused head List.mem_cons_self
          obtain ⟨hsize, hget⟩ := ih h (by
            intro n hn
            rw [Array.size_setIfInBounds]
            exact hused n (List.mem_cons_of_mem head hn))
          refine ⟨by rw [hsize, Array.size_setIfInBounds], fun n => ?_⟩
          rw [hget, get_set _ _ _ hhead, List.count_cons]
          by_cases hn : n = head
          · subst hn
            simp
            omega
          · simp [hn, Ne.symm hn]

/-- The uses of a list are counted if no counter gets full. -/
theorem raiseAll_isOk {used : List NodeId} (hused : ∀ n ∈ used, n < counts.size)
    (hroom : ∀ n, counts.get n + used.count n < UInt32.size) :
    ∃ counts', counts.raiseAll used = .ok counts' := by
  induction used generalizing counts with
  | nil => exact ⟨counts, rfl⟩
  | cons head rest ih =>
      have hhead := hused head List.mem_cons_self
      have hlt : counts.get head + 1 < UInt32.size := by
        have := hroom head
        rw [List.count_cons_self] at this
        omega
      have hraise := (raise_eq_ok_iff head 1).2 ⟨hlt, rfl⟩
      have hused' : ∀ n ∈ rest, n < (counts.setIfInBounds head (counts.get head + 1)).size := by
        intro n hn
        rw [Array.size_setIfInBounds]
        exact hused n (List.mem_cons_of_mem head hn)
      have hroom' : ∀ n, Fanouts.get (counts.setIfInBounds head (counts.get head + 1)) n +
          rest.count n < UInt32.size := by
        intro n
        have := hroom n
        rw [get_set _ _ _ hhead]
        rw [List.count_cons] at this
        by_cases hn : n = head
        · subst hn
          simp only [BEq.rfl, if_true] at this ⊢
          omega
        · simpa [hn, Ne.symm hn] using this
      obtain ⟨counts', hrest⟩ := ih hused' hroom'
      refine ⟨counts', ?_⟩
      rw [raiseAll, List.foldlM_cons, hraise]
      exact hrest

/-- Two updates of a counter, one after the other, are one update. -/
theorem raise_bind_raise {n : Nat} (hn : n < counts.size) (extra more : Nat) :
    (counts.raise n extra >>= fun counts => counts.raise n more) =
      counts.raise n (extra + more) := by
  have hraised : Fanouts.get (counts.setIfInBounds n (counts.get n + extra)) n =
      counts.get n + extra := by
    rw [get_set _ _ _ hn, if_pos rfl]
  by_cases hextra : counts.get n + extra < UInt32.size
  · rw [(raise_eq_ok_iff n extra).2 ⟨hextra, rfl⟩]
    show Fanouts.raise _ n more = _
    rw [raise, raise, hraised, Nat.add_assoc]
    simp [Array.setIfInBounds_setIfInBounds]
  · have hsum : ¬ counts.get n + (extra + more) < UInt32.size := by omega
    rw [raise, if_neg hextra, raise, if_neg hsum]
    rfl

/-- Updates of a counter one by one come to one update by their sum. -/
theorem foldlM_raise {α : Type} {n : Nat} (hn : n < counts.size) (extra : α → Nat) (items : List α)
    (more : Nat) :
    (items.foldlM (fun counts item => Fanouts.raise counts n (extra item)) counts >>= fun counts =>
      counts.raise n more) = counts.raise n (total (items.map extra) + more) := by
  induction items generalizing counts with
  | nil => simp
  | cons item rest ih =>
      rw [List.foldlM_cons, bind_assoc, List.map_cons, total_cons, Nat.add_assoc,
        ← raise_bind_raise hn]
      cases hraise : counts.raise n (extra item) with
      | error fault => rfl
      | ok raised =>
          obtain ⟨_, rfl⟩ := (raise_eq_ok_iff _ _).1 hraise
          exact ih (by rwa [Array.size_setIfInBounds])

theorem get_move {old new : Nat} (hold : old < counts.size) (hnew : new < counts.size)
    (moved n : Nat) :
    Fanouts.get ((counts.setIfInBounds new (counts.get new + moved)).setIfInBounds old 0) n =
      if n = old then 0 else if n = new then counts.get new + moved else counts.get n := by
  rw [get_set _ _ _ (by rwa [Array.size_setIfInBounds]), get_set _ _ _ hnew]

end Fanouts

namespace Network

/-- All uses of a node are moved if the counter of the other one has room for them. -/
theorem moveUses_eq_ok_iff {net : Network} {old new : NodeId} {fanouts : Fanouts}
    (hnew : new < net.fanouts.size) : net.moveUses old new = .ok fanouts ↔
      net.fanouts.get new + net.graph.uses old < UInt32.size ∧
        fanouts = (net.fanouts.setIfInBounds new
          (net.fanouts.get new + net.graph.uses old)).setIfInBounds old 0 := by
  have hraised : (net.raiseAmong old new net.graph.nodeIds >>= fun fanouts =>
      fanouts.raise new (net.graph.outputs.count old)) =
        net.fanouts.raise new (net.graph.uses old) := by
    rw [← Graph.total_count_parents]
    exact Fanouts.foldlM_raise hnew _ _ _
  have hmoved : net.moveUses old new =
      (·.setIfInBounds old 0) <$> net.fanouts.raise new (net.graph.uses old) := by
    rw [← hraised, map_bind]
    rfl
  rw [hmoved, Fanouts.raise]
  split <;> simp_all [Functor.map, Except.map, eq_comm]

end Network
end LogicNet
