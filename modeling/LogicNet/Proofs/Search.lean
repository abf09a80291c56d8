import LogicNet.Graph.Reach
import LogicNet.Proofs.Acyclic

/-!
The search for dependences. On a graph whose lists of children hold names of nodes only, the search
ends with an answer, and the answer is whether the target is reached from the start. The invariant
behind it: nothing that has been looked at is the target, and the children of what has been looked
at have been looked at or are pending.
-/

namespace LogicNet.Graph

variable {g : Graph} {target : NodeId}

/-- What a search in progress relies on. -/
structure Searching (g : Graph) (target : NodeId) (seen : Array Bool) (pending : List NodeId) :
    Prop where
  seen_size : seen.size = g.size
  pending_lt : ∀ n ∈ pending, n < g.size
  seen_ne : ∀ n, seen[n]? = some true → n ≠ target
  seen_children : ∀ n, seen[n]? = some true →
    ∀ child ∈ g.childrenOf n, seen[child]? = some true ∨ child ∈ pending

/-- A path from a node that has been looked at to the target leads through a pending node. -/
theorem Searching.exists_pending {seen : Array Bool} {pending : List NodeId}
    (h : Searching g target seen pending) {n : NodeId} (hn : seen[n]? = some true)
    (hpath : Reaches g.childrenOf n target) : ∃ m ∈ pending, Reaches g.childrenOf m target := by
  induction hpath using Relation.ReflTransGen.head_induction_on with
  | refl => exact absurd rfl (h.seen_ne target hn)
  | head hstep hpath ih =>
      rcases h.seen_children _ hn _ hstep with hseen | hpending
      · exact ih hseen
      · exact ⟨_, hpending, hpath⟩

theorem Searching.drop {seen : Array Bool} {n : NodeId} {rest : List NodeId}
    (h : Searching g target seen (n :: rest)) (hn : seen[n]? = some true) :
    Searching g target seen rest where
  seen_size := h.seen_size
  pending_lt m hm := h.pending_lt m (List.mem_cons_of_mem n hm)
  seen_ne := h.seen_ne
  seen_children m hm child hchild := by
    rcases h.seen_children m hm child hchild with hseen | hpending
    · exact Or.inl hseen
    · rcases List.mem_cons.1 hpending with rfl | hrest
      · exact Or.inl hn
      · exact Or.inr hrest

theorem Searching.expand {seen : Array Bool} {n : NodeId} {rest : List NodeId}
    (h : Searching g target seen (n :: rest)) (hbound : Bounded g.childrenOf g.size)
    (hlt : n < seen.size) (hne : n ≠ target) :
    Searching g target (seen.set n true) ((g.childrenOf n).reverse ++ rest) where
  seen_size := by rw [Array.size_set, h.seen_size]
  pending_lt m hm := by
    rcases List.mem_append.1 hm with hchild | hrest
    · exact hbound n m (List.mem_reverse.1 hchild)
    · exact h.pending_lt m (List.mem_cons_of_mem n hrest)
  seen_ne m hm := by
    rw [Array.getElem?_set] at hm
    split at hm
    · next heq => exact heq ▸ hne
    · exact h.seen_ne m hm
  seen_children m hm child hchild := by
    rw [Array.getElem?_set] at hm ⊢
    split at hm
    · next heq =>
        subst heq
        exact Or.inr (List.mem_append_left rest (List.mem_reverse.2 hchild))
    · rcases h.seen_children m hm child hchild with hseen | hpending
      · left
        split
        · rfl
        · exact hseen
      · rcases List.mem_cons.1 hpending with rfl | hrest
        · exact Or.inl (if_pos rfl)
        · exact Or.inr (List.mem_append_right _ hrest)

/-- The search answers whether the target is reached from a pending node. -/
theorem search_eq_ok (hbound : Bounded g.childrenOf g.size) (seen : Array Bool)
    (pending : List NodeId) (h : Searching g target seen pending) :
    ∃ found, g.search target seen pending = .ok found ∧
      (found = true ↔ ∃ n ∈ pending, Reaches g.childrenOf n target) := by
  induction seen, pending using search.induct g target with
  | case1 seen => exact ⟨false, by rw [search], by simp⟩
  | case2 seen rest =>
      refine ⟨true, by rw [search, if_pos rfl], ?_⟩
      exact ⟨fun _ => ⟨target, List.mem_cons_self, .refl⟩, fun _ => rfl⟩
  | case3 seen n rest hne hlt hseen ih =>
      have hn : seen[n]? = some true := by rw [Array.getElem?_eq_getElem hlt, hseen]
      obtain ⟨found, hrun, hfound⟩ := ih (h.drop hn)
      refine ⟨found, by rw [search, if_neg hne, dif_pos hlt, dif_pos hseen, hrun], ?_⟩
      rw [hfound]
      constructor
      · rintro ⟨m, hm, hpath⟩
        exact ⟨m, List.mem_cons_of_mem n hm, hpath⟩
      · rintro ⟨m, hm, hpath⟩
        rcases List.mem_cons.1 hm with rfl | hrest
        · exact (h.drop hn).exists_pending hn hpath
        · exact ⟨m, hrest, hpath⟩
  | case4 seen n rest hne hlt hseen ih =>
      obtain ⟨found, hrun, hfound⟩ := ih (h.expand hbound hlt hne)
      refine ⟨found, by rw [search, if_neg hne, dif_pos hlt, dif_neg hseen, hrun], ?_⟩
      rw [hfound]
      constructor
      · rintro ⟨m, hm, hpath⟩
        rcases List.mem_append.1 hm with hchild | hrest
        · exact ⟨n, List.mem_cons_self, .head (List.mem_reverse.1 hchild) hpath⟩
        · exact ⟨m, List.mem_cons_of_mem n hrest, hpath⟩
      · rintro ⟨m, hm, hpath⟩
        rcases List.mem_cons.1 hm with rfl | hrest
        · rcases hpath.cases_head with heq | ⟨child, hchild, hpath⟩
          · exact absurd heq hne
          · exact ⟨child, List.mem_append_left _ (List.mem_reverse.2 hchild), hpath⟩
        · exact ⟨m, List.mem_append_right _ hrest, hpath⟩
  | case5 seen n rest hne hlt =>
      exact absurd (h.seen_size ▸ h.pending_lt n List.mem_cons_self) hlt

/-- The question whether one node depends on another is answered, and rightly, on every graph whose
children are nodes, with cycles or without. -/
theorem dependsOn_eq_ok (hbound : Bounded g.childrenOf g.size) {n : NodeId} (hn : n < g.size)
    (target : NodeId) :
    ∃ found, g.dependsOn n target = .ok found ∧ (found = true ↔ Reaches g.childrenOf n target) := by
  have hnone : ∀ m : Nat, (Array.replicate g.size false)[m]? ≠ some true := by
    intro m hm
    rw [Array.getElem?_replicate] at hm
    split at hm
    · cases hm
    · cases hm
  have hstart : Searching g target (Array.replicate g.size false) [n] :=
    ⟨Array.size_replicate, by simpa using hn, fun m hm => absurd hm (hnone m),
      fun m hm => absurd hm (hnone m)⟩
  obtain ⟨found, hrun, hfound⟩ := search_eq_ok hbound _ _ hstart
  exact ⟨found, hrun, by simpa using hfound⟩

end LogicNet.Graph
