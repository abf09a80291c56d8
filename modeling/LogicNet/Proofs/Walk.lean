import LogicNet.Proofs.Growth
import LogicNet.Proofs.WellFormed
import Mathlib.Data.List.Induction

/-!
The walk lists what can be reached, children first. What has been listed so far is closed under
children, in an order in which they come first, and everything that can be reached is still ahead of
the pending nodes. Nodes that are put off stand on a path down, so without cycles none is put off
twice, which bounds the number of steps: each node is put off once and listed once, and each start
is taken off once.
-/

namespace LogicNet

/-- Every node of the list stands there once and after its children. -/
def Postordered (children : NodeId → List NodeId) (order : List NodeId) : Prop :=
  ∀ before n after, order = before ++ n :: after →
    n ∉ before ∧ ∀ child ∈ children n, child ∈ before

namespace Postordered

variable {children : NodeId → List NodeId} {order : List NodeId}

theorem nil : Postordered children [] := by
  intro before n after h
  cases before <;> cases h

theorem snoc (h : Postordered children order) {n : NodeId} (hn : n ∉ order)
    (hchildren : ∀ child ∈ children n, child ∈ order) : Postordered children (order ++ [n]) := by
  intro before m after heq
  rcases List.eq_nil_or_concat after with rfl | ⟨front, last, rfl⟩
  · obtain ⟨rfl, hlast⟩ := List.append_inj' heq rfl
    cases hlast
    exact ⟨hn, hchildren⟩
  · rw [List.concat_eq_append, ← List.cons_append, ← List.append_assoc] at heq
    exact h before m front (List.append_inj_left' heq rfl)

theorem child_mem (h : Postordered children order) {n child : NodeId} (hn : n ∈ order)
    (hchild : child ∈ children n) : child ∈ order := by
  obtain ⟨before, after, rfl⟩ := List.append_of_mem hn
  exact List.mem_append_left _ ((h before n after rfl).2 child hchild)

theorem reached_mem (h : Postordered children order) {n m : NodeId} (hn : n ∈ order)
    (hreach : Reaches children n m) : m ∈ order := by
  induction hreach with
  | refl => exact hn
  | tail _ hstep ih => exact h.child_mem ih hstep

theorem of_append {more : List NodeId} (h : Postordered children (order ++ more)) :
    Postordered children order := by
  intro before n after heq
  exact h before n (after ++ more) (by rw [heq, List.append_assoc, List.cons_append])

theorem nodup (h : Postordered children order) : order.Nodup := by
  induction order using List.reverseRecOn with
  | nil => exact List.nodup_nil
  | append_singleton order n ih =>
      have hn := (h order n [] rfl).1
      refine (ih h.of_append).append (List.nodup_singleton n) fun m hm hmn => ?_
      rw [List.mem_singleton.1 hmn] at hm
      exact hn hm

/-- Children of some kind come first also among the nodes of that kind. -/
theorem mem_of_filter (h : Postordered children order) {p : NodeId → Bool}
    {before after : List NodeId} {n child : NodeId} (hsplit : order.filter p = before ++ n :: after)
    (hchild : child ∈ children n) (hkind : p child = true) : child ∈ before := by
  obtain ⟨front, back, rfl, hfront, hback⟩ := List.filter_eq_append_iff.1 hsplit
  obtain ⟨skipped, rest, rfl, hskipped, _, _⟩ := List.filter_eq_cons_iff.1 hback
  have hmem := (h (front ++ skipped) n rest (by rw [List.append_assoc])).2 child hchild
  rcases List.mem_append.1 hmem with hmem | hmem
  · rw [← hfront]
    exact List.mem_filter.2 ⟨hmem, hkind⟩
  · exact absurd hkind (hskipped child hmem)

end Postordered

namespace Walk

variable {g : Graph} {pass : UInt32} {starts : List NodeId} {marks : Array UInt32} {walk : Walk}

/-- A walk from the starts that began on the given marks and has not gone wrong so far. -/
structure Underway (g : Graph) (pass : UInt32) (starts : List NodeId) (marks : Array UInt32)
    (walk : Walk) : Prop where
  marks_size : walk.marks.size = g.size
  marks_get : ∀ n, walk.marks.getD n 0 = if n ∈ walk.listed.toList then pass else marks.getD n 0
  pending_lt : ∀ n ∈ walk.pending, n < g.size
  ordered : Postordered g.childrenOf walk.listed.toList
  reached : ∀ n, n ∈ walk.pending ∨ n ∈ walk.listed.toList →
    ∃ start ∈ starts, Reaches g.childrenOf start n
  kept : ∀ start ∈ starts, start ∈ walk.pending ∨ start ∈ walk.listed.toList

theorem Underway.start (hsize : marks.size = g.size) (hstarts : ∀ n ∈ starts, n < g.size) :
    Underway g pass starts marks ⟨marks, starts, #[]⟩ where
  marks_size := hsize
  marks_get n := by simp
  pending_lt := hstarts
  ordered := .nil
  reached n hn := by
    rcases hn with hn | hn
    · exact ⟨n, hn, .refl⟩
    · simp at hn
  kept start hstart := Or.inl hstart

/-- On marks without that of the walk, exactly what has been listed is marked. -/
theorem Underway.isMarked_iff (h : Underway g pass starts marks walk)
    (hfresh : ∀ n, marks.getD n 0 ≠ pass) (n : NodeId) :
    walk.isMarked pass n = true ↔ n ∈ walk.listed.toList := by
  rw [isMarked, beq_iff_eq, h.marks_get]
  by_cases hn : n ∈ walk.listed.toList
  · rw [if_pos hn]
    exact iff_of_true rfl hn
  · rw [if_neg hn]
    exact iff_of_false (hfresh n) hn

/-- The three kinds of step. -/
theorem step_cases (g : Graph) (pass : UInt32) {n : NodeId} {rest : List NodeId}
    (hpending : walk.pending = n :: rest) :
    (walk.isMarked pass n = true ∧ walk.step g pass = { walk with pending := rest }) ∨
    (walk.isMarked pass n = false ∧ ∃ child ∈ g.childrenOf n, walk.isMarked pass child = false ∧
      walk.step g pass = { walk with pending := child :: n :: rest }) ∨
    (walk.isMarked pass n = false ∧ (∀ child ∈ g.childrenOf n, walk.isMarked pass child = true) ∧
      walk.step g pass =
        ⟨walk.marks.setIfInBounds n pass, rest, walk.listed.push n⟩) := by
  unfold step
  rw [hpending]
  dsimp only
  cases hmarked : walk.isMarked pass n with
  | true => exact Or.inl ⟨rfl, rfl⟩
  | false =>
      right
      cases hfind : (g.childrenOf n).find? fun child => !walk.isMarked pass child with
      | some child =>
          have hchild := List.find?_some hfind
          exact Or.inl ⟨rfl, child, List.mem_of_find?_eq_some hfind, by simpa using hchild,
            by simp⟩
      | none =>
          refine Or.inr ⟨rfl, fun child hchild => ?_, by simp⟩
          simpa using List.find?_eq_none.1 hfind child hchild

section Steps

variable {n : NodeId} {rest : List NodeId}

theorem Underway.drop (h : Underway g pass starts marks walk) (hpending : walk.pending = n :: rest)
    (hlisted : n ∈ walk.listed.toList) :
    Underway g pass starts marks { walk with pending := rest } where
  marks_size := h.marks_size
  marks_get := h.marks_get
  pending_lt m hm := h.pending_lt m (by simp [hpending, hm])
  ordered := h.ordered
  reached m hm := h.reached m (hm.imp_left fun hm => by simp [hpending, hm])
  kept start hstart := by
    rcases h.kept start hstart with hkept | hkept
    · rw [hpending, List.mem_cons] at hkept
      rcases hkept with rfl | hkept
      · exact Or.inr hlisted
      · exact Or.inl hkept
    · exact Or.inr hkept

theorem Underway.putOff (h : Underway g pass starts marks walk)
    (hpending : walk.pending = n :: rest) (hbound : Bounded g.childrenOf g.size) {child : NodeId}
    (hchild : child ∈ g.childrenOf n) :
    Underway g pass starts marks { walk with pending := child :: n :: rest } where
  marks_size := h.marks_size
  marks_get := h.marks_get
  pending_lt m hm := by
    rcases List.mem_cons.1 hm with rfl | hm
    · exact hbound n _ hchild
    · exact h.pending_lt m (hpending ▸ hm)
  ordered := h.ordered
  reached m hm := by
    rcases hm with hm | hm
    · rcases List.mem_cons.1 hm with rfl | hm
      · obtain ⟨start, hstart, hpath⟩ := h.reached n (Or.inl (by simp [hpending]))
        exact ⟨start, hstart, hpath.tail hchild⟩
      · exact h.reached m (Or.inl (hpending ▸ hm))
    · exact h.reached m (Or.inr hm)
  kept start hstart := (h.kept start hstart).imp_left fun hkept =>
    List.mem_cons_of_mem _ (hpending ▸ hkept)

theorem Underway.list (h : Underway g pass starts marks walk) (hpending : walk.pending = n :: rest)
    (hnew : n ∉ walk.listed.toList)
    (hchildren : ∀ child ∈ g.childrenOf n, child ∈ walk.listed.toList) :
    Underway g pass starts marks
      ⟨walk.marks.setIfInBounds n pass, rest, walk.listed.push n⟩ where
  marks_size := by rw [Array.size_setIfInBounds]; exact h.marks_size
  marks_get m := by
    have hn := h.pending_lt n (by simp [hpending])
    rw [getD_setIfInBounds _ _ _ (by rwa [h.marks_size]), Array.toList_push, h.marks_get]
    simp only [List.mem_append, List.mem_singleton]
    by_cases heq : m = n
    · rw [if_pos heq, if_pos (Or.inr heq)]
    · simp only [heq, if_false, or_false]
  pending_lt m hm := h.pending_lt m (by simp [hpending, hm])
  ordered := by
    rw [Array.toList_push]
    exact h.ordered.snoc hnew hchildren
  reached m hm := by
    rw [Array.toList_push, List.mem_append, List.mem_singleton] at hm
    rcases hm with hm | hm | rfl
    · exact h.reached m (Or.inl (by simp [hpending, hm]))
    · exact h.reached m (Or.inr hm)
    · exact h.reached _ (Or.inl (by simp [hpending]))
  kept start hstart := by
    rw [Array.toList_push, List.mem_append, List.mem_singleton]
    rcases h.kept start hstart with hkept | hkept
    · rw [hpending, List.mem_cons] at hkept
      rcases hkept with rfl | hkept
      · exact Or.inr (Or.inr rfl)
      · exact Or.inl hkept
    · exact Or.inr (Or.inl hkept)

end Steps

/-- The nodes at the front of the pending ones that have been put off, which stand on a path down.
-/
structure PutOff (g : Graph) (chain : List NodeId) (walk : Walk) : Prop where
  front : chain <+: walk.pending
  path : chain.Pairwise fun above below => Reaches g.childrenOf below above

/-- The nodes that have been neither listed nor put off. -/
def untouched (g : Graph) (chain : List NodeId) (walk : Walk) : Finset Nat :=
  (Finset.range g.size).filter fun n => n ∉ walk.listed.toList ∧ n ∉ chain

/-- The steps that are left at most: one for each pending node, and two for each untouched one. -/
def remaining (g : Graph) (chain : List NodeId) (walk : Walk) : Nat :=
  walk.pending.length + 2 * (untouched g chain walk).card

/-- A node that is taken off has been listed, so it is missed among the untouched ones no more than
before. -/
theorem PutOff.takeOff {chain : List NodeId} (h : PutOff g chain walk) {n : NodeId}
    {rest : List NodeId} (hpending : walk.pending = n :: rest) {walk' : Walk}
    (hpending' : walk'.pending = rest) (hlisted : ∀ m ∈ walk.listed.toList, m ∈ walk'.listed.toList)
    (hn : n ∈ walk'.listed.toList) :
    ∃ chain', PutOff g chain' walk' ∧ remaining g chain' walk' < remaining g chain walk := by
  obtain ⟨chain', hfront, hpath, hleft⟩ : ∃ chain', chain' <+: rest ∧
      chain'.Pairwise (fun above below => Reaches g.childrenOf below above) ∧
      ∀ m ∈ chain, m = n ∨ m ∈ chain' := by
    have hfront := h.front
    rw [hpending] at hfront
    cases chain with
    | nil => exact ⟨[], List.nil_prefix, .nil, by simp⟩
    | cons top chain' =>
        obtain ⟨rfl, hrest⟩ := List.cons_prefix_cons.1 hfront
        exact ⟨chain', hrest, (List.pairwise_cons.1 h.path).2, fun m hm => List.mem_cons.1 hm⟩
  refine ⟨chain', ⟨by rwa [hpending'], hpath⟩, ?_⟩
  have hsubset : untouched g chain' walk' ⊆ untouched g chain walk := by
    intro m hm
    obtain ⟨hm, hnew, hout⟩ := Finset.mem_filter.1 hm
    refine Finset.mem_filter.2 ⟨hm, fun hold => hnew (hlisted m hold), fun hin => ?_⟩
    rcases hleft m hin with rfl | hin
    · exact hnew hn
    · exact hout hin
  have hcard := Finset.card_le_card hsubset
  rw [remaining, remaining, hpending, hpending', List.length_cons]
  omega

/-- A node that is put off was untouched, since a node on the path would close a cycle. -/
theorem PutOff.push {chain : List NodeId} (h : PutOff g chain walk) (hwell : g.WellFormed)
    {n child : NodeId} {rest : List NodeId} (hpending : walk.pending = n :: rest)
    (hchild : child ∈ g.childrenOf n) (hnew : child ∉ walk.listed.toList) :
    PutOff g (child :: chain) { walk with pending := child :: n :: rest } ∧
      remaining g (child :: chain) { walk with pending := child :: n :: rest } <
        remaining g chain walk := by
  have hdown : ∀ m ∈ chain, Reaches g.childrenOf m n := by
    have hfront := h.front
    rw [hpending] at hfront
    cases chain with
    | nil => simp
    | cons top chain' =>
        obtain ⟨rfl, _⟩ := List.cons_prefix_cons.1 hfront
        intro m hm
        rcases List.mem_cons.1 hm with rfl | hm
        · exact .refl
        · exact (List.pairwise_cons.1 h.path).1 m hm
  have hout : child ∉ chain := fun hin =>
    hwell.acyclic child (.tail' (hdown child hin) hchild)
  refine ⟨⟨?_, List.pairwise_cons.2 ⟨fun m hm => (hdown m hm).tail hchild, h.path⟩⟩, ?_⟩
  · rw [← hpending]
    exact List.cons_prefix_cons.2 ⟨rfl, h.front⟩
  · have hmem : child ∈ untouched g chain walk :=
      Finset.mem_filter.2 ⟨Finset.mem_range.2 (hwell.bounded n child hchild), hnew, hout⟩
    have herase : untouched g (child :: chain) { walk with pending := child :: n :: rest } =
        (untouched g chain walk).erase child := by
      ext m
      simp only [untouched, Finset.mem_erase, Finset.mem_filter, List.mem_cons, not_or]
      tauto
    have hpos := Finset.card_pos.2 ⟨child, hmem⟩
    simp only [remaining, herase, Finset.card_erase_of_mem hmem, hpending, List.length_cons]
    omega

/-- A step keeps the walk underway and gets nearer to its end. -/
theorem Underway.step (h : Underway g pass starts marks walk) (hwell : g.WellFormed)
    (hfresh : ∀ n, marks.getD n 0 ≠ pass) {chain : List NodeId} (hchain : PutOff g chain walk)
    (hpending : walk.pending ≠ []) :
    Underway g pass starts marks (walk.step g pass) ∧ ∃ chain', PutOff g chain' (walk.step g pass) ∧
      remaining g chain' (walk.step g pass) < remaining g chain walk := by
  have hmarked := h.isMarked_iff hfresh
  have hunmarked : ∀ m, walk.isMarked pass m = false → m ∉ walk.listed.toList := by
    intro m hm hlisted
    rw [(hmarked m).2 hlisted] at hm
    cases hm
  obtain ⟨n, rest, hpending⟩ := List.exists_cons_of_ne_nil hpending
  rcases step_cases g pass hpending with ⟨hlisted, hstep⟩ | ⟨_, child, hchild, hnew, hstep⟩ |
    ⟨hnew, hchildren, hstep⟩
  · rw [hstep]
    have hlisted := (hmarked n).1 hlisted
    exact ⟨h.drop hpending hlisted, hchain.takeOff hpending rfl (fun _ hm => hm) hlisted⟩
  · rw [hstep]
    exact ⟨h.putOff hpending hwell.bounded hchild, child :: chain,
      hchain.push hwell hpending hchild (hunmarked child hnew)⟩
  · rw [hstep]
    exact ⟨h.list hpending (hunmarked n hnew) fun child hchild =>
      (hmarked child).1 (hchildren child hchild),
      hchain.takeOff hpending rfl (fun m hm => by simp [Array.toList_push, hm]) (by simp)⟩

/-- A walk with enough fuel runs to its end. -/
theorem Underway.run (h : Underway g pass starts marks walk) (hwell : g.WellFormed)
    (hfresh : ∀ n, marks.getD n 0 ≠ pass) {chain : List NodeId} (hchain : PutOff g chain walk)
    {fuel : Nat} (hfuel : remaining g chain walk ≤ fuel) :
    Underway g pass starts marks (Walk.run g pass fuel walk) ∧
      (Walk.run g pass fuel walk).pending = [] := by
  induction fuel generalizing walk chain with
  | zero =>
      have hpending : walk.pending.length = 0 := by
        rw [remaining] at hfuel
        omega
      exact ⟨h, List.length_eq_zero_iff.1 hpending⟩
  | succ fuel ih =>
      rw [Walk.run]
      by_cases hpending : walk.pending = []
      · rw [if_pos (by simpa using hpending)]
        exact ⟨h, hpending⟩
      · rw [if_neg (by simpa using hpending)]
        obtain ⟨hstep, chain', hchain', hless⟩ := h.step hwell hfresh hchain hpending
        exact ih hstep hchain' (by omega)

/-- The fuel of a walk is enough. -/
theorem remaining_start_le (g : Graph) (starts : List NodeId) (marks : Array UInt32) :
    remaining g [] ⟨marks, starts, #[]⟩ ≤ g.walkFuel starts := by
  have hcard : (untouched g [] ⟨marks, starts, #[]⟩).card ≤ g.size := by
    unfold untouched
    exact (Finset.card_filter_le _ _).trans (Finset.card_range _).le
  show starts.length + 2 * (untouched g [] ⟨marks, starts, #[]⟩).card ≤
    2 * g.size + starts.length + 1
  omega

end Walk

/-- No mark is that of a traversal still to come. -/
def Scratch.Fresh (s : Scratch) : Prop := ∀ mark ∈ s.marks, mark.toNat ≤ s.traversal.toNat

instance Scratch.Fresh.instDecidable (s : Scratch) : Decidable s.Fresh :=
  decidable_of_iff (s.marks.all fun mark => decide (mark.toNat ≤ s.traversal.toNat)) (by
    simp only [Array.all_eq_true_iff_forall_mem, decide_eq_true_eq, Fresh])

theorem Scratch.Fresh.clear (count : Nat) : (Scratch.clear count).Fresh := by
  intro mark hmark
  rw [(Array.mem_replicate.1 hmark).2]
  exact Nat.le_refl _

theorem Scratch.nextTraversal_run {s : Scratch} (hroom : s.traversal.toNat + 1 < UInt32.size) :
    Scratch.nextTraversal s =
      ⟨.ok (s.traversal + 1), { s with traversal := s.traversal + 1 }, []⟩ := by
  unfold nextTraversal
  rw [Action.get_bind_run, Action.require_bind_run hroom, Action.set_bind_run, Action.pure_run]

/-- The largest traversal number has no successor. -/
theorem Scratch.nextTraversal_run_full {s : Scratch}
    (hfull : ¬ s.traversal.toNat + 1 < UInt32.size) :
    Scratch.nextTraversal s = ⟨.error .counterFull, s, []⟩ := by
  unfold nextTraversal
  rw [Action.get_bind_run, Action.require_bind_run_error hfull]

theorem Scratch.toNat_next {s : Scratch} (hroom : s.traversal.toNat + 1 < UInt32.size) :
    (s.traversal + 1).toNat = s.traversal.toNat + 1 := by
  rw [UInt32.toNat_add]
  exact Nat.mod_eq_of_lt hroom

theorem Scratch.Fresh.getD_le {s : Scratch} (h : s.Fresh) (n : Nat) :
    (s.marks.getD n 0).toNat ≤ s.traversal.toNat := by
  rw [Array.getD_eq_getD_getElem?]
  cases hmark : s.marks[n]? with
  | none => exact Nat.zero_le _
  | some mark => exact h mark (Array.mem_of_getElem? hmark)

/-- Marks of the traversal itself are not ahead of it. -/
theorem Scratch.Fresh.marked {s : Scratch} (h : s.Fresh)
    (hroom : s.traversal.toNat + 1 < UInt32.size) {marks : Array UInt32} {order : List NodeId}
    (hmarks : ∀ n, marks.getD n 0 = if n ∈ order then s.traversal + 1 else s.mark n) :
    Scratch.Fresh { s with traversal := s.traversal + 1, marks } := by
  intro mark hmark
  obtain ⟨n, hn, rfl⟩ := Array.mem_iff_getElem.1 hmark
  have hget : marks.getD n 0 = marks[n] := by
    rw [Array.getD_eq_getD_getElem?, Array.getElem?_eq_getElem hn, Option.getD_some]
  show (marks[n]).toNat ≤ (s.traversal + 1).toNat
  rw [← hget, hmarks]
  split
  · exact Nat.le_refl _
  · rw [toNat_next hroom]
    exact Nat.le_succ_of_le (h.getD_le n)

theorem Scratch.Fresh.getD_ne {s : Scratch} (h : s.Fresh)
    (hroom : s.traversal.toNat + 1 < UInt32.size) (n : Nat) :
    s.marks.getD n 0 ≠ s.traversal + 1 := by
  have hle := h.getD_le n
  intro heq
  rw [heq, toNat_next hroom] at hle
  omega

namespace Graph

variable {g : Graph} {starts : List NodeId}

/-- A walk answers what it has listed. Of the scratch space it leaves the marks that it has set and
its number. -/
theorem postorder_of_run (hstarts : ∀ n ∈ starts, n < g.size) {s : Scratch}
    (hroom : s.traversal.toNat + 1 < UInt32.size) {walk : Walk}
    (hwalk : Walk.run g (s.traversal + 1) (g.walkFuel starts) ⟨s.marks, starts, #[]⟩ = walk) :
    (g.postorder starts s).answer = .ok walk.listed.toList ∧
      (g.postorder starts s).state =
        { s with traversal := s.traversal + 1, marks := walk.marks } := by
  have hcheck : g.checkAll starts.reverse = .ok () :=
    (Network.checkAll_eq_ok_iff g _).2 fun n hn => hstarts n (List.mem_reverse.1 hn)
  unfold postorder
  rw [Action.bind_run_ok (Scratch.nextTraversal_run hroom)]
  simp only [hcheck, Action.lift_ok_bind_run, Action.get_bind_run, Action.modify_bind_run,
    Action.note_bind_run, Action.pure_run, hwalk, and_self]

/-- A walk on the marks of earlier traversals lists exactly the nodes that can be reached from the
starts, each after its children. It takes the number of the next traversal and changes nothing else
but the marks of what it lists. -/
theorem postorder_run (hwell : g.WellFormed) (hstarts : ∀ n ∈ starts, n < g.size) {s : Scratch}
    (hsize : s.marks.size = g.size) (hfresh : s.Fresh)
    (hroom : s.traversal.toNat + 1 < UInt32.size) :
    ∃ order marks, (g.postorder starts s).answer = .ok order ∧
      (g.postorder starts s).state = { s with traversal := s.traversal + 1, marks } ∧
      marks.size = g.size ∧
      (∀ n, marks.getD n 0 = if n ∈ order then s.traversal + 1 else s.mark n) ∧
      Postordered g.childrenOf order ∧
      ∀ n, n ∈ order ↔ ∃ start ∈ starts, Reaches g.childrenOf start n := by
  have hbegin : Walk.Underway g (s.traversal + 1) starts s.marks ⟨s.marks, starts, #[]⟩ :=
    .start hsize hstarts
  have hchain : Walk.PutOff g [] ⟨s.marks, starts, #[]⟩ := ⟨List.nil_prefix, .nil⟩
  obtain ⟨hend, hdone⟩ := hbegin.run hwell (hfresh.getD_ne hroom) hchain
    (Walk.remaining_start_le g starts s.marks)
  generalize hwalk : Walk.run g (s.traversal + 1) (g.walkFuel starts) ⟨s.marks, starts, #[]⟩ = walk
    at hend hdone
  have hrun := postorder_of_run hstarts hroom hwalk
  refine ⟨walk.listed.toList, walk.marks, hrun.1, hrun.2, hend.marks_size, hend.marks_get,
    hend.ordered, fun n => ⟨fun hn => hend.reached n (Or.inr hn), ?_⟩⟩
  rintro ⟨start, hstart, hreach⟩
  rcases hend.kept start hstart with hkept | hkept
  · rw [hdone] at hkept
    cases hkept
  · exact hend.ordered.reached_mem hkept hreach

end Graph
end LogicNet
