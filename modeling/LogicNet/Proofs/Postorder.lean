import LogicNet.Proofs.DepthFirst
import LogicNet.Proofs.Rewiring

/-!
The walk does what the recursion would do. The recursion goes through the starts and the children of
each node from left to right, skips what is marked or listed, and lists a node when its children are
done; which list comes of it is determined. The walk looks through the children of a node again each
time that it comes back to it, and a node may be pending several times, but it comes to an end with
the same list, whatever marks it began on.
-/

namespace LogicNet

namespace Visits

variable {children : NodeId → List NodeId} {seen : NodeId → Prop}
  {done toVisit done' other : List NodeId}

/-- A visit is determined by what has been listed and seen before. -/
theorem unique (h : Visits children seen done toVisit done')
    (h' : Visits children seen done toVisit other) : other = done' := by
  induction h generalizing other with
  | nil done =>
      cases h'
      rfl
  | skip met _ ih =>
      cases h' with
      | skip _ hrest => exact ih hrest
      | visit unmet _ _ => exact absurd met unmet
  | visit unmet _ _ ihbelow ihrest =>
      cases h' with
      | skip met _ => exact absurd met unmet
      | visit _ hbelow hrest =>
          obtain rfl := ihbelow hbelow
          exact ihrest hrest

/-- Without cycles every node is listed once and after its children, those that had been seen
before apart. -/
theorem postordered [DecidablePred seen] (h : Visits children seen done toVisit done')
    (hacyclic : Acyclic children)
    (hdone : Postordered (fun n => (children n).filter fun child => ¬ seen child) done) :
    Postordered (fun n => (children n).filter fun child => ¬ seen child) done' := by
  induction h with
  | nil => exact hdone
  | skip _ _ ih => exact ih hdone
  | @visit done rest below done' n unmet hbelow _ ihbelow ihrest =>
      refine ihrest ((ihbelow hdone).snoc ?_ fun child hchild => ?_)
      · exact notMem_below hacyclic (fun hn => unmet (Or.inr hn)) hbelow
      · obtain ⟨hchild, hnew⟩ := List.mem_filter.1 hchild
        exact (hbelow.met_of_mem hchild).resolve_left (of_decide_eq_true hnew)

end Visits

namespace Walk

variable {g : Graph} {pass : UInt32}

theorem step_of_pending_eq_nil {walk : Walk} (h : walk.pending = []) : walk.step g pass = walk := by
  rw [step, h]

/-- Fuel counts steps. -/
theorem run_eq_iterate (g : Graph) (pass : UInt32) (fuel : Nat) (walk : Walk) :
    run g pass fuel walk = (step g pass)^[fuel] walk := by
  induction fuel generalizing walk with
  | zero => rfl
  | succ fuel ih =>
      by_cases hpending : walk.pending = []
      · rw [run_of_pending_eq_nil g pass _ hpending,
          Function.iterate_fixed (step_of_pending_eq_nil hpending)]
      · rw [run, if_neg (by simpa using hpending), ih, Function.iterate_succ_apply]

/-- A step leaves each mark alone or makes it that of the walk. -/
theorem step_marks_getD (g : Graph) (pass : UInt32) (walk : Walk) (n : NodeId) :
    (walk.step g pass).marks.getD n 0 = walk.marks.getD n 0 ∨
      (walk.step g pass).marks.getD n 0 = pass := by
  cases hpending : walk.pending with
  | nil => exact Or.inl (by rw [step_of_pending_eq_nil hpending])
  | cons m rest =>
      rcases step_cases g pass hpending with ⟨_, hstep⟩ | ⟨_, _, _, _, hstep⟩ | ⟨_, _, hstep⟩
      · exact Or.inl (by rw [hstep])
      · exact Or.inl (by rw [hstep])
      · rw [hstep]
        by_cases hm : m < walk.marks.size
        · rw [getD_setIfInBounds _ _ _ hm]
          split
          · exact Or.inr rfl
          · exact Or.inl rfl
        · rw [Array.setIfInBounds_eq_of_size_le (Nat.le_of_not_lt hm)]
          exact Or.inl rfl

theorem run_marks_getD (g : Graph) (pass : UInt32) (fuel : Nat) (walk : Walk) (n : NodeId) :
    (run g pass fuel walk).marks.getD n 0 = walk.marks.getD n 0 ∨
      (run g pass fuel walk).marks.getD n 0 = pass := by
  induction fuel with
  | zero => exact Or.inl rfl
  | succ fuel ih =>
      have hlast : run g pass (fuel + 1) walk = (run g pass fuel walk).step g pass := by
        rw [run_eq_iterate, run_eq_iterate, Function.iterate_succ_apply']
      rw [hlast]
      rcases step_marks_getD g pass (run g pass fuel walk) n with hsame | hpass
      · rwa [hsame]
      · exact Or.inr hpass

end Walk

/-- A walk from some starts that has begun on given scratch space is over: it has listed the nodes
as the recursion does, and marked them. -/
structure Graph.WalkedDepthFirst (g : Graph) (s : Scratch) (starts order : List NodeId)
    (marks : Array UInt32) : Prop where
  /-- The recursion takes what carries the mark of the walk for visited, and lists `order`. -/
  visits : ∀ order', Visits g.childrenOf (fun n => s.mark n = s.traversal + 1) [] starts order' ↔
    order' = order
  ends : ∃ steps, (Walk.step g (s.traversal + 1))^[steps] ⟨s.marks, starts, #[]⟩ =
    ⟨marks, [], order.toArray⟩
  marks_size : marks.size = s.marks.size
  marks_get : ∀ n, marks.getD n 0 = if n ∈ order then s.traversal + 1 else s.mark n
  nodup : order.Nodup
  ordered : Postordered
    (fun n => (g.childrenOf n).filter fun child => ¬ s.mark child = s.traversal + 1) order
  /-- If the mark of the walk is new, the walk lists what can be reached, children first. -/
  unmarked : (∀ n < g.size, s.mark n ≠ s.traversal + 1) → Postordered g.childrenOf order ∧
    ∀ n, n ∈ order ↔ ∃ start ∈ starts, Reaches g.childrenOf start n

namespace Graph

variable {g : Graph} {s : Scratch} {starts order : List NodeId}

/-- Where no mark is that of the walk, the visit lists exactly what can be reached. -/
theorem mem_visited_iff (hstarts : ∀ n ∈ starts, n < g.size) {seen : NodeId → Prop}
    (hunseen : ∀ n < g.size, ¬ seen n) (hvisits : Visits g.childrenOf seen [] starts order)
    (hordered : Postordered g.childrenOf order) (n : NodeId) :
    n ∈ order ↔ ∃ start ∈ starts, Reaches g.childrenOf start n := by
  constructor
  · intro hn
    exact (hvisits.reached hn).resolve_left (List.not_mem_nil)
  · rintro ⟨start, hstart, hreach⟩
    have hmet := (hvisits.met_of_mem hstart).resolve_left (hunseen start (hstarts start hstart))
    exact hordered.reached_mem hmet hreach

theorem walkedDepthFirst (hwell : g.WellFormed) (hstarts : ∀ n ∈ starts, n < g.size)
    (hsize : s.marks.size = g.size)
    (hvisits : Visits g.childrenOf (fun n => s.mark n = s.traversal + 1) [] starts order) :
    g.WalkedDepthFirst s starts order (Walk.run g (s.traversal + 1) (g.walkFuel starts)
      ⟨s.marks, starts, #[]⟩).marks := by
  have hend := walk_visits hwell hstarts hsize hvisits
  have hkept := Walk.run_marks_getD g (s.traversal + 1) (g.walkFuel starts) ⟨s.marks, starts, #[]⟩
  generalize hwalk : Walk.run g (s.traversal + 1) (g.walkFuel starts) ⟨s.marks, starts, #[]⟩ = walk
    at hend hkept
  have hordered := hvisits.postordered hwell.acyclic .nil
  refine
    { visits := fun order' => ⟨hvisits.unique, fun heq => heq ▸ hvisits⟩
      ends := ⟨g.walkFuel starts, ?_⟩
      marks_size := hend.marks_size.trans hsize.symm
      marks_get := fun n => ?_
      nodup := hvisits.nodup hwell.acyclic List.nodup_nil
      ordered := hordered
      unmarked := fun hfresh => ?_ }
  · rw [← Walk.run_eq_iterate, hwalk, ← hend.listed, ← hend.pending]
  · have hmarked := hend.isMarked_iff n
    rw [Walk.isMarked, beq_iff_eq] at hmarked
    split
    · next hn => exact hmarked.2 (Or.inr hn)
    · next hn =>
        rcases hkept n with hsame | hpass
        · exact hsame
        · rw [hpass]
          exact ((hmarked.1 hpass).resolve_right hn).symm
  · have hall : Postordered g.childrenOf order := by
      intro before n after heq
      obtain ⟨hn, hbefore⟩ := hordered before n after heq
      refine ⟨hn, fun child hchild => hbefore child (List.mem_filter.2 ⟨hchild, ?_⟩)⟩
      exact decide_eq_true (hfresh child (hwell.bounded n child hchild))
    exact ⟨hall, mem_visited_iff hstarts hfresh hvisits hall⟩

end Graph

open Network

/-- The walk lists the nodes in the order of the recursion, in every reachable network and whatever
the marks are. It takes the next traversal number and marks what it lists, and changes nothing
else. -/
theorem Reachable.postorder_depthFirst {net : Network} (h : Reachable net)
    (hroom : net.scratch.traversal.toNat < UInt32.size - 1) {starts : List NodeId}
    (hstarts : ∀ n ∈ starts, n < net.graph.size) :
    ∃ order marks, net.graph.WalkedDepthFirst net.scratch starts order marks ∧
      (postorder starts net).answer = .ok order ∧
      (postorder starts net).state = { net with
        scratch := { net.scratch with traversal := net.scratch.traversal + 1, marks } } := by
  have hwell := h.wellFormed
  obtain ⟨order, hvisits⟩ := Visits.exists_end hwell.graph.acyclic hwell.graph.bounded
    (fun n => net.scratch.mark n = net.scratch.traversal + 1) [] starts
  have hnext : net.scratch.traversal.toNat + 1 < UInt32.size := by omega
  obtain ⟨hanswer, hstate⟩ := Graph.postorder_of_run hstarts hnext rfl
  rw [(Graph.walk_visits hwell.graph hstarts hwell.marks_size hvisits).listed] at hanswer
  exact ⟨order, _, Graph.walkedDepthFirst hwell.graph hstarts hwell.marks_size hvisits, hanswer,
    congrArg (fun scratch => { net with scratch }) hstate⟩

/-- A network in which a caller has marked the node of five uses for the walk to come. -/
def premarked : Network := (setMark 4 1 fanned).state

theorem premarked_reachable : Reachable premarked := .run fanned_reachable (.call (.setMark 4 1))

/-- The marked node is left out, a start that stands twice is listed once, and the constants, which
nothing uses, stay unmarked. -/
theorem premarked_depthFirst : Reachable premarked ∧
    Visits premarked.graph.childrenOf (fun n => premarked.scratch.mark n = 1) [] [5, 7, 5, 6]
      [2, 5, 3, 7, 6] ∧
    (postorder [5, 7, 5, 6] premarked).answer = .ok [2, 5, 3, 7, 6] ∧
    (postorder [5, 7, 5, 6] premarked).state.scratch.traversal = 1 ∧
    (postorder [5, 7, 5, 6] premarked).state.scratch.mark 4 = 1 ∧
    (postorder [5, 7, 5, 6] premarked).state.scratch.mark 0 = 0 := by
  obtain ⟨order, marks, hwalked, hanswer, hstate⟩ := Reachable.postorder_depthFirst
    premarked_reachable (by decide +kernel) (by decide +kernel : ∀ n ∈ [5, 7, 5, 6], _)
  have hlisted : (postorder [5, 7, 5, 6] premarked).answer = .ok [2, 5, 3, 7, 6] := by
    decide +kernel
  have htraversal : premarked.scratch.traversal = 0 := by decide +kernel
  cases hlisted.symm.trans hanswer
  have hmark : ∀ n, (postorder [5, 7, 5, 6] premarked).state.scratch.mark n =
      if n ∈ [2, 5, 3, 7, 6] then premarked.scratch.traversal + 1 else premarked.scratch.mark n := by
    rw [hstate]
    exact hwalked.marks_get
  have hvisits := (hwalked.visits _).2 rfl
  rw [htraversal] at hvisits
  refine ⟨premarked_reachable, hvisits, hlisted, ?_, ?_, ?_⟩
  · rw [hstate]
    exact congrArg (· + 1) htraversal
  · rw [hmark]
    decide +kernel
  · rw [hmark]
    decide +kernel

end LogicNet
