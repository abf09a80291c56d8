import LogicNet.Proofs.Mirror

/-!
Depth-first order. A visit of a list of nodes goes through it from left to right, skips what has been
met before, and visits the children of any other node before it lists the node itself. The walk lists
nodes in this order, whatever marks it begins on: what carries the mark of the walk already counts as
met. When nodes are identified in a way that goes along with their children, the order of the
quotient is that of the nodes with every repetition left out.
-/

namespace LogicNet

/-- Visiting `toVisit` from left to right, with `done` listed before and what is `seen` left out,
ends with `done'` listed. -/
inductive Visits (children : NodeId → List NodeId) (seen : NodeId → Prop) :
    List NodeId → List NodeId → List NodeId → Prop where
  | nil (done : List NodeId) : Visits children seen done [] done
  | skip {done rest done' : List NodeId} {n : NodeId} (met : seen n ∨ n ∈ done) :
      Visits children seen done rest done' → Visits children seen done (n :: rest) done'
  | visit {done rest below done' : List NodeId} {n : NodeId} (unmet : ¬ (seen n ∨ n ∈ done)) :
      Visits children seen done (children n) below →
      Visits children seen (below ++ [n]) rest done' → Visits children seen done (n :: rest) done'

namespace Visits

variable {children : NodeId → List NodeId} {seen : NodeId → Prop}
  {done toVisit done' below rest : List NodeId} {n : NodeId}

theorem exists_append (h : Visits children seen done toVisit done') :
    ∃ listed, done' = done ++ listed := by
  induction h with
  | nil done => exact ⟨[], (List.append_nil done).symm⟩
  | skip _ _ ih => exact ih
  | @visit done rest below done' n _ _ _ ihbelow ihrest =>
      obtain ⟨first, rfl⟩ := ihbelow
      obtain ⟨second, rfl⟩ := ihrest
      exact ⟨first ++ [n] ++ second, by simp⟩

theorem mem_of_mem (h : Visits children seen done toVisit done') (hn : n ∈ done) : n ∈ done' := by
  obtain ⟨listed, rfl⟩ := h.exists_append
  exact List.mem_append_left _ hn

theorem met_of_mem (h : Visits children seen done toVisit done') (hn : n ∈ toVisit) :
    seen n ∨ n ∈ done' := by
  induction h with
  | nil => cases hn
  | skip met hrest ih =>
      rcases List.mem_cons.1 hn with rfl | hn
      · exact met.imp_right hrest.mem_of_mem
      · exact ih hn
  | visit _ _ hrest _ ih =>
      rcases List.mem_cons.1 hn with rfl | hn
      · exact Or.inr (hrest.mem_of_mem (by simp))
      · exact ih hn

/-- Nothing is listed but what can be reached. -/
theorem reached (h : Visits children seen done toVisit done') (hn : n ∈ done') :
    n ∈ done ∨ ∃ start ∈ toVisit, Reaches children start n := by
  induction h with
  | nil => exact Or.inl hn
  | skip _ _ ih =>
      exact (ih hn).imp_right fun ⟨start, hstart, hreach⟩ =>
        ⟨start, List.mem_cons_of_mem _ hstart, hreach⟩
  | @visit done rest below done' m _ _ _ ihbelow ihrest =>
      rcases ihrest hn with hn | ⟨start, hstart, hreach⟩
      · rcases List.mem_append.1 hn with hn | hn
        · refine (ihbelow hn).imp_right fun ⟨child, hchild, hreach⟩ =>
            ⟨m, List.mem_cons_self, .head hchild hreach⟩
        · rw [List.mem_singleton.1 hn]
          exact Or.inr ⟨m, List.mem_cons_self, .refl⟩
      · exact Or.inr ⟨start, List.mem_cons_of_mem _ hstart, hreach⟩

/-- Without cycles a node is not listed while its children are visited. -/
theorem notMem_below (hacyclic : Acyclic children) (hn : n ∉ done)
    (h : Visits children seen done (children n) below) : n ∉ below := by
  intro hmem
  rcases h.reached hmem with hmem | ⟨child, hchild, hreach⟩
  · exact hn hmem
  · exact hacyclic n (.head' hchild hreach)

theorem lt_size {size : Nat} (h : Visits children seen done toVisit done')
    (hbound : Bounded children size) (hdone : ∀ m ∈ done, m < size) (hto : ∀ m ∈ toVisit, m < size) :
    ∀ m ∈ done', m < size := by
  intro m hm
  rcases h.reached hm with hm | ⟨start, hstart, hreach⟩
  · exact hdone m hm
  · cases hreach with
    | refl => exact hto _ hstart
    | tail _ hstep => exact hbound _ _ hstep

theorem nodup (h : Visits children seen done toVisit done') (hacyclic : Acyclic children)
    (hdone : done.Nodup) : done'.Nodup := by
  induction h with
  | nil => exact hdone
  | skip _ _ ih => exact ih hdone
  | visit unmet hbelow _ ihbelow ihrest =>
      refine ihrest ((ihbelow hdone).append (List.nodup_singleton _) fun m hm hmn => ?_)
      rw [List.mem_singleton.1 hmn] at hm
      exact notMem_below hacyclic (fun hn => unmet (Or.inr hn)) hbelow hm

theorem cons (h : Visits children seen done [n] below) (h' : Visits children seen below rest done') :
    Visits children seen done (n :: rest) done' := by
  cases h with
  | skip met hnil =>
      cases hnil
      exact .skip met h'
  | visit unmet hbelow hnil =>
      cases hnil
      exact .visit unmet hbelow h'

theorem exists_of_each (h : ∀ n ∈ toVisit, ∀ done, ∃ done', Visits children seen done [n] done')
    (done : List NodeId) : ∃ done', Visits children seen done toVisit done' := by
  induction toVisit generalizing done with
  | nil => exact ⟨done, .nil done⟩
  | cons n rest ih =>
      obtain ⟨below, hbelow⟩ := h n List.mem_cons_self done
      obtain ⟨done', hrest⟩ := ih (fun m hm => h m (List.mem_cons_of_mem n hm)) below
      exact ⟨done', hbelow.cons hrest⟩

/-- Without cycles every visit comes to an end. -/
theorem exists_end {size : Nat} (hacyclic : Acyclic children) (hbound : Bounded children size)
    (seen : NodeId → Prop) (done toVisit : List NodeId) :
    ∃ done', Visits children seen done toVisit done' := by
  refine exists_of_each (fun n hn => ?_) done
  clear hn
  induction n using Acyclic.induction hacyclic hbound with
  | step n ih =>
      intro done
      by_cases hmet : seen n ∨ n ∈ done
      · exact ⟨done, .skip hmet (.nil done)⟩
      · obtain ⟨below, hbelow⟩ := exists_of_each ih done
        exact ⟨below ++ [n], .visit hmet hbelow (.nil _)⟩

end Visits

namespace Walk

variable {g : Graph} {pass : UInt32} {seen : NodeId → Prop} {walk : Walk}

/-- The walk has listed `done` and has `pending` ahead of it, and the marks are on what has been
seen or listed. -/
structure At (g : Graph) (pass : UInt32) (seen : NodeId → Prop) (done pending : List NodeId)
    (walk : Walk) : Prop where
  listed : walk.listed.toList = done
  pending : walk.pending = pending
  marks_size : walk.marks.size = g.size
  isMarked_iff : ∀ n, walk.isMarked pass n = true ↔ seen n ∨ n ∈ done

theorem run_of_pending_eq_nil (g : Graph) (pass : UInt32) (fuel : Nat) (h : walk.pending = []) :
    run g pass fuel walk = walk := by
  cases fuel with
  | zero => rfl
  | succ fuel => rw [run, if_pos (by simpa using h)]

theorem run_add (g : Graph) (pass : UInt32) (fuel more : Nat) (walk : Walk) :
    run g pass (fuel + more) walk = run g pass more (run g pass fuel walk) := by
  induction fuel generalizing walk with
  | zero => rw [Nat.zero_add]; rfl
  | succ fuel ih =>
      rw [Nat.succ_add, run, run]
      split
      · next hdone => exact (run_of_pending_eq_nil g pass more (by simpa using hdone)).symm
      · exact ih _

theorem run_one (g : Graph) (pass : UInt32) (h : walk.pending ≠ []) :
    run g pass 1 walk = walk.step g pass := by
  rw [run, if_neg (by simpa using h)]
  rfl

namespace At

variable {done done' pending rest toVisit : List NodeId} {n child : NodeId}

theorem run_one (h : At g pass seen done (n :: rest) walk) :
    run g pass 1 walk = walk.step g pass :=
  Walk.run_one g pass (by rw [h.pending]; exact List.cons_ne_nil n rest)

/-- A node that is met is dropped. -/
theorem drop (h : At g pass seen done (n :: rest) walk) (hn : seen n ∨ n ∈ done) :
    At g pass seen done rest (run g pass 1 walk) := by
  rw [h.run_one, step, h.pending]
  dsimp only
  rw [if_pos ((h.isMarked_iff n).2 hn)]
  exact ⟨h.listed, rfl, h.marks_size, h.isMarked_iff⟩

/-- A node with a child that is not met yet waits for the first such child. -/
theorem putOff (h : At g pass seen done (n :: rest) walk) (hn : ¬ (seen n ∨ n ∈ done))
    {before after : List NodeId} (hchildren : g.childrenOf n = before ++ child :: after)
    (hbefore : ∀ c ∈ before, seen c ∨ c ∈ done) (hchild : ¬ (seen child ∨ child ∈ done)) :
    At g pass seen done (child :: n :: rest) (run g pass 1 walk) := by
  have hnone : before.find? (fun child => !walk.isMarked pass child) = none := by
    rw [List.find?_eq_none]
    intro c hc
    simpa using (h.isMarked_iff c).2 (hbefore c hc)
  have hunmarked : (!walk.isMarked pass child) = true := by
    rw [Bool.not_eq_true', ← Bool.not_eq_true, h.isMarked_iff]
    exact hchild
  have hfind : (g.childrenOf n).find? (fun child => !walk.isMarked pass child) = some child := by
    rw [hchildren, List.find?_append, hnone, Option.none_or]
    exact List.find?_cons_of_pos hunmarked
  rw [h.run_one, step, h.pending]
  dsimp only
  rw [if_neg (by rwa [h.isMarked_iff]), hfind]
  exact ⟨h.listed, rfl, h.marks_size, h.isMarked_iff⟩

/-- A node whose children are met is listed. -/
theorem list (h : At g pass seen done (n :: rest) walk) (hn : ¬ (seen n ∨ n ∈ done))
    (hlt : n < g.size) (hchildren : ∀ c ∈ g.childrenOf n, seen c ∨ c ∈ done) :
    At g pass seen (done ++ [n]) rest (run g pass 1 walk) := by
  have hnone : (g.childrenOf n).find? (fun child => !walk.isMarked pass child) = none := by
    rw [List.find?_eq_none]
    intro c hc
    simpa using (h.isMarked_iff c).2 (hchildren c hc)
  rw [h.run_one, step, h.pending]
  dsimp only
  rw [if_neg (by rwa [h.isMarked_iff]), hnone]
  refine ⟨by simp [h.listed], rfl, by simp [h.marks_size], fun m => ?_⟩
  have hmarked := h.isMarked_iff m
  rw [isMarked] at hmarked ⊢
  rw [getD_setIfInBounds _ _ _ (by rwa [h.marks_size]), List.mem_append, List.mem_singleton]
  split
  · next heq => exact iff_of_true (beq_self_eq_true pass) (Or.inr (Or.inr heq))
  · next hne => rw [hmarked, or_iff_left hne]

/-- The walk follows a visit of the pending nodes at its front, and while a node waits one of the
children that it waits for. The steps are counted by what is taken off and by what is listed. -/
theorem follow (hacyclic : Acyclic g.childrenOf) (hbound : Bounded g.childrenOf g.size)
    (h : Visits g.childrenOf seen done toVisit done') (hlt : ∀ n ∈ toVisit, n < g.size) :
    (∀ walk rest, At g pass seen done (toVisit ++ rest) walk → ∃ fuel,
      fuel + 2 * done.length ≤ toVisit.length + 2 * done'.length ∧
      At g pass seen done' rest (run g pass fuel walk)) ∧
    (∀ walk n before rest, g.childrenOf n = before ++ toVisit →
      (∀ c ∈ before, seen c ∨ c ∈ done) → ¬ (seen n ∨ n ∈ done') →
      At g pass seen done (n :: rest) walk → ∃ fuel,
      fuel + 2 * done.length ≤ 2 * done'.length ∧
      At g pass seen done' (n :: rest) (run g pass fuel walk)) := by
  induction h with
  | nil done =>
      exact ⟨fun walk rest h => ⟨0, by simp, h⟩, fun walk n before rest _ _ _ h => ⟨0, by simp, h⟩⟩
  | @skip done rest' done' m met _ ih =>
      obtain ⟨ihfront, ihwait⟩ := ih fun n hn => hlt n (List.mem_cons_of_mem m hn)
      refine ⟨fun walk rest h => ?_, fun walk n before rest hchildren hbefore hn h => ?_⟩
      · obtain ⟨fuel, hfuel, hend⟩ := ihfront _ rest (h.drop met)
        refine ⟨1 + fuel, ?_, by rwa [run_add]⟩
        rw [List.length_cons]
        omega
      · refine ihwait walk n (before ++ [m]) rest (by simp [hchildren]) (fun c hc => ?_) hn h
        rcases List.mem_append.1 hc with hc | hc
        · exact hbefore c hc
        · rw [List.mem_singleton.1 hc]
          exact met
  | @visit done rest' below done' m unmet hbelow hrest ihbelow ihrest =>
      have hm := hlt m List.mem_cons_self
      obtain ⟨_, ihbelow⟩ := ihbelow fun n hn => hbound m n hn
      obtain ⟨ihfront, ihwait⟩ := ihrest fun n hn => hlt n (List.mem_cons_of_mem m hn)
      have hnew : ¬ (seen m ∨ m ∈ below) := by
        rintro (hseen | hmem)
        · exact unmet (Or.inl hseen)
        · exact Visits.notMem_below hacyclic (fun hn => unmet (Or.inr hn)) hbelow hmem
      -- Once `m` is at the front, its children are visited while it waits, and then it is listed.
      have hlisted : ∀ walk rest, At g pass seen done (m :: rest) walk → ∃ fuel,
          fuel + 2 * done.length ≤ 1 + 2 * below.length ∧
          At g pass seen (below ++ [m]) rest (run g pass fuel walk) := by
        intro walk rest h
        obtain ⟨fuel, hfuel, hwaited⟩ := ihbelow walk m [] rest rfl (by simp) hnew h
        refine ⟨fuel + 1, by omega, ?_⟩
        rw [run_add]
        exact hwaited.list hnew hm fun c hc => hbelow.met_of_mem hc
      have hlength : (below ++ [m]).length = below.length + 1 := by simp
      refine ⟨fun walk rest h => ?_, fun walk n before rest hchildren hbefore hn h => ?_⟩
      · obtain ⟨first, hfirst, hmiddle⟩ := hlisted walk (rest' ++ rest) h
        obtain ⟨second, hsecond, hend⟩ := ihfront _ rest hmiddle
        refine ⟨first + second, ?_, by rwa [run_add]⟩
        rw [List.length_cons]
        omega
      · have hwaiting : ¬ (seen n ∨ n ∈ done) := fun hmet => hn (hmet.imp_right fun hmem =>
          hrest.mem_of_mem (List.mem_append_left _ (hbelow.mem_of_mem hmem)))
        obtain ⟨first, hfirst, hmiddle⟩ :=
          hlisted _ (n :: rest) (h.putOff hwaiting hchildren hbefore unmet)
        have hmet : ∀ c ∈ before ++ [m], seen c ∨ c ∈ below ++ [m] := by
          intro c hc
          rcases List.mem_append.1 hc with hc | hc
          · exact (hbefore c hc).imp_right fun hmem =>
              List.mem_append_left _ (hbelow.mem_of_mem hmem)
          · exact Or.inr (List.mem_append_right _ hc)
        obtain ⟨second, hsecond, hend⟩ :=
          ihwait _ n (before ++ [m]) rest (by simp [hchildren]) hmet hn hmiddle
        exact ⟨1 + first + second, by omega, by rwa [run_add, run_add]⟩

end At
end Walk

namespace Graph

variable {g : Graph} {starts order : List NodeId}

/-- The fuel of a walk is enough to follow a visit of the starts to its end. -/
theorem walk_visits (hwell : g.WellFormed) (hstarts : ∀ n ∈ starts, n < g.size)
    {marks : Array UInt32} (hsize : marks.size = g.size) {pass : UInt32}
    (h : Visits g.childrenOf (fun n => marks.getD n 0 = pass) [] starts order) :
    Walk.At g pass (fun n => marks.getD n 0 = pass) order []
      (Walk.run g pass (g.walkFuel starts) ⟨marks, starts, #[]⟩) := by
  have hbegin : Walk.At g pass (fun n => marks.getD n 0 = pass) [] (starts ++ [])
      ⟨marks, starts, #[]⟩ :=
    ⟨rfl, (List.append_nil starts).symm, hsize, fun n => by simp [Walk.isMarked]⟩
  obtain ⟨fuel, hfuel, hend⟩ :=
    (Walk.At.follow hwell.acyclic hwell.bounded h hstarts).1 _ [] hbegin
  have hlength : order.length ≤ g.size := by
    have hsub : order ⊆ List.range g.size := fun n hn => List.mem_range.2
      (h.lt_size hwell.bounded (by simp) hstarts n hn)
    simpa using ((h.nodup hwell.acyclic List.nodup_nil).subperm hsub).length_le
  obtain ⟨spare, hspare⟩ : ∃ spare, g.walkFuel starts = fuel + spare :=
    ⟨g.walkFuel starts - fuel, by unfold walkFuel; simp at hfuel; omega⟩
  rwa [hspare, Walk.run_add, Walk.run_of_pending_eq_nil _ _ _ hend.pending]

/-- The walk lists nodes in depth-first order, whatever marks it begins on. -/
theorem postorder_visits (hwell : g.WellFormed) (hstarts : ∀ n ∈ starts, n < g.size) {s : Scratch}
    (hsize : s.marks.size = g.size) (hroom : s.traversal.toNat + 1 < UInt32.size)
    (h : Visits g.childrenOf (fun n => s.mark n = s.traversal + 1) [] starts order) :
    (g.postorder starts s).answer = .ok order := by
  rw [(postorder_of_run hstarts hroom rfl).1, (walk_visits hwell hstarts hsize h).listed]

end Graph

/-- Nothing is seen. -/
abbrev unseen : NodeId → Prop := fun _ => False

/-- On marks of earlier traversals a walk lists the nodes in depth-first order from the start. -/
theorem Graph.postorder_unseen {g : Graph} (hwell : g.WellFormed) {starts order : List NodeId}
    (hstarts : ∀ n ∈ starts, n < g.size) {s : Scratch} (hsize : s.marks.size = g.size)
    (hfresh : s.Fresh) (hroom : s.traversal.toNat + 1 < UInt32.size)
    (h : Visits g.childrenOf unseen [] starts order) :
    (g.postorder starts s).answer = .ok order := by
  have hunseen : (fun n => s.mark n = s.traversal + 1) = unseen :=
    funext fun n => eq_false (hfresh.getD_ne hroom n)
  exact postorder_visits hwell hstarts hsize hroom (hunseen ▸ h)

/-- A map of names goes along with the children of the nodes for which `P` holds. -/
structure Carries (children children' : NodeId → List NodeId) (P : NodeId → Prop)
    (f : NodeId → NodeId) : Prop where
  closed : ∀ n, P n → ∀ child ∈ children n, P child
  map : ∀ n, P n → children' (f n) = (children n).map f

/-- The images of a list, each where it stands first. -/
def firstImages (f : NodeId → NodeId) (ns : List NodeId) : List NodeId := (ns.map f).eraseDups

section Quotient

variable {children children' : NodeId → List NodeId} {P : NodeId → Prop} {f : NodeId → NodeId}
  {done toVisit done' ns more : List NodeId} {n m : NodeId}

theorem mem_firstImages : m ∈ firstImages f ns ↔ ∃ n ∈ ns, f n = m := by
  rw [firstImages, List.mem_eraseDups, List.mem_map]

theorem firstImages_snoc (f : NodeId → NodeId) (ns : List NodeId) (n : NodeId) :
    firstImages f (ns ++ [n]) =
      if f n ∈ firstImages f ns then firstImages f ns else firstImages f ns ++ [f n] := by
  simp only [firstImages, List.map_append, List.map_singleton, Graph.eraseDups_snoc,
    List.mem_eraseDups]

theorem firstImages_append (h : ∀ n ∈ more, f n ∈ firstImages f ns) :
    firstImages f (ns ++ more) = firstImages f ns := by
  induction more using List.reverseRecOn with
  | nil => rw [List.append_nil]
  | append_singleton more n ih =>
      have hmore := ih fun m hm => h m (List.mem_append_left _ hm)
      rw [← List.append_assoc, firstImages_snoc, hmore, if_pos (h n (by simp))]

theorem Carries.reaches (h : Carries children children' P f) (hreach : Reaches children n m)
    (hn : P n) : P m ∧ Reaches children' (f n) (f m) := by
  induction hreach with
  | refl => exact ⟨hn, .refl⟩
  | tail _ hstep ih =>
      refine ⟨h.closed _ ih.1 _ hstep, ih.2.tail ?_⟩
      rw [Descends, h.map _ ih.1]
      exact List.mem_map_of_mem hstep

/-- What has been listed is closed under children. -/
theorem Visits.closed (h : Visits children unseen done toVisit done')
    (hdone : ∀ n ∈ done, ∀ child ∈ children n, child ∈ done) :
    ∀ n ∈ done', ∀ child ∈ children n, child ∈ done' := by
  induction h with
  | nil => exact hdone
  | skip _ _ ih => exact ih hdone
  | visit _ hbelow _ ihbelow ihrest =>
      refine ihrest fun m hm child hchild => List.mem_append_left _ ?_
      rcases List.mem_append.1 hm with hm | hm
      · exact ihbelow hdone m hm child hchild
      · rw [List.mem_singleton.1 hm] at hchild
        exact (hbelow.met_of_mem hchild).resolve_left id

/-- When the nodes of the quotient are without cycles, a visit of the images lists the images of what
a visit of the nodes lists, each where it stands first. -/
theorem Visits.quotient (h : Visits children unseen done toVisit done')
    (hcarries : Carries children children' P f) (hacyclic : Acyclic children')
    (hto : ∀ n ∈ toVisit, P n) (hdone : ∀ n ∈ done, P n)
    (hclosed : ∀ n ∈ done, ∀ child ∈ children n, child ∈ done) :
    Visits children' unseen (firstImages f done) (toVisit.map f) (firstImages f done') := by
  induction h with
  | nil done => exact .nil _
  | @skip done rest done' m met _ ih =>
      refine .skip (Or.inr (mem_firstImages.2 ⟨m, met.resolve_left id, rfl⟩)) ?_
      exact ih (fun n hn => hto n (List.mem_cons_of_mem m hn)) hdone hclosed
  | @visit done rest below done' m unmet hbelow hrest ihbelow ihrest =>
      have hm : P m := hto m List.mem_cons_self
      have hreached : ∀ n ∈ below, n ∈ done ∨
          ∃ child ∈ children m, P n ∧ Reaches children' (f child) (f n) := by
        intro n hn
        refine (hbelow.reached hn).imp_right fun ⟨child, hchild, hreach⟩ => ?_
        exact ⟨child, hchild, hcarries.reaches hreach (hcarries.closed m hm child hchild)⟩
      have hdone' : ∀ n ∈ below ++ [m], P n := by
        intro n hn
        rcases List.mem_append.1 hn with hn | hn
        · exact (hreached n hn).elim (hdone n) fun ⟨_, _, hP, _⟩ => hP
        · rwa [List.mem_singleton.1 hn]
      have hclosed' := (Visits.visit unmet hbelow (.nil _)).closed hclosed
      have ihrest := ihrest (fun n hn => hto n (List.mem_cons_of_mem m hn)) hdone' hclosed'
      rw [List.map_cons]
      by_cases hfm : f m ∈ firstImages f done
      · -- An older node has the same image, so the images of all that lies below are listed.
        have himages : ∀ n, Reaches children' (f m) n → n ∈ firstImages f done := by
          intro n hreach
          induction hreach with
          | refl => exact hfm
          | tail _ hstep ih =>
              obtain ⟨source, hsource, heq⟩ := mem_firstImages.1 ih
              rw [Descends, ← heq, hcarries.map source (hdone source hsource)] at hstep
              obtain ⟨child, hchild, rfl⟩ := List.mem_map.1 hstep
              exact mem_firstImages.2 ⟨child, hclosed source hsource child hchild, rfl⟩
        obtain ⟨listed, rfl⟩ := hbelow.exists_append
        have hsame : firstImages f (done ++ listed ++ [m]) = firstImages f done := by
          rw [List.append_assoc]
          refine firstImages_append fun n hn => ?_
          rcases List.mem_append.1 hn with hn | hn
          · rcases hreached n (List.mem_append_right _ hn) with hn | ⟨child, hchild, _, hreach⟩
            · exact mem_firstImages.2 ⟨n, hn, rfl⟩
            · refine himages _ (.head ?_ hreach)
              rw [Descends, hcarries.map m hm]
              exact List.mem_map_of_mem hchild
          · rwa [List.mem_singleton.1 hn]
        rw [hsame] at ihrest
        exact .skip (Or.inr hfm) ihrest
      · have hnew : f m ∉ firstImages f below := by
          intro hmem
          obtain ⟨n, hn, heq⟩ := mem_firstImages.1 hmem
          rcases hreached n hn with hn | ⟨child, hchild, _, hreach⟩
          · exact hfm (mem_firstImages.2 ⟨n, hn, heq⟩)
          · rw [heq] at hreach
            refine hacyclic (f m) (.head' ?_ hreach)
            rw [Descends, hcarries.map m hm]
            exact List.mem_map_of_mem hchild
        have ihbelow := ihbelow (hcarries.closed m hm) hdone hclosed
        rw [← hcarries.map m hm] at ihbelow
        rw [firstImages_snoc, if_neg hnew] at ihrest
        exact .visit (fun hmet => hfm (hmet.resolve_left id)) ihbelow ihrest

end Quotient
end LogicNet
