import LogicNet.Proofs.Folding
import LogicNet.Proofs.Program

/-!
Calls made side by side: on a network without sharing, and on one with sharing that it folds onto,
with operands that go to each other. Unless a counter gets full, both are met or both are refused,
what the first one answers goes to what the second one answers, step by step, and afterwards the
first network still folds onto the second one. This is shown for each elementary call and goes along
with the ways of composing calls, so it is true of reductions by any construction.
-/

namespace LogicNet

/-- Both calls are refused, or both answer and the answers are related. -/
inductive InStep {α β : Type} (R : α → β → Prop) : Except Fault α → Except Fault β → Prop where
  | answered {a : α} {b : β} (related : R a b) : InStep R (.ok a) (.ok b)
  | refused (fault fault' : Fault) : InStep R (.error fault) (.error fault')

theorem InStep.mono {α β : Type} {R R' : α → β → Prop} (h : ∀ a b, R a b → R' a b)
    {x : Except Fault α} {y : Except Fault β} (hxy : InStep R x y) : InStep R' x y := by
  cases hxy with
  | answered related => exact .answered (h _ _ related)
  | refused fault fault' => exact .refused fault fault'

theorem InStep.bind {α β γ δ : Type} {P : α → β → Prop} {R : γ → δ → Prop} {x : Except Fault α}
    {y : Except Fault β} {F : α → Except Fault γ} {G : β → Except Fault δ} (hxy : InStep P x y)
    (h : ∀ a b, P a b → InStep R (F a) (G b)) : InStep R (x >>= F) (y >>= G) := by
  cases hxy with
  | answered related => exact h _ _ related
  | refused fault fault' => exact .refused fault fault'

namespace Network

/-- The second map and network go on where the first ones have got to. -/
structure Prolongs (f : NodeId → NodeId) (s : Network) (f' : NodeId → NodeId) (s' : Network) :
    Prop where
  size_le : s.graph.size ≤ s'.graph.size
  eq_of_lt : ∀ n < s.graph.size, f' n = f n

theorem Prolongs.refl (f : NodeId → NodeId) (s : Network) : Prolongs f s f s :=
  ⟨Nat.le_refl _, fun _ _ => rfl⟩

theorem Prolongs.trans {f f' f'' : NodeId → NodeId} {s s' s'' : Network}
    (h : Prolongs f s f' s') (h' : Prolongs f' s' f'' s'') : Prolongs f s f'' s'' :=
  ⟨Nat.le_trans h.size_le h'.size_le, fun n hn =>
    (h'.eq_of_lt n (Nat.lt_of_lt_of_le hn h.size_le)).trans (h.eq_of_lt n hn)⟩

/-- The node is one of the network, and goes to the other one. -/
def Goes (f : NodeId → NodeId) (s : Network) (n m : NodeId) : Prop := n < s.graph.size ∧ m = f n

/-- The nodes are nodes of the network, and go to the other ones. -/
def AllGo (f : NodeId → NodeId) (s : Network) (ns ms : List NodeId) : Prop :=
  (∀ n ∈ ns, n < s.graph.size) ∧ ms = ns.map f

section Going

variable {f f' : NodeId → NodeId} {s s' : Network} {n m : NodeId} {ns ms : List NodeId}

theorem Goes.prolong (h : Goes f s n m) (hprolongs : Prolongs f s f' s') : Goes f' s' n m :=
  ⟨Nat.lt_of_lt_of_le h.1 hprolongs.size_le, by rw [hprolongs.eq_of_lt n h.1, h.2]⟩

theorem AllGo.prolong (h : AllGo f s ns ms) (hprolongs : Prolongs f s f' s') :
    AllGo f' s' ns ms :=
  ⟨fun n hn => Nat.lt_of_lt_of_le (h.1 n hn) hprolongs.size_le,
    h.2.trans (List.map_congr_left fun n hn => (hprolongs.eq_of_lt n (h.1 n hn)).symm)⟩

theorem AllGo.nil (f : NodeId → NodeId) (s : Network) : AllGo f s [] [] :=
  ⟨fun _ hn => absurd hn List.not_mem_nil, rfl⟩

theorem AllGo.cons (hn : Goes f s n m) (h : AllGo f s ns ms) : AllGo f s (n :: ns) (m :: ms) :=
  ⟨List.forall_mem_cons.2 ⟨hn.1, h.1⟩, by rw [h.2, hn.2, List.map_cons]⟩

theorem AllGo.append {ns' ms' : List NodeId} (h : AllGo f s ns ms) (h' : AllGo f s ns' ms') :
    AllGo f s (ns ++ ns') (ms ++ ms') :=
  ⟨List.forall_mem_append.2 ⟨h.1, h'.1⟩, by rw [h.2, h'.2, List.map_append]⟩

theorem AllGo.singleton (hn : Goes f s n m) : AllGo f s [n] [m] := .cons hn (.nil f s)

theorem AllGo.take (h : AllGo f s ns ms) (count : Nat) :
    AllGo f s (ns.take count) (ms.take count) :=
  ⟨fun n hn => h.1 n (List.mem_of_mem_take hn), by rw [h.2, List.map_take]⟩

theorem AllGo.drop (h : AllGo f s ns ms) (count : Nat) :
    AllGo f s (ns.drop count) (ms.drop count) :=
  ⟨fun n hn => h.1 n (List.mem_of_mem_drop hn), by rw [h.2, List.map_drop]⟩

/-- Names that mean nodes which go to each other. -/
theorem AllGo.named (h : AllGo f s ns ms) (name : Nat) :
    InStep (Goes f s) (named ns name) (named ms name) := by
  unfold LogicNet.named
  rw [h.2, List.getElem?_map]
  cases hname : ns[name]? with
  | some n => exact .answered ⟨h.1 n (List.mem_of_getElem? hname), rfl⟩
  | none => exact .refused _ _

theorem AllGo.namedAll (h : AllGo f s ns ms) (names : List Nat) :
    InStep (AllGo f s) (namedAll ns names) (namedAll ms names) := by
  unfold LogicNet.namedAll
  induction names with
  | nil => exact .answered (.nil f s)
  | cons name rest ih =>
      rw [List.mapM_cons, List.mapM_cons]
      exact (h.named name).bind fun _ _ hgoes => ih.bind fun _ _ hrest =>
        .answered (.cons hgoes hrest)

end Going

/-- What two calls came to that were made side by side. -/
structure Abreast {α β : Type} (R : (NodeId → NodeId) → Network → α → β → Prop)
    (f : NodeId → NodeId) (s : Network) (left : Outcome Network α) (right : Outcome Network β)
    (f' : NodeId → NodeId) : Prop where
  folded : Folded f' left.state right.state
  prolongs : Prolongs f s f' left.state
  steps : AllGo f' left.state (answered left.journal) (answered right.journal)
  new : ∀ n < left.state.graph.size, n < s.graph.size ∨ n ∈ answered left.journal
  answer : InStep (R f' left.state) left.answer right.answer

/-- The calls can be made side by side, unless a counter gets full. -/
def Together {α β : Type} (R : (NodeId → NodeId) → Network → α → β → Prop)
    (f : NodeId → NodeId) (s t : Network) (x : Action Network α) (y : Action Network β) : Prop :=
  Folded f s t → (x s).answer ≠ .error .counterFull →
    (x s).state.graph.references.length < UInt32.size → ∃ f', Abreast R f s (x s) (y t) f'

namespace Together

variable {α β γ δ : Type} {R : (NodeId → NodeId) → Network → α → β → Prop}
  {R' : (NodeId → NodeId) → Network → γ → δ → Prop} {f : NodeId → NodeId} {s t : Network}
  {x : Action Network α} {y : Action Network β}

theorem of_folded (h : Folded f s t → Together R f s t x y) : Together R f s t x y :=
  fun hfolded => h hfolded hfolded

/-- Changes that add no nodes, and then what comes after them. -/
theorem after {s' t' : Network} {x' : Action Network α} {y' : Action Network β}
    (h : Together R f s' t' x y) (hx : x' s = x s') (hy : y' t = y t')
    (hsize : s'.graph.size = s.graph.size) (hfolded' : Folded f s t → Folded f s' t') :
    Together R f s t x' y' := by
  intro hfolded hroom huses
  rw [hx] at hroom huses ⊢
  rw [hy]
  obtain ⟨f', hend, hprolongs, hsteps, hnew, hanswer⟩ := h (hfolded' hfolded) hroom huses
  exact ⟨f', hend, ⟨hsize ▸ hprolongs.size_le, fun n hn => hprolongs.eq_of_lt n (hsize ▸ hn)⟩,
    hsteps, fun n hn => hsize ▸ hnew n hn, hanswer⟩

/-- What two actions do to two networks is all that matters. -/
theorem congr {x' : Action Network α} {y' : Action Network β} (h : Together R f s t x y)
    (hx : x' s = x s) (hy : y' t = y t) : Together R f s t x' y' :=
  h.after hx hy rfl id

/-- Calls that make no nodes. -/
theorem of_inStep {answer : Except Fault α} {answer' : Except Fault β} {s' t' : Network}
    (hx : x s = ⟨answer, s', []⟩) (hy : y t = ⟨answer', t', []⟩)
    (hsize : s'.graph.size = s.graph.size)
    (hfolded' : Folded f s t → s'.graph.references.length < UInt32.size → Folded f s' t')
    (h : InStep (R f s') answer answer') : Together R f s t x y := by
  intro hfolded _ huses
  rw [hx] at huses ⊢
  rw [hy]
  exact ⟨f, hfolded' hfolded huses, ⟨Nat.le_of_eq hsize.symm, fun _ _ => rfl⟩, .nil f s',
    fun n hn => Or.inl (hsize ▸ hn), h⟩

theorem lift {a : Except Fault α} {b : Except Fault β} (h : InStep (R f s) a b) :
    Together R f s t (liftM a) (liftM b) :=
  of_inStep rfl rfl rfl (fun hfolded _ => hfolded) h

theorem pure {a : α} {b : β} (h : R f s a b) : Together R f s t (pure a) (pure b) :=
  lift (a := .ok a) (b := .ok b) (.answered h)

theorem fail (fault fault' : Fault) : Together R f s t (Action.fail fault) (Action.fail fault') :=
  lift (a := .error fault) (b := .error fault') (.refused fault fault')

/-- The first call is refused because a counter is full. -/
theorem of_full (h : (x s).answer = .error .counterFull) : Together R f s t x y :=
  fun _ hroom _ => absurd h hroom

theorem get_bind {F : Network → Action Network α} {G : Network → Action Network β}
    (h : Together R f s t (F s) (G t)) :
    Together R f s t ((get : Action Network Network) >>= F) ((get : Action Network Network) >>= G) :=
  h.congr (Action.get_bind_run F s) (Action.get_bind_run G t)

theorem lift_bind {P : γ → δ → Prop} {a : Except Fault γ} {b : Except Fault δ}
    {F : γ → Action Network α} {G : δ → Action Network β} (h : InStep P a b)
    (hF : ∀ a b, P a b → Together R f s t (F a) (G b)) :
    Together R f s t (liftM a >>= F) (liftM b >>= G) := by
  cases h with
  | answered related =>
      exact (hF _ _ related).congr (Action.lift_ok_bind_run _ F s) (Action.lift_ok_bind_run _ G t)
  | refused fault fault' =>
      exact (fail fault fault').congr (Action.lift_error_bind_run fault F s)
        (Action.lift_error_bind_run fault' G t)

theorem require_bind {condition condition' : Prop} [Decidable condition] [Decidable condition']
    {fault fault' : Fault} {F : Unit → Action Network α} {G : Unit → Action Network β}
    (h : condition' ↔ condition) (hF : condition → Together R f s t (F ()) (G ())) :
    Together R f s t (Action.require condition fault >>= F)
      (Action.require condition' fault' >>= G) := by
  by_cases hcondition : condition
  · exact (hF hcondition).congr (Action.require_bind_run hcondition fault F s)
      (Action.require_bind_run (h.2 hcondition) fault' G t)
  · exact (fail fault fault').congr (Action.require_bind_run_error hcondition fault F s)
      (Action.require_bind_run_error (mt h.1 hcondition) fault' G t)

/-- Notes that are not about nodes. -/
theorem note_bind {n n' : Note} {F : Unit → Action Network α} {G : Unit → Action Network β}
    (hn : n.answered? = none) (hn' : n'.answered? = none)
    (h : Together R f s t (F ()) (G ())) :
    Together R f s t (Action.note n >>= F) (Action.note n' >>= G) := by
  have hnone : ∀ {n : Note} (rest : List Entry), n.answered? = none →
      answered (.noted n :: rest) = answered rest := fun rest hn => by
    rw [answered_cons, hn, Option.toList_none, List.nil_append]
  intro hfolded hroom huses
  rw [Action.note_bind_run] at hroom huses ⊢
  rw [Action.note_bind_run]
  obtain ⟨f', hfolded', hprolongs, hsteps, hnew, hanswer⟩ := h hfolded hroom huses
  refine ⟨f', hfolded', hprolongs, ?_, ?_, hanswer⟩
  · rw [hnone _ hn, hnone _ hn']
    exact hsteps
  · rw [hnone _ hn]
    exact hnew

/-- Calls that go on side by side. -/
theorem bind {F : α → Action Network γ} {G : β → Action Network δ} (hx : Together R f s t x y)
    (hmoves : ∀ a, Action.Moves Extension (F a))
    (hF : ∀ f' s' t' a b, Prolongs f s f' s' → R f' s' a b → Together R' f' s' t' (F a) (G b)) :
    Together R' f s t (x >>= F) (y >>= G) := by
  intro hfolded hroom huses
  rcases hleft : x s with ⟨answer, s', journal⟩
  rcases hright : y t with ⟨answer', t', journal'⟩
  cases answer with
  | error fault =>
      rw [Action.bind_run_error hleft] at hroom huses ⊢
      obtain ⟨f', hfirst⟩ := hx hfolded (by rw [hleft]; exact fun heq => hroom (by cases heq; rfl))
        (by rw [hleft]; exact huses)
      rw [hleft, hright] at hfirst
      obtain ⟨hfolded', hprolongs, hsteps, hnew, hanswer⟩ := hfirst
      cases hanswer with
      | refused _ fault' =>
          rw [Action.bind_run_error hright]
          exact ⟨f', hfolded', hprolongs, hsteps, hnew, .refused fault fault'⟩
  | ok a =>
      rw [Action.bind_run_ok hleft] at hroom huses ⊢
      -- What comes after the first call takes no uses away, so there were few enough before it.
      obtain ⟨f', hfirst⟩ := hx hfolded (by rw [hleft]; exact fun heq => by cases heq) (by
        rw [hleft]
        exact Nat.lt_of_le_of_lt (references_le_of_extensions (hmoves a s')) huses)
      rw [hleft, hright] at hfirst
      obtain ⟨hfolded', hprolongs, hsteps, hnew, hanswer⟩ := hfirst
      cases hanswer with
      | answered related =>
          rw [Action.bind_run_ok hright]
          obtain ⟨f'', hsecond⟩ := hF f' s' t' a _ hprolongs related hfolded' hroom huses
          refine ⟨f'', hsecond.folded, hprolongs.trans hsecond.prolongs, ?_, fun n hn => ?_,
            hsecond.answer⟩
          · rw [answered_append, answered_append]
            exact (hsteps.prolong hsecond.prolongs).append hsecond.steps
          · rw [answered_append, List.mem_append]
            rcases hsecond.new n hn with hn | hn
            · exact (hnew n hn).imp_right Or.inl
            · exact Or.inr (Or.inr hn)

/-- Folds over lists of items that belong together. -/
theorem foldlM {ι κ : Type} {P : ι → κ → Prop} {F : α → ι → Action Network α}
    {G : β → κ → Action Network β} (hmoves : ∀ a i, Action.Moves Extension (F a i))
    (hF : ∀ f' s' t' a b i j, Prolongs f s f' s' → R f' s' a b → P i j →
      Together R f' s' t' (F a i) (G b j)) {items : List ι} {items' : List κ}
    (hitems : List.Forall₂ P items items') {f' : NodeId → NodeId} {s' t' : Network}
    (hprolongs : Prolongs f s f' s') {a : α} {b : β} (hab : R f' s' a b) :
    Together R f' s' t' (items.foldlM F a) (items'.foldlM G b) := by
  induction hitems generalizing f' s' t' a b with
  | nil => exact pure hab
  | @cons i j rest rest' hi _ ih =>
      rw [List.foldlM_cons, List.foldlM_cons]
      exact (hF f' s' t' a b i j hprolongs hab hi).bind (fun a => .foldlM hmoves rest a)
        fun f'' s'' t'' a b hlater hab => ih (hprolongs.trans hlater) hab

/-- The answers of calls that are made side by side, seen through functions. -/
theorem map {g : α → γ} {g' : β → δ} (hx : Together R f s t x y)
    (h : ∀ f' s' a b, R f' s' a b → R' f' s' (g a) (g' b)) :
    Together R' f s t (x >>= fun a => Pure.pure (g a)) (y >>= fun b => Pure.pure (g' b)) :=
  hx.bind (fun _ => .pure _) fun f' s' _ a b _ hab => pure (h f' s' a b hab)

end Together
end Network
end LogicNet
