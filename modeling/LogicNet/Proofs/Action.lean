import LogicNet.Action
import Mathlib.Logic.Relation

/-!
Reasoning about actions. The laws on `bind` peel an action apart, from its elementary part on the
left to what follows. An action moves along a relation if whatever it does to a state, refused or
not, is a sequence of steps of that relation; it yields what it answers for certain, and leaves what
it answers if it answers at all. What it gives is its answer and the state that it leaves; of a
composed action this is told by what its parts give. Of an action that may be refused it is stated
what it fails with, its fault and the state after it. An action overlooks a part of the state if it
does the same whatever stands there, and leaves it there.
-/

namespace LogicNet.Action

variable {σ τ α β : Type}

theorem get_bind_run (f : σ → Action σ α) (s : σ) : ((get : Action σ σ) >>= f) s = f s s := by
  simp [bind_run]

theorem set_bind_run (s' : σ) (f : PUnit → Action σ α) (s : σ) :
    ((set s' : Action σ PUnit) >>= f) s = f () s' := by
  simp [bind_run]

theorem modify_bind_run (g : σ → σ) (f : PUnit → Action σ α) (s : σ) :
    ((modify g : Action σ PUnit) >>= f) s = f () (g s) := by
  simp [bind_run]

theorem lift_ok_bind_run (a : α) (f : α → Action σ β) (s : σ) :
    ((liftM (Except.ok a : Except Fault α) : Action σ α) >>= f) s = f a s := by
  simp [bind_run]

theorem lift_error_bind_run (fault : Fault) (f : α → Action σ β) (s : σ) :
    ((liftM (Except.error fault : Except Fault α) : Action σ α) >>= f) s =
      ⟨.error fault, s, []⟩ := by
  simp [bind_run]

theorem require_bind_run {condition : Prop} [Decidable condition] (h : condition) (fault : Fault)
    (f : Unit → Action σ α) (s : σ) : (require condition fault >>= f) s = f () s := by
  simp [bind_run, h]

theorem require_bind_run_error {condition : Prop} [Decidable condition] (h : ¬ condition)
    (fault : Fault) (f : Unit → Action σ α) (s : σ) :
    (require condition fault >>= f) s = ⟨.error fault, s, []⟩ := by
  simp [bind_run, h]

theorem fail_bind_run (fault : Fault) (f : α → Action σ β) (s : σ) :
    ((fail fault : Action σ α) >>= f) s = ⟨.error fault, s, []⟩ := by
  simp [bind_run]

theorem report_bind_run (entries : List Entry) (f : Unit → Action σ α) (s : σ) :
    (report entries >>= f) s = ⟨(f () s).answer, (f () s).state, entries ++ (f () s).journal⟩ := by
  simp [bind_run]

theorem note_bind_run (n : Note) (f : Unit → Action σ α) (s : σ) :
    (note n >>= f) s = ⟨(f () s).answer, (f () s).state, .noted n :: (f () s).journal⟩ := by
  simp [note, bind_run]

theorem bind_answer_of_ok {x : Action σ α} {s : σ} {a : α} (h : (x s).answer = .ok a)
    (f : α → Action σ β) : ((x >>= f) s).answer = (f a (x s).state).answer := by
  rw [bind_run]
  rcases hx : x s with ⟨answer, s', journal⟩
  rw [hx] at h
  cases h
  rfl

theorem bind_state_of_ok {x : Action σ α} {s : σ} {a : α} (h : (x s).answer = .ok a)
    (f : α → Action σ β) : ((x >>= f) s).state = (f a (x s).state).state := by
  rw [bind_run]
  rcases hx : x s with ⟨answer, s', journal⟩
  rw [hx] at h
  cases h
  rfl

theorem bind_answer_of_error {x : Action σ α} {s : σ} {fault : Fault}
    (h : (x s).answer = .error fault) (f : α → Action σ β) :
    ((x >>= f) s).answer = .error fault := by
  rw [bind_run]
  rcases hx : x s with ⟨answer, s', journal⟩
  rw [hx] at h
  cases h
  rfl

theorem bind_state_of_error {x : Action σ α} {s : σ} {fault : Fault}
    (h : (x s).answer = .error fault) (f : α → Action σ β) :
    ((x >>= f) s).state = (x s).state := by
  rw [bind_run]
  rcases hx : x s with ⟨answer, s', journal⟩
  rw [hx] at h
  cases h
  rfl

/-- An answer of a composed action comes from answers of both of its parts. -/
theorem exists_of_bind_ok {x : Action σ α} {f : α → Action σ β} {s : σ} {b : β}
    (h : ((x >>= f) s).answer = .ok b) :
    ∃ a, (x s).answer = .ok a ∧ (f a (x s).state).answer = .ok b := by
  cases hx : (x s).answer with
  | ok a => exact ⟨a, rfl, by rwa [bind_answer_of_ok hx] at h⟩
  | error fault => rw [bind_answer_of_error hx] at h; cases h

theorem elsewhere_bind_answer {x : Action τ α} {start : τ} {a : α} (h : (x start).answer = .ok a)
    (f : α × τ → Action σ β) (s : σ) :
    ((elsewhere start x >>= f) s).answer = (f (a, (x start).state) s).answer := by
  have hx : (elsewhere start x s : Outcome σ (α × τ)).answer = .ok (a, (x start).state) := by
    simp only [elsewhere, h, Except.map]
  exact bind_answer_of_ok hx f

theorem elsewhere_bind_state {x : Action τ α} {start : τ} {a : α} (h : (x start).answer = .ok a)
    (f : α × τ → Action σ β) (s : σ) :
    ((elsewhere start x >>= f) s).state = (f (a, (x start).state) s).state := by
  have hx : (elsewhere start x s : Outcome σ (α × τ)).answer = .ok (a, (x start).state) := by
    simp only [elsewhere, h, Except.map]
  exact bind_state_of_ok hx f

theorem exists_of_elsewhere_bind_ok {x : Action τ α} {start : τ} {f : α × τ → Action σ β} {s : σ}
    {b : β} (h : ((elsewhere start x >>= f) s).answer = .ok b) :
    ∃ a, (x start).answer = .ok a ∧ (f (a, (x start).state) s).answer = .ok b := by
  cases hx : (x start).answer with
  | ok a => exact ⟨a, rfl, by rwa [elsewhere_bind_answer hx] at h⟩
  | error fault =>
      have hfail : (elsewhere start x s : Outcome σ (α × τ)).answer = .error fault := by
        simp only [elsewhere, hx, Except.map]
      rw [bind_answer_of_error hfail] at h
      cases h

theorem forM_eq_foldlM (f : α → Action σ PUnit) (items : List α) :
    items.forM f = items.foldlM (fun _ item => f item) ⟨⟩ := by
  induction items with
  | nil => rfl
  | cons item rest ih =>
      show (f item >>= fun _ => rest.forM f) = _
      rw [ih, List.foldlM_cons]

/-- The action takes every state to one that is reached from it by steps, whatever it answers. -/
def Moves (step : σ → σ → Prop) (x : Action σ α) : Prop :=
  ∀ s, Relation.ReflTransGen step s (x s).state

namespace Moves

variable {step : σ → σ → Prop}

theorem mono {step' : σ → σ → Prop} {x : Action σ α} (h : Moves step x)
    (hstep : ∀ s s', step s s' → step' s s') : Moves step' x :=
  fun s => Relation.ReflTransGen.mono hstep _ _ (h s)

theorem of_state_eq {x : Action σ α} (h : ∀ s, (x s).state = s) : Moves step x :=
  fun s => by rw [h s]

theorem pure (a : α) : Moves step (pure a : Action σ α) := of_state_eq fun _ => rfl

theorem fail (fault : Fault) : Moves step (Action.fail fault : Action σ α) :=
  of_state_eq fun _ => rfl

theorem require (condition : Prop) [Decidable condition] (fault : Fault) :
    Moves step (Action.require condition fault : Action σ Unit) :=
  of_state_eq fun s => by rw [require_run]

theorem report (entries : List Entry) : Moves step (Action.report entries : Action σ Unit) :=
  of_state_eq fun _ => rfl

theorem note (n : Note) : Moves step (Action.note n : Action σ Unit) := report _

theorem lift (x : Except Fault α) : Moves step (liftM x : Action σ α) := of_state_eq fun _ => rfl

theorem get : Moves step (get : Action σ σ) := of_state_eq fun _ => rfl

theorem elsewhere (start : τ) (x : Action τ α) :
    Moves step (Action.elsewhere start x : Action σ (α × τ)) :=
  of_state_eq fun _ => rfl

theorem bind {x : Action σ α} {f : α → Action σ β} (hx : Moves step x)
    (hf : ∀ a, Moves step (f a)) : Moves step (x >>= f) := by
  intro s
  cases h : (x s).answer with
  | ok a =>
      rw [bind_state_of_ok h]
      exact (hx s).trans (hf a _)
  | error fault =>
      rw [bind_state_of_error h]
      exact hx s

theorem foldlM {f : β → α → Action σ β} (h : ∀ b a, Moves step (f b a)) (items : List α) (b : β) :
    Moves step (items.foldlM f b) := by
  induction items generalizing b with
  | nil => exact pure b
  | cons item rest ih =>
      rw [List.foldlM_cons]
      exact bind (h b item) ih

theorem forM {f : α → Action σ PUnit} (h : ∀ a, Moves step (f a)) (items : List α) :
    Moves step (items.forM f) := by
  rw [forM_eq_foldlM]
  exact foldlM (fun _ item => h item) items _

theorem mapM {f : α → Action σ β} (h : ∀ a, Moves step (f a)) (items : List α) :
    Moves step (items.mapM f) := by
  induction items with
  | nil => exact pure _
  | cons item rest ih =>
      rw [List.mapM_cons]
      exact bind (h item) fun _ => bind ih fun _ => pure _

end Moves

/-- What each item that is dealt with keeps of those before it holds of all of them in the end, for
every way of speaking about what actions do that goes along with `pure` and `bind`. -/
theorem foldlM_induction {Does : Action σ β → σ → (β → σ → Prop) → Prop}
    (hpure : ∀ b s post, post b s → Does (pure b) s post)
    (hbind : ∀ x f s middle post, Does x s middle → (∀ b s', middle b s' → Does (f b) s' post) →
      Does (x >>= f) s post)
    {f : β → α → Action σ β} {items : List α} (P : List α → β → σ → Prop)
    (hstep : ∀ done item rest b s, items = done ++ item :: rest → P done b s →
      Does (f b item) s (P (done ++ [item]))) {b : β} {s : σ} (h : P [] b s) :
    Does (items.foldlM f b) s (P items) := by
  have hrun : ∀ rest done b s, items = done ++ rest → P done b s →
      Does (rest.foldlM f b) s (P items) := by
    intro rest
    induction rest with
    | nil =>
        intro done b s hitems h
        rw [List.append_nil] at hitems
        exact hpure b s _ (hitems ▸ h)
    | cons item rest ih =>
        intro done b s hitems h
        rw [List.foldlM_cons]
        refine hbind _ _ s _ _ (hstep done item rest b s hitems h) fun b' s' h' => ?_
        exact ih (done ++ [item]) b' s' (by rw [hitems, List.append_assoc]; rfl) h'
  exact hrun items [] b s rfl h

/-- The action answers, and its answer and the state after it are as stated. -/
def Yields (x : Action σ α) (s : σ) (post : α → σ → Prop) : Prop :=
  ∃ a, (x s).answer = .ok a ∧ post a (x s).state

namespace Yields

variable {x : Action σ α} {f : α → Action σ β} {s : σ} {post : β → σ → Prop}

theorem pure {post : α → σ → Prop} {a : α} (h : post a s) :
    Yields (pure a : Action σ α) s post := ⟨a, rfl, h⟩

theorem bind {middle : α → σ → Prop} (hx : Yields x s middle)
    (hf : ∀ a s', middle a s' → Yields (f a) s' post) : Yields (x >>= f) s post := by
  obtain ⟨a, ha, hmiddle⟩ := hx
  obtain ⟨b, hb, hpost⟩ := hf a _ hmiddle
  exact ⟨b, by rwa [bind_answer_of_ok ha], by rwa [bind_state_of_ok ha]⟩

theorem get_bind {f : σ → Action σ β} (h : Yields (f s) s post) :
    Yields ((get : Action σ σ) >>= f) s post := by
  rwa [Yields, get_bind_run]

theorem modify_bind {g : σ → σ} {f : PUnit → Action σ β} (h : Yields (f ⟨⟩) (g s) post) :
    Yields ((modify g : Action σ PUnit) >>= f) s post := by
  rwa [Yields, modify_bind_run]

theorem lift_bind {y : Except Fault α} {a : α} (hy : y = .ok a) (h : Yields (f a) s post) :
    Yields ((liftM y : Action σ α) >>= f) s post := by
  rwa [Yields, hy, lift_ok_bind_run]

theorem note_bind {n : Note} {f : Unit → Action σ β} (h : Yields (f ()) s post) :
    Yields (Action.note n >>= f) s post := by
  rwa [Yields, note_bind_run]

theorem elsewhere_bind {start : τ} {y : Action τ α} {f : α × τ → Action σ β}
    {middle : α → τ → Prop} (hy : Yields y start middle)
    (hf : ∀ a t, middle a t → Yields (f (a, t)) s post) :
    Yields (Action.elsewhere start y >>= f) s post := by
  obtain ⟨a, ha, hmiddle⟩ := hy
  obtain ⟨b, hb, hpost⟩ := hf a _ hmiddle
  exact ⟨b, by rwa [elsewhere_bind_answer ha], by rwa [elsewhere_bind_state ha]⟩

theorem foldlM {f : β → α → Action σ β} {items : List α} (P : List α → β → σ → Prop)
    (hstep : ∀ done item rest b s, items = done ++ item :: rest → P done b s →
      Yields (f b item) s (P (done ++ [item]))) {b : β} (h : P [] b s) :
    Yields (items.foldlM f b) s (P items) :=
  foldlM_induction (fun _ _ _ h => pure h) (fun _ _ _ _ _ hx hf => bind hx hf) P hstep h

theorem forM {f : α → Action σ PUnit} {items : List α} (P : List α → σ → Prop)
    (hstep : ∀ done item rest s, items = done ++ item :: rest → P done s →
      Yields (f item) s fun _ => P (done ++ [item])) (h : P [] s) :
    Yields (items.forM f) s fun _ => P items := by
  rw [forM_eq_foldlM]
  exact foldlM (fun done _ s => P done s) (fun done item rest _ s => hstep done item rest s) h

end Yields

/-- If the action answers, its answer and the state after it are as stated. -/
def Leaves (x : Action σ α) (s : σ) (post : α → σ → Prop) : Prop :=
  ∀ a, (x s).answer = .ok a → post a (x s).state

theorem Yields.leaves {x : Action σ α} {s : σ} {post : α → σ → Prop} (h : Yields x s post) :
    Leaves x s post := by
  obtain ⟨a, ha, hpost⟩ := h
  intro b hb
  rw [ha] at hb
  cases hb
  exact hpost

namespace Leaves

variable {x : Action σ α} {f : α → Action σ β} {s : σ} {post : β → σ → Prop}

theorem and {post post' : α → σ → Prop} (h : Leaves x s post) (h' : Leaves x s post') :
    Leaves x s fun a s' => post a s' ∧ post' a s' := fun a ha => ⟨h a ha, h' a ha⟩

theorem pure {post : α → σ → Prop} {a : α} (h : post a s) :
    Leaves (pure a : Action σ α) s post := (Yields.pure h).leaves

theorem bind {middle : α → σ → Prop} (hx : Leaves x s middle)
    (hf : ∀ a s', middle a s' → Leaves (f a) s' post) : Leaves (x >>= f) s post := by
  intro b hb
  obtain ⟨a, ha, hrest⟩ := exists_of_bind_ok hb
  rw [bind_state_of_ok ha]
  exact hf a _ (hx a ha) b hrest

theorem get_bind {f : σ → Action σ β} (h : Leaves (f s) s post) :
    Leaves ((get : Action σ σ) >>= f) s post := by
  rwa [Leaves, get_bind_run]

theorem modify_bind {g : σ → σ} {f : PUnit → Action σ β} (h : Leaves (f ⟨⟩) (g s) post) :
    Leaves ((modify g : Action σ PUnit) >>= f) s post := by
  rwa [Leaves, modify_bind_run]

theorem lift_bind {y : Except Fault α} (h : ∀ a, y = .ok a → Leaves (f a) s post) :
    Leaves ((liftM y : Action σ α) >>= f) s post :=
  bind (fun _ ha => ⟨ha, rfl⟩) fun a s' (hmiddle : y = .ok a ∧ s' = s) =>
    hmiddle.2 ▸ h a hmiddle.1

theorem set_bind {s' : σ} {f : PUnit → Action σ β} (h : Leaves (f ⟨⟩) s' post) :
    Leaves ((set s' : Action σ PUnit) >>= f) s post := by
  rwa [Leaves, set_bind_run]

theorem require_bind {condition : Prop} [Decidable condition] {fault : Fault}
    {f : Unit → Action σ β} (h : condition → Leaves (f ()) s post) :
    Leaves (Action.require condition fault >>= f) s post := by
  by_cases hcondition : condition
  · rw [Leaves, require_bind_run hcondition]
    exact h hcondition
  · intro a ha
    rw [require_bind_run_error hcondition] at ha
    cases ha

theorem note_bind {n : Note} {f : Unit → Action σ β} (h : Leaves (f ()) s post) :
    Leaves (Action.note n >>= f) s post := by
  rwa [Leaves, note_bind_run]

theorem report_bind {entries : List Entry} {f : Unit → Action σ β} (h : Leaves (f ()) s post) :
    Leaves (Action.report entries >>= f) s post := by
  rwa [Leaves, report_bind_run]

theorem elsewhere_bind {start : τ} {y : Action τ α} {f : α × τ → Action σ β}
    {middle : α → τ → Prop} (hy : Leaves y start middle)
    (hf : ∀ a t, middle a t → Leaves (f (a, t)) s post) :
    Leaves (Action.elsewhere start y >>= f) s post := by
  intro b hb
  obtain ⟨a, ha, hrest⟩ := exists_of_elsewhere_bind_ok hb
  rw [elsewhere_bind_state ha]
  exact hf a _ (hy a ha) b hrest

theorem foldlM {f : β → α → Action σ β} {items : List α} (P : List α → β → σ → Prop)
    (hstep : ∀ done item rest b s, items = done ++ item :: rest → P done b s →
      Leaves (f b item) s (P (done ++ [item]))) {b : β} (h : P [] b s) :
    Leaves (items.foldlM f b) s (P items) :=
  foldlM_induction (fun _ _ _ h => pure h) (fun _ _ _ _ _ hx hf => bind hx hf) P hstep h

theorem forM {f : α → Action σ PUnit} {items : List α} (P : σ → Prop)
    (hstep : ∀ item s, P s → Leaves (f item) s fun _ => P) (h : P s) :
    Leaves (items.forM f) s fun _ => P := by
  rw [forM_eq_foldlM]
  exact foldlM (fun _ _ s => P s) (fun _ item _ _ s _ => hstep item s) h

end Leaves

/-- The action answers `a` and leaves the state `s'`. -/
def Gives (x : Action σ α) (s : σ) (a : α) (s' : σ) : Prop :=
  (x s).answer = .ok a ∧ (x s).state = s'

theorem Leaves.of_gives {x : Action σ α} {s s' : σ} {a : α} {post : α → σ → Prop}
    (h : Leaves x s post) (hx : Gives x s a s') : post a s' := by
  obtain ⟨ha, rfl⟩ := hx
  exact h a ha

section Gives

variable {x : Action σ α} {f : α → Action σ β} {s s' : σ} {a : α} {b : β}

theorem gives_pure_iff {a' : α} : Gives (pure a : Action σ α) s a' s' ↔ a' = a ∧ s' = s := by
  simp only [Gives, pure_run, Except.ok.injEq, eq_comm]

theorem gives_bind_iff :
    Gives (x >>= f) s b s' ↔ ∃ a middle, Gives x s a middle ∧ Gives (f a) middle b s' := by
  constructor
  · rintro ⟨hb, rfl⟩
    obtain ⟨a, ha, hrest⟩ := exists_of_bind_ok hb
    exact ⟨a, _, ⟨ha, rfl⟩, hrest, (bind_state_of_ok ha f).symm⟩
  · rintro ⟨a, middle, ⟨ha, rfl⟩, hb, rfl⟩
    exact ⟨(bind_answer_of_ok ha f).trans hb, bind_state_of_ok ha f⟩

theorem gives_get_bind_iff {f : σ → Action σ β} :
    Gives ((get : Action σ σ) >>= f) s b s' ↔ Gives (f s) s b s' := by
  rw [Gives, get_bind_run, Gives]

theorem gives_modify_bind_iff {g : σ → σ} {f : PUnit → Action σ β} :
    Gives ((modify g : Action σ PUnit) >>= f) s b s' ↔ Gives (f ⟨⟩) (g s) b s' := by
  rw [Gives, modify_bind_run, Gives]

theorem gives_note_bind_iff {n : Note} {f : Unit → Action σ β} :
    Gives (Action.note n >>= f) s b s' ↔ Gives (f ()) s b s' := by
  rw [Gives, note_bind_run, Gives]

theorem gives_lift_bind_iff {y : Except Fault α} :
    Gives ((liftM y : Action σ α) >>= f) s b s' ↔ ∃ a, y = .ok a ∧ Gives (f a) s b s' := by
  cases y with
  | ok a => simp only [Gives, lift_ok_bind_run, Except.ok.injEq, exists_eq_left']
  | error fault => simp [Gives, lift_error_bind_run]

theorem gives_require_bind_iff {condition : Prop} [Decidable condition] {fault : Fault}
    {f : Unit → Action σ β} :
    Gives (Action.require condition fault >>= f) s b s' ↔ condition ∧ Gives (f ()) s b s' := by
  by_cases h : condition
  · rw [Gives, require_bind_run h, Gives, and_iff_right h]
  · simp [Gives, require_bind_run_error h, h]

theorem gives_elsewhere_bind_iff {start : τ} {y : Action τ α} {f : α × τ → Action σ β} :
    Gives (Action.elsewhere start y >>= f) s b s' ↔
      ∃ a t, Gives y start a t ∧ Gives (f (a, t)) s b s' := by
  constructor
  · rintro ⟨hb, rfl⟩
    obtain ⟨a, ha, hrest⟩ := exists_of_elsewhere_bind_ok hb
    exact ⟨a, _, ⟨ha, rfl⟩, hrest, (elsewhere_bind_state ha f s).symm⟩
  · rintro ⟨a, t, ⟨ha, rfl⟩, hb, rfl⟩
    exact ⟨(elsewhere_bind_answer ha f s).trans hb, elsewhere_bind_state ha f s⟩

theorem gives_foldlM_snoc_iff {f : β → α → Action σ β} {items : List α} {item : α} {b' : β} :
    Gives ((items ++ [item]).foldlM f b) s b' s' ↔ ∃ b'' middle,
      Gives (items.foldlM f b) s b'' middle ∧ Gives (f b'' item) middle b' s' := by
  rw [List.foldlM_append, gives_bind_iff]
  simp only [List.foldlM_cons, List.foldlM_nil, bind_pure]

end Gives

theorem Gives.unique {x : Action σ α} {s s' t : σ} {a b : α} (h : Gives x s a s')
    (h' : Gives x s b t) : b = a ∧ t = s' := by
  obtain ⟨ha, rfl⟩ := h
  obtain ⟨hb, rfl⟩ := h'
  rw [ha] at hb
  exact ⟨(Except.ok.inj hb).symm, rfl⟩

/-- If the action is refused, its fault and the state after it are as stated. -/
def Fails (x : Action σ α) (s : σ) (post : Fault → σ → Prop) : Prop :=
  ∀ fault, (x s).answer = .error fault → post fault (x s).state

namespace Fails

variable {x : Action σ α} {s : σ} {post : Fault → σ → Prop}

theorem of_ok {a : α} (h : (x s).answer = .ok a) : Fails x s post := by
  intro fault hfault
  rw [h] at hfault
  cases hfault

theorem pure (a : α) : Fails (Pure.pure a : Action σ α) s post := of_ok rfl

theorem mono {post' : Fault → σ → Prop} (h : Fails x s post)
    (himp : ∀ fault s', post fault s' → post' fault s') : Fails x s post' :=
  fun fault hfault => himp fault _ (h fault hfault)

theorem bind {f : α → Action σ β} (hx : Fails x s post)
    (hf : ∀ a s', Gives x s a s' → Fails (f a) s' post) : Fails (x >>= f) s post := by
  intro fault hfault
  cases hanswer : (x s).answer with
  | ok a =>
      rw [bind_answer_of_ok hanswer] at hfault
      rw [bind_state_of_ok hanswer]
      exact hf a _ ⟨hanswer, rfl⟩ fault hfault
  | error early =>
      rw [bind_answer_of_error hanswer] at hfault
      cases hfault
      rw [bind_state_of_error hanswer]
      exact hx fault hanswer

theorem get_bind {f : σ → Action σ β} (h : Fails (f s) s post) :
    Fails ((get : Action σ σ) >>= f) s post := by
  rwa [Fails, get_bind_run]

theorem lift_bind {y : Except Fault α} {f : α → Action σ β}
    (hrefused : ∀ fault, y = .error fault → post fault s) (h : ∀ a, y = .ok a → Fails (f a) s post) :
    Fails ((liftM y : Action σ α) >>= f) s post := by
  cases y with
  | ok a =>
      rw [Fails, lift_ok_bind_run]
      exact h a rfl
  | error fault =>
      rw [Fails, lift_error_bind_run]
      rintro _ ⟨⟩
      exact hrefused fault rfl

theorem lift_ok_bind {y : Except Fault α} {f : α → Action σ β} {a : α} (hy : y = .ok a)
    (h : Fails (f a) s post) : Fails ((liftM y : Action σ α) >>= f) s post := by
  rwa [Fails, hy, lift_ok_bind_run]

theorem require_bind {condition : Prop} [Decidable condition] {fault : Fault}
    {f : Unit → Action σ β} (hrefused : post fault s) (h : condition → Fails (f ()) s post) :
    Fails (Action.require condition fault >>= f) s post := by
  by_cases hcondition : condition
  · rw [Fails, require_bind_run hcondition]
    exact h hcondition
  · rw [Fails, require_bind_run_error hcondition]
    rintro _ ⟨⟩
    exact hrefused

theorem set_bind {s' : σ} {f : PUnit → Action σ β} (h : Fails (f ⟨⟩) s' post) :
    Fails ((set s' : Action σ PUnit) >>= f) s post := by
  rwa [Fails, set_bind_run]

theorem modify_bind {g : σ → σ} {f : PUnit → Action σ β} (h : Fails (f ⟨⟩) (g s) post) :
    Fails ((modify g : Action σ PUnit) >>= f) s post := by
  rwa [Fails, modify_bind_run]

theorem note_bind {n : Note} {f : Unit → Action σ β} (h : Fails (f ()) s post) :
    Fails (Action.note n >>= f) s post := by
  rwa [Fails, note_bind_run]

theorem report_bind {entries : List Entry} {f : Unit → Action σ β} (h : Fails (f ()) s post) :
    Fails (Action.report entries >>= f) s post := by
  rwa [Fails, report_bind_run]

end Fails

/-- The action answers. -/
def Answers (x : Action σ α) (s : σ) : Prop := ∃ a, (x s).answer = .ok a

theorem refused_iff {x : Action σ α} {s : σ} :
    (∃ fault, (x s).answer = .error fault) ↔ ¬ Answers x s := by
  unfold Answers
  cases (x s).answer <;> simp

theorem Gives.bind_answers_iff {x : Action σ α} {s s' : σ} {a : α} (h : Gives x s a s')
    (f : α → Action σ β) : Answers (x >>= f) s ↔ Answers (f a) s' := by
  rw [Answers, bind_answer_of_ok h.1, h.2, Answers]

theorem require_bind_answers_iff {condition : Prop} [Decidable condition] {fault : Fault}
    {f : Unit → Action σ β} {s : σ} :
    Answers (require condition fault >>= f) s ↔ condition ∧ Answers (f ()) s := by
  by_cases h : condition
  · rw [Answers, require_bind_run h, and_iff_right h, Answers]
  · simp [Answers, require_bind_run_error h, h]

theorem lift_bind_answers_iff {y : Except Fault α} {f : α → Action σ β} {s : σ} :
    Answers ((liftM y : Action σ α) >>= f) s ↔ ∃ a, y = .ok a ∧ Answers (f a) s := by
  cases y with
  | ok a => simp [Answers, lift_ok_bind_run]
  | error fault => simp [Answers, lift_error_bind_run]

theorem pure_answers (a : α) (s : σ) : Answers (pure a : Action σ α) s := ⟨a, rfl⟩

/-- The action neither uses nor changes what `f` replaces. -/
def Overlooks (f : σ → σ) (x : Action σ α) : Prop :=
  ∀ s, x (f s) = ⟨(x s).answer, f (x s).state, (x s).journal⟩

namespace Overlooks

variable {f : σ → σ}

theorem bind {x : Action σ α} {g : α → Action σ β} (hx : Overlooks f x)
    (hg : ∀ a, Overlooks f (g a)) : Overlooks f (x >>= g) := by
  intro s
  rw [bind_run, bind_run, hx s]
  rcases x s with ⟨_ | a, s', journal⟩
  · rfl
  · simp only [hg a s']

theorem pure (a : α) : Overlooks f (Pure.pure a : Action σ α) := fun _ => rfl

theorem lift (y : Except Fault α) : Overlooks f (liftM y : Action σ α) := fun _ => rfl

theorem forM {g : α → Action σ PUnit} (hg : ∀ a, Overlooks f (g a)) (items : List α) :
    Overlooks f (items.forM g) := by
  induction items with
  | nil => exact pure _
  | cons item rest ih => exact bind (hg item) fun _ => ih

end Overlooks
end LogicNet.Action
