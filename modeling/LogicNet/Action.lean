import LogicNet.Fault
import LogicNet.Journal

/-!
Actions: computations that read and change a state, keep a journal, and may be refused. An action
that is refused still has an outcome: the state as it was left and the journal up to that point, so
that what a refused call has done already can be seen and stated.
-/

namespace LogicNet

/-- What an action on a state of type `σ` comes to. -/
structure Outcome (σ α : Type) where
  answer : Except Fault α
  state : σ
  journal : List Entry

/-- A computation on a state of type `σ`. -/
def Action (σ α : Type) : Type := σ → Outcome σ α

namespace Action

variable {σ τ α β : Type}

/-- Answers at once. -/
@[inline] protected def pure (a : α) : Action σ α := fun s => ⟨.ok a, s, []⟩

/-- Goes on with the answer of `x` on the state that it left; a refusal of `x` is final. -/
@[inline] protected def bind (x : Action σ α) (f : α → Action σ β) : Action σ β := fun s =>
  match x s with
  | ⟨.ok a, s', journal⟩ =>
    match f a s' with
    | ⟨answer, s'', more⟩ => ⟨answer, s'', journal ++ more⟩
  | ⟨.error fault, s', journal⟩ => ⟨.error fault, s', journal⟩

instance : Monad (Action σ) where
  pure := Action.pure
  bind := Action.bind

/-- Refuses the call. -/
def fail (fault : Fault) : Action σ α := fun s => ⟨.error fault, s, []⟩

/-- Refuses the call unless the condition holds. -/
def require (condition : Prop) [Decidable condition] (fault : Fault) : Action σ Unit :=
  if condition then pure () else fail fault

/-- Adds entries to the journal. -/
def report (entries : List Entry) : Action σ Unit := fun s => ⟨.ok (), s, entries⟩

/-- Adds a note to the journal. -/
def note (note : Note) : Action σ Unit := report [.noted note]

/-- The answer of a computation without a state. -/
@[inline] def ofExcept (x : Except Fault α) : Action σ α := fun s => ⟨x, s, []⟩

instance : MonadLift (Except Fault) (Action σ) := ⟨ofExcept⟩

instance : MonadStateOf σ (Action σ) where
  get := fun s => ⟨.ok s, s, []⟩
  set := fun s _ => ⟨.ok (), s, []⟩
  modifyGet := fun f s => ⟨.ok (f s).1, (f s).2, []⟩

/-- Runs an action on a part of the state. -/
def within (part : σ → τ) (replace : σ → τ → σ) (x : Action τ α) : Action σ α := fun s =>
  match x (part s) with
  | ⟨answer, t, journal⟩ => ⟨answer, replace s t, journal⟩

/-- Runs an action on a state of its own, and answers with what it left of it. -/
def elsewhere (start : τ) (x : Action τ α) : Action σ (α × τ) := fun s =>
  match x start with
  | ⟨answer, t, journal⟩ => ⟨answer.map (·, t), s, journal⟩

@[simp] theorem pure_run (a : α) (s : σ) : (pure a : Action σ α) s = ⟨.ok a, s, []⟩ := rfl

@[simp] theorem get_run (s : σ) : (get : Action σ σ) s = ⟨.ok s, s, []⟩ := rfl

@[simp] theorem set_run (s s' : σ) : (set s' : Action σ PUnit) s = ⟨.ok (), s', []⟩ := rfl

@[simp] theorem modify_run (f : σ → σ) (s : σ) :
    (modify f : Action σ PUnit) s = ⟨.ok (), f s, []⟩ := rfl

@[simp] theorem fail_run (fault : Fault) (s : σ) :
    (fail fault : Action σ α) s = ⟨.error fault, s, []⟩ := rfl

@[simp] theorem report_run (entries : List Entry) (s : σ) :
    report entries s = ⟨.ok (), s, entries⟩ := rfl

@[simp] theorem lift_run (x : Except Fault α) (s : σ) :
    (liftM x : Action σ α) s = ⟨x, s, []⟩ := rfl

@[simp] theorem require_run (condition : Prop) [Decidable condition] (fault : Fault) (s : σ) :
    require condition fault s = ⟨if condition then .ok () else .error fault, s, []⟩ := by
  unfold require
  split <;> rfl

theorem bind_run (x : Action σ α) (f : α → Action σ β) (s : σ) :
    (x >>= f) s = match x s with
      | ⟨.ok a, s', journal⟩ => ⟨(f a s').answer, (f a s').state, journal ++ (f a s').journal⟩
      | ⟨.error fault, s', journal⟩ => ⟨.error fault, s', journal⟩ := by
  simp only [Bind.bind, Action.bind]

theorem bind_run_ok {x : Action σ α} {f : α → Action σ β} {s s' : σ} {a : α}
    {journal : List Entry} (h : x s = ⟨.ok a, s', journal⟩) :
    (x >>= f) s = ⟨(f a s').answer, (f a s').state, journal ++ (f a s').journal⟩ := by
  rw [bind_run, h]

theorem bind_run_error {x : Action σ α} {f : α → Action σ β} {s s' : σ} {fault : Fault}
    {journal : List Entry} (h : x s = ⟨.error fault, s', journal⟩) :
    (x >>= f) s = ⟨.error fault, s', journal⟩ := by
  rw [bind_run, h]

theorem id_map_action (x : Action σ α) : id <$> x = x := by
  funext s
  simp only [Functor.map, Action.bind]
  rcases x s with ⟨_ | _, _, _⟩ <;> simp [Action.pure]

theorem pure_bind_action (a : α) (f : α → Action σ β) : pure a >>= f = f a := by
  funext s
  simp [Bind.bind, Action.bind, Pure.pure, Action.pure]

theorem bind_assoc_action {γ : Type} (x : Action σ α) (f : α → Action σ β) (g : β → Action σ γ) :
    x >>= f >>= g = x >>= fun a => f a >>= g := by
  funext s
  simp only [Bind.bind, Action.bind]
  rcases x s with ⟨_ | a, s', _⟩
  · rfl
  · rcases h : f a s' with ⟨_ | b, s'', _⟩ <;> simp [h]

instance : LawfulMonad (Action σ) :=
  LawfulMonad.mk' (Action σ) id_map_action pure_bind_action bind_assoc_action

end Action
end LogicNet
