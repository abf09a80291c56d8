import LogicNet.Listeners
import LogicNet.Proofs.Action

/-!
What an action comes to, refused or not. An action ends in what is stated of the state that it
leaves and of the deliveries that it makes. Where this is a relation between two states, labelled
with deliveries, that is reflexive and transitive, it goes along with every way of composing actions.
-/

namespace LogicNet

/-- A call of a listener: the subscription and the event. -/
abbrev Delivery := Nat × Event

/-- The deliveries that a journal records, in their order. -/
def heard (journal : List Entry) : List Delivery := journal.filterMap Entry.delivery?

@[simp] theorem heard_nil : heard [] = [] := rfl

@[simp] theorem heard_noted (note : Note) (journal : List Entry) :
    heard (.noted note :: journal) = heard journal := rfl

@[simp] theorem heard_append (journal more : List Entry) :
    heard (journal ++ more) = heard journal ++ heard more := List.filterMap_append

theorem heard_flatMap {α : Type} (items : List α) (f : α → List Entry) :
    heard (items.flatMap f) = items.flatMap fun item => heard (f item) := by
  induction items with
  | nil => rfl
  | cons item rest ih => rw [List.flatMap_cons, heard_append, ih, List.flatMap_cons]

/-- The subscriptions that are told of an event, in the order in which they are. -/
def Listeners.called (l : Listeners) : Event → List Nat
  | .added _ => l.onAdded
  | .modified .. => l.onModified

@[simp] theorem heard_deliveries (l : Listeners) (event : Event) :
    heard (l.deliveries event) = (l.called event).map (·, event) := by
  have hall : ∀ subscriptions : List Nat,
      heard (subscriptions.map (.delivered · event)) = subscriptions.map (·, event) := by
    intro subscriptions
    induction subscriptions with
    | nil => rfl
    | cons subscription rest ih => exact congrArg _ ih
  cases event <;> exact hall _

namespace Action

variable {σ τ α β : Type}

/-- Refused or not, the action leaves a state and makes deliveries as stated. -/
def Ends (x : Action σ α) (s : σ) (post : σ → List Delivery → Prop) : Prop :=
  post (x s).state (heard (x s).journal)

namespace Ends

variable {x : Action σ α} {s : σ} {post : σ → List Delivery → Prop}

theorem bind {f : α → Action σ β} {middle : σ → List Delivery → Prop} (hx : Ends x s middle)
    (hrefused : ∀ s' h, middle s' h → post s' h)
    (hf : ∀ a s' h, middle s' h → Ends (f a) s' fun s'' h' => post s'' (h ++ h')) :
    Ends (x >>= f) s post := by
  unfold Ends at hx ⊢
  rw [bind_run]
  rcases hrun : x s with ⟨_ | a, s', journal⟩
  · rw [hrun] at hx
    exact hrefused _ _ hx
  · rw [hrun] at hx
    simpa [Ends] using hf a s' _ hx

theorem get_bind {f : σ → Action σ β} (h : Ends (f s) s post) :
    Ends ((get : Action σ σ) >>= f) s post := by
  rwa [Ends, get_bind_run]

theorem set_bind {s' : σ} {f : PUnit → Action σ β} (h : Ends (f ⟨⟩) s' post) :
    Ends ((set s' : Action σ PUnit) >>= f) s post := by
  rwa [Ends, set_bind_run]

theorem modify_bind {g : σ → σ} {f : PUnit → Action σ β} (h : Ends (f ⟨⟩) (g s) post) :
    Ends ((modify g : Action σ PUnit) >>= f) s post := by
  rwa [Ends, modify_bind_run]

theorem lift_bind {y : Except Fault α} {f : α → Action σ β} (hrefused : post s [])
    (h : ∀ a, y = .ok a → Ends (f a) s post) :
    Ends ((liftM y : Action σ α) >>= f) s post := by
  cases y with
  | ok a =>
      rw [Ends, lift_ok_bind_run]
      exact h a rfl
  | error fault =>
      rw [Ends, lift_error_bind_run]
      exact hrefused

theorem require_bind {condition : Prop} [Decidable condition] {fault : Fault}
    {f : Unit → Action σ β} (hrefused : post s []) (h : condition → Ends (f ()) s post) :
    Ends (Action.require condition fault >>= f) s post := by
  by_cases hcondition : condition
  · rw [Ends, require_bind_run hcondition]
    exact h hcondition
  · rw [Ends, require_bind_run_error hcondition]
    exact hrefused

theorem note_bind {n : Note} {f : Unit → Action σ β} (h : Ends (f ()) s post) :
    Ends (Action.note n >>= f) s post := by
  rwa [Ends, note_bind_run, heard_noted]

/-- An action elsewhere that makes no deliveries. -/
theorem elsewhere_bind {start : τ} {y : Action τ α} {f : α × τ → Action σ β}
    (hsilent : heard (y start).journal = []) (hrefused : post s [])
    (h : ∀ a, (y start).answer = .ok a → Ends (f (a, (y start).state)) s post) :
    Ends (Action.elsewhere start y >>= f) s post := by
  have hrun : (Action.elsewhere start y s : Outcome σ (α × τ)) =
      ⟨(y start).answer.map (·, (y start).state), s, (y start).journal⟩ := rfl
  rw [Ends]
  cases hanswer : (y start).answer with
  | ok a =>
      rw [hanswer] at hrun
      rw [bind_run_ok hrun, heard_append, hsilent]
      exact h a hanswer
  | error fault =>
      rw [hanswer] at hrun
      rw [bind_run_error hrun, hsilent]
      exact hrefused

theorem report_bind {entries : List Entry} {f : Unit → Action σ β}
    (h : Ends (f ()) s fun s' h => post s' (heard entries ++ h)) :
    Ends (Action.report entries >>= f) s post := by
  rwa [Ends, report_bind_run, heard_append]

end Ends

/-- A relation between two states and the deliveries in between that whole runs have if their steps
have it. -/
structure Logging (R : σ → σ → List Delivery → Prop) : Prop where
  refl : ∀ s, R s s []
  trans : ∀ {s s' s'' : σ} {h h' : List Delivery}, R s s' h → R s' s'' h' → R s s'' (h ++ h')

/-- Refused or not, the action relates the states before and after it by its deliveries. -/
def Logs (R : σ → σ → List Delivery → Prop) (x : Action σ α) : Prop := ∀ s, Ends x s (R s)

namespace Logs

variable {R : σ → σ → List Delivery → Prop}

theorem bind (hR : Logging R) {x : Action σ α} {f : α → Action σ β} (hx : Logs R x)
    (hf : ∀ a, Logs R (f a)) : Logs R (x >>= f) :=
  fun s => (hx s).bind (fun _ _ h => h) fun a s' _ h => hR.trans h (hf a s')

theorem pure (hR : Logging R) (a : α) : Logs R (Pure.pure a : Action σ α) := hR.refl

theorem get (hR : Logging R) : Logs R (get : Action σ σ) := hR.refl

theorem lift (hR : Logging R) (y : Except Fault α) : Logs R (liftM y : Action σ α) := hR.refl

theorem note (hR : Logging R) (n : Note) : Logs R (Action.note n : Action σ Unit) := hR.refl

theorem require (hR : Logging R) (condition : Prop) [Decidable condition] (fault : Fault) :
    Logs R (Action.require condition fault : Action σ Unit) := by
  intro s
  rw [Ends, require_run]
  exact hR.refl s

/-- A report without deliveries. -/
theorem report (hR : Logging R) {entries : List Entry} (h : heard entries = []) :
    Logs R (Action.report entries : Action σ Unit) := by
  intro s
  rw [Ends, report_run, h]
  exact hR.refl s

theorem modify {f : σ → σ} (h : ∀ s, R s (f s) []) : Logs R (modify f : Action σ PUnit) := h

theorem foldlM (hR : Logging R) {f : β → α → Action σ β} (h : ∀ b a, Logs R (f b a))
    (items : List α) (b : β) : Logs R (items.foldlM f b) := by
  induction items generalizing b with
  | nil => exact pure hR b
  | cons item rest ih =>
      rw [List.foldlM_cons]
      exact bind hR (h b item) ih

theorem forM (hR : Logging R) {f : α → Action σ PUnit} (h : ∀ a, Logs R (f a)) (items : List α) :
    Logs R (items.forM f) := by
  rw [forM_eq_foldlM]
  exact foldlM hR (fun _ item => h item) items _

theorem mapM (hR : Logging R) {f : α → Action σ β} (h : ∀ a, Logs R (f a)) (items : List α) :
    Logs R (items.mapM f) := by
  induction items with
  | nil => exact pure hR _
  | cons item rest ih =>
      rw [List.mapM_cons]
      exact bind hR (h item) fun _ => bind hR ih fun _ => pure hR _

end Logs
end Action
end LogicNet
