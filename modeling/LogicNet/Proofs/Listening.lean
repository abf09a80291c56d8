import LogicNet.Proofs.Deliveries

/-!
What listeners are told over a whole run. A listener is told of the events of its kind that happen
between its subscription and its end, each once and in order, because the numbers of subscriptions
only grow: what a number is told before it is given out or after it has been taken back is nothing.
The events of a window are read off the graph, the added gates at its end and the modified nodes at
each substitution.
-/

namespace LogicNet

/-- What a listener can subscribe to. -/
inductive Interest where
  | added | modified
  deriving DecidableEq

/-- The call that subscribes. -/
def Interest.subscribe : Interest → Operation Nat
  | added => .subscribeAdded
  | modified => .subscribeModified

/-- The kind of an event. -/
def Event.interest : Event → Interest
  | added _ => .added
  | modified .. => .modified

/-- The subscriptions of a kind that are in force. -/
def Listeners.of (l : Listeners) : Interest → List Nat
  | .added => l.onAdded
  | .modified => l.onModified

theorem Listeners.called_eq (l : Listeners) (event : Event) :
    l.called event = l.of event.interest := by
  cases event <;> rfl

/-- The subscription that a call is to end. -/
def Operation.ends? : {α : Type} → Operation α → Option Nat
  | _, .unsubscribe subscription => some subscription
  | _, _ => none

/-- What a call does to the subscriptions. -/
def Operation.onListeners : {α : Type} → Operation α → Listeners → Listeners
  | _, .subscribeAdded => Listeners.subscribeAdded
  | _, .subscribeModified => Listeners.subscribeModified
  | _, .unsubscribe subscription => (·.unsubscribe subscription)
  | _, _ => id

theorem Network.listeners_after (net : Network) {α : Type} (op : Operation α) :
    (net.after op).listeners = op.onListeners net.listeners := by
  cases hsubstitution : op.substitution? with
  | some pair =>
      cases op with
      | substitute old new =>
          show (Network.substitute old new net).state.listeners = net.listeners
          rcases substitute_run old new net with ⟨hsame, _⟩ | ⟨hdone, _⟩
          · rw [hsame]
          · obtain ⟨fanouts, _, hresult⟩ := hdone.result
            rw [hresult]
      | _ => cases hsubstitution
  | none =>
      cases hconfigures : op.configures with
      | false =>
          rw [(op.perform_tells hsubstitution hconfigures net).listeners_eq]
          cases op with
          | subscribeAdded | subscribeModified | unsubscribe _ => cases hconfigures
          | _ => rfl
      | true =>
          cases op with
          | setOptions _ | subscribeAdded | subscribeModified | unsubscribe _ => rfl
          | _ => cases hconfigures

namespace Listeners

variable {l : Listeners}

/-- The subscriptions in force stand in the order in which they were made, each at one place, and
have numbers below the next one. -/
structure Ordered (l : Listeners) : Prop where
  pairwise : ∀ interest, (l.of interest).Pairwise (· < ·)
  lt_next : ∀ interest, ∀ s ∈ l.of interest, s < l.next
  apart : ∀ s ∈ l.onAdded, s ∉ l.onModified

theorem Ordered.none : Listeners.none.Ordered where
  pairwise interest := by cases interest <;> exact .nil
  lt_next interest s hs := by cases interest <;> cases hs
  apart s hs := by cases hs

/-- The subscriptions that a subscription leaves. -/
theorem of_subscribe (interest other : Interest) :
    (interest.subscribe.onListeners l).of other =
      if other = interest then l.of other ++ [l.next] else l.of other := by
  cases interest <;> cases other <;> rfl

theorem next_subscribe (interest : Interest) :
    (interest.subscribe.onListeners l).next = l.next + 1 := by
  cases interest <;> rfl

theorem of_unsubscribe (s : Nat) (interest : Interest) :
    (l.unsubscribe s).of interest = (l.of interest).filter (· != s) := by
  cases interest <;> rfl

end Listeners

/-- A call subscribes, ends a subscription or leaves the subscriptions as they are. -/
theorem Call.listening_cases (call : Call) :
    (∃ interest : Interest, call = ⟨Nat, interest.subscribe⟩) ∨
      (∃ s, call = ⟨Bool, .unsubscribe s⟩) ∨
      (call.operation.ends? = none ∧ ∀ l, call.operation.onListeners l = l) := by
  obtain ⟨Answer, op⟩ := call
  cases op with
  | subscribeAdded => exact Or.inl ⟨.added, rfl⟩
  | subscribeModified => exact Or.inl ⟨.modified, rfl⟩
  | unsubscribe s => exact Or.inr (Or.inl ⟨s, rfl⟩)
  | _ => exact Or.inr (Or.inr ⟨rfl, fun _ => rfl⟩)

@[simp] theorem Interest.ends?_subscribe (interest : Interest) :
    interest.subscribe.ends? = none := by
  cases interest <;> rfl

namespace Listeners

variable {l : Listeners} {s : Nat}

theorem Ordered.subscribe (h : l.Ordered) (interest : Interest) :
    (interest.subscribe.onListeners l).Ordered := by
  have hnew : ∀ other, l.next ∉ l.of other := fun other hmem =>
    Nat.lt_irrefl _ (h.lt_next other _ hmem)
  refine ⟨fun other => ?_, fun other s hs => ?_, ?_⟩
  · rw [of_subscribe]
    split
    · refine List.pairwise_append.2 ⟨h.pairwise other, List.pairwise_singleton _ _, ?_⟩
      intro s hs t ht
      rw [List.mem_singleton.1 ht]
      exact h.lt_next other s hs
    · exact h.pairwise other
  · rw [next_subscribe]
    rw [of_subscribe] at hs
    split at hs
    · rcases List.mem_append.1 hs with hs | hs
      · exact Nat.lt_succ_of_lt (h.lt_next other s hs)
      · rw [List.mem_singleton.1 hs]
        exact Nat.lt_succ_self _
    · exact Nat.lt_succ_of_lt (h.lt_next other s hs)
  · cases interest with
    | added =>
        intro s hs hother
        rcases List.mem_append.1 (show s ∈ l.onAdded ++ [l.next] from hs) with hs | hs
        · exact h.apart s hs hother
        · rw [List.mem_singleton.1 hs] at hother
          exact hnew .modified hother
    | modified =>
        intro s hs hother
        rcases List.mem_append.1 (show s ∈ l.onModified ++ [l.next] from hother) with ho | ho
        · exact h.apart s hs ho
        · rw [List.mem_singleton.1 ho] at hs
          exact hnew .added hs

theorem Ordered.unsubscribe (h : l.Ordered) (s : Nat) : (l.unsubscribe s).Ordered := by
  have hsub : ∀ interest, ∀ t ∈ (l.unsubscribe s).of interest, t ∈ l.of interest := by
    intro interest t ht
    rw [of_unsubscribe] at ht
    exact (List.mem_filter.1 ht).1
  refine ⟨fun interest => ?_, fun interest t ht => h.lt_next interest t (hsub interest t ht), ?_⟩
  · rw [of_unsubscribe]
    exact (h.pairwise interest).filter _
  · exact fun t ht ho => h.apart t (hsub .added t ht) (hsub .modified t ho)

theorem Ordered.onListeners (h : l.Ordered) (call : Call) :
    (call.operation.onListeners l).Ordered := by
  rcases call.listening_cases with ⟨interest, rfl⟩ | ⟨s, rfl⟩ | ⟨_, hsame⟩
  · exact h.subscribe interest
  · exact h.unsubscribe s
  · rwa [hsame]

theorem next_le_onListeners (l : Listeners) (call : Call) :
    l.next ≤ (call.operation.onListeners l).next := by
  rcases call.listening_cases with ⟨interest, rfl⟩ | ⟨s, rfl⟩ | ⟨_, hsame⟩
  · rw [next_subscribe]
    exact Nat.le_succ _
  · exact Nat.le_refl _
  · rw [hsame]

/-- A subscription that has been made stays in force until it is ended, and stays ended. -/
theorem mem_onListeners_iff (hlt : s < l.next) (call : Call) (interest : Interest) :
    s ∈ (call.operation.onListeners l).of interest ↔
      s ∈ l.of interest ∧ call.operation.ends? ≠ some s := by
  rcases call.listening_cases with ⟨other, rfl⟩ | ⟨t, rfl⟩ | ⟨hends, hsame⟩
  · have hne : s ≠ l.next := Nat.ne_of_lt hlt
    rw [of_subscribe]
    split <;> simp [hne]
  · show s ∈ (l.unsubscribe t).of interest ↔ s ∈ l.of interest ∧ some t ≠ some s
    rw [of_unsubscribe, List.mem_filter, bne_iff_ne, ne_comm, ne_eq, ne_eq, Option.some.injEq]
  · simp [hsame, hends]

end Listeners

/-- What a listener is told by deliveries. -/
def told (s : Nat) (deliveries : List Delivery) : List Event :=
  deliveries.filterMap fun delivery => if delivery.1 = s then some delivery.2 else none

@[simp] theorem told_append (s : Nat) (deliveries more : List Delivery) :
    told s (deliveries ++ more) = told s deliveries ++ told s more := List.filterMap_append

namespace Network

variable {net : Network} {s : Nat}

/-- A subscription that is called once is told of the event once. -/
theorem told_called {called : List Nat} (hnodup : called.Nodup) (s : Nat) (event : Event) :
    told s (called.map (·, event)) = if s ∈ called then [event] else [] := by
  induction called with
  | nil => rfl
  | cons t rest ih =>
      obtain ⟨ht, hrest⟩ := List.nodup_cons.1 hnodup
      have hih := ih hrest
      by_cases hts : t = s
      · subst hts
        rw [if_neg ht] at hih
        rw [if_pos List.mem_cons_self]
        simpa [told] using hih
      · have hst : s ≠ t := fun heq => hts heq.symm
        simpa [told, hts, hst] using hih

/-- Of the events that a network delivers a listener is told those of its kind. -/
theorem told_deliveries (h : net.listeners.Ordered) (s : Nat) (events : List Event) :
    told s (net.deliveries events) =
      events.filter fun event => decide (s ∈ net.listeners.of event.interest) := by
  induction events with
  | nil => rfl
  | cons event rest ih =>
      have hnodup : (net.listeners.called event).Nodup := by
        rw [Listeners.called_eq]
        exact (h.pairwise _).imp fun hlt => Nat.ne_of_lt hlt
      rw [deliveries, List.flatMap_cons, told_append, told_called hnodup,
        show told s (rest.flatMap _) = _ from ih, List.filter_cons, Listeners.called_eq]
      by_cases hs : s ∈ net.listeners.of event.interest <;> simp [hs]

/-- What the calls of a run come to, one after the other. -/
def along {α : Type} (f : Network → Call → List α) (net : Network) : List Call → List α
  | [] => []
  | call :: rest => f net call ++ along f (net.after call.operation) rest

section Along

variable {α : Type} (f : Network → Call → List α) (net : Network)

theorem along_append (calls more : List Call) :
    net.along f (calls ++ more) = net.along f calls ++ (net.afterAll calls).along f more := by
  induction calls generalizing net with
  | nil => rfl
  | cons call rest ih =>
      rw [List.cons_append, along, ih, along, afterAll_cons, List.append_assoc]

theorem along_snoc (calls : List Call) (call : Call) :
    net.along f (calls ++ [call]) = net.along f calls ++ f (net.afterAll calls) call := by
  rw [along_append, along, along, List.append_nil]

theorem filter_along (p : α → Bool) (calls : List Call) :
    (net.along f calls).filter p = net.along (fun net call => (f net call).filter p) calls := by
  induction calls generalizing net with
  | nil => rfl
  | cons call rest ih => rw [along, List.filter_append, ih, along]

end Along

/-- The deliveries of a run. -/
def heardOver : Network → List Call → List Delivery :=
  along fun net call => heard (call.operation.perform net).journal

theorem heardOver_cons (net : Network) (call : Call) (rest : List Call) :
    net.heardOver (call :: rest) = heard (call.operation.perform net).journal ++
      (net.after call.operation).heardOver rest := rfl

theorem heardOver_append (net : Network) (calls more : List Call) :
    net.heardOver (calls ++ more) = net.heardOver calls ++ (net.afterAll calls).heardOver more :=
  along_append _ net calls more

/-- The changes that the substitutions of a run make, each of those that are met in its turn. -/
def rewritesOver : Network → List Call → List Event :=
  along fun net call => match call.replaced? net with
    | some (old, _) => net.graph.rewrites old
    | none => []

theorem ordered_after (h : net.listeners.Ordered) (call : Call) :
    (net.after call.operation).listeners.Ordered := by
  rw [listeners_after]
  exact h.onListeners call

theorem ordered_afterAll (h : net.listeners.Ordered) (calls : List Call) :
    (net.afterAll calls).listeners.Ordered := by
  induction calls generalizing net with
  | nil => exact h
  | cons call rest ih => exact ih (ordered_after h call)

theorem next_le_after (net : Network) (call : Call) :
    net.listeners.next ≤ (net.after call.operation).listeners.next := by
  rw [listeners_after]
  exact Listeners.next_le_onListeners _ call

theorem next_le_afterAll (net : Network) (calls : List Call) :
    net.listeners.next ≤ (net.afterAll calls).listeners.next := by
  induction calls generalizing net with
  | nil => exact Nat.le_refl _
  | cons call rest ih => exact (next_le_after net call).trans (ih (net.after call.operation))

/-- Of a call a listener is told the events of its kind. -/
theorem told_call (hwell : net.WellFormed) (hordered : net.listeners.Ordered) (s : Nat)
    (call : Call) : told s (heard (call.operation.perform net).journal) =
      (net.events call).filter fun event => decide (s ∈ net.listeners.of event.interest) := by
  rw [heard_call hwell, told_deliveries hordered]

theorem told_call_eq_nil (hwell : net.WellFormed) (hordered : net.listeners.Ordered)
    (hs : ∀ interest, s ∉ net.listeners.of interest) (call : Call) :
    told s (heard (call.operation.perform net).journal) = [] := by
  rw [told_call hwell hordered]
  simp [hs]

/-- While it is in force a listener is told of all events of its kind. -/
theorem told_in_force (hwell : net.WellFormed) (hordered : net.listeners.Ordered)
    {interest : Interest} (hs : s ∈ net.listeners.of interest) {calls : List Call}
    (hkept : ∀ call ∈ calls, call.operation.ends? ≠ some s) :
    told s (net.heardOver calls) =
        (net.along events calls).filter (fun event => event.interest = interest) ∧
      s ∈ (net.afterAll calls).listeners.of interest := by
  induction calls generalizing net with
  | nil => exact ⟨rfl, hs⟩
  | cons call rest ih =>
      have hnext : s ∈ (net.after call.operation).listeners.of interest := by
        rw [listeners_after, Listeners.mem_onListeners_iff (hordered.lt_next interest s hs)]
        exact ⟨hs, hkept call List.mem_cons_self⟩
      obtain ⟨hrest, hend⟩ := ih (hwell.after call.operation) (ordered_after hordered call) hnext
        fun other hother => hkept other (List.mem_cons_of_mem _ hother)
      have honly : ∀ other : Interest, s ∈ net.listeners.of other ↔ other = interest := by
        intro other
        refine ⟨fun hother => ?_, fun heq => heq ▸ hs⟩
        cases other <;> cases interest
        · rfl
        · exact absurd hs (hordered.apart s hother)
        · exact absurd hother (hordered.apart s hs)
        · rfl
      refine ⟨?_, hend⟩
      rw [heardOver_cons, told_append, told_call hwell hordered, hrest, along, List.filter_append]
      simp only [honly]

/-- A listener that has been removed is told nothing any more, since its number does not come
back. -/
theorem told_ended (hwell : net.WellFormed) (hordered : net.listeners.Ordered)
    (hlt : s < net.listeners.next) (hs : ∀ interest, s ∉ net.listeners.of interest)
    (calls : List Call) : told s (net.heardOver calls) = [] := by
  induction calls generalizing net with
  | nil => rfl
  | cons call rest ih =>
      have hs' : ∀ interest, s ∉ (net.after call.operation).listeners.of interest := by
        intro interest hmem
        rw [listeners_after, Listeners.mem_onListeners_iff hlt] at hmem
        exact hs interest hmem.1
      rw [heardOver_cons, told_append, told_call_eq_nil hwell hordered hs]
      exact ih (hwell.after call.operation) (ordered_after hordered call)
        (Nat.lt_of_lt_of_le hlt (next_le_after net call)) hs'

/-- A number that has not been given out is told nothing. -/
theorem told_before (hwell : net.WellFormed) (hordered : net.listeners.Ordered) {calls : List Call}
    (hle : (net.afterAll calls).listeners.next ≤ s) : told s (net.heardOver calls) = [] := by
  induction calls generalizing net with
  | nil => rfl
  | cons call rest ih =>
      have hnext : net.listeners.next ≤ s := (next_le_afterAll net (call :: rest)).trans hle
      have hs : ∀ interest, s ∉ net.listeners.of interest := fun interest hmem =>
        Nat.lt_irrefl s (Nat.lt_of_lt_of_le (hordered.lt_next interest s hmem) hnext)
      rw [heardOver_cons, told_append, told_call_eq_nil hwell hordered hs]
      exact ih (hwell.after call.operation) (ordered_after hordered call) hle

/-- A run in which listener `s` is subscribed after the calls `before`, is in force during the calls
`during`, and is removed first thing after them, if at all. -/
structure Window (start : Network) (interest : Interest) (s : Nat)
    (before during after : List Call) : Prop where
  answered : (interest.subscribe.perform (start.afterAll before)).answer = .ok s
  kept : ∀ call ∈ during, call.operation.ends? ≠ some s
  closed : after = [] ∨ ∃ rest, after = ⟨Bool, .unsubscribe s⟩ :: rest

theorem subscribe_answer (net : Network) (interest : Interest) :
    (interest.subscribe.perform net).answer = .ok net.listeners.next := by
  cases interest <;> rfl

variable {start : Network} {interest : Interest} {before during after : List Call}

theorem Window.eq_next (h : Window start interest s before during after) :
    s = (start.afterAll before).listeners.next := by
  have hanswer := h.answered
  rw [subscribe_answer, Except.ok.injEq] at hanswer
  exact hanswer.symm

/-- The subscription comes into force. -/
theorem mem_subscribe (net : Network) (interest : Interest) :
    net.listeners.next ∈ (net.after interest.subscribe).listeners.of interest := by
  rw [listeners_after, Listeners.of_subscribe, if_pos rfl]
  exact List.mem_append_right _ List.mem_cons_self

/-- After its end a listener is told nothing. -/
theorem told_unsubscribe (hwell : net.WellFormed) (hordered : net.listeners.Ordered)
    (hs : s ∈ net.listeners.of interest) (rest : List Call) :
    told s (net.heardOver (⟨Bool, .unsubscribe s⟩ :: rest)) = [] := by
  have hlt := hordered.lt_next interest s hs
  have hgone : ∀ other, s ∉ (net.after (.unsubscribe s)).listeners.of other := by
    intro other hmem
    rw [listeners_after, Listeners.mem_onListeners_iff hlt ⟨Bool, .unsubscribe s⟩] at hmem
    exact hmem.2 rfl
  rw [heardOver_cons, told_append]
  exact told_ended (hwell.after _) (ordered_after hordered ⟨Bool, .unsubscribe s⟩)
    (Nat.lt_of_lt_of_le hlt (next_le_after net ⟨Bool, .unsubscribe s⟩)) hgone rest

/-- Over a whole run a listener is told of the events of its kind in its window, and of nothing
else. -/
theorem Window.told_eq (h : Window start interest s before during after)
    (hwell : start.WellFormed) (hordered : start.listeners.Ordered) :
    told s (start.heardOver (before ++ ⟨Nat, interest.subscribe⟩ :: (during ++ after))) =
      (((start.afterAll before).after interest.subscribe).along events during).filter
        (fun event => event.interest = interest) := by
  have hs := h.eq_next
  have hwell' := (hwell.afterAll before).after interest.subscribe
  have hopened := ordered_after (ordered_afterAll hordered before) ⟨Nat, interest.subscribe⟩
  have hmem : s ∈ ((start.afterAll before).after interest.subscribe).listeners.of interest :=
    hs ▸ mem_subscribe _ interest
  obtain ⟨hduring, hend⟩ := told_in_force hwell' hopened hmem h.kept
  have hsubscribe :
      told s (heard (interest.subscribe.perform (start.afterAll before)).journal) = [] := by
    cases interest <;> rfl
  have hafter : told s ((((start.afterAll before).after interest.subscribe).afterAll
      during).heardOver after) = [] := by
    rcases h.closed with heq | ⟨rest, heq⟩
    · rw [heq]
      rfl
    · rw [heq]
      exact told_unsubscribe (hwell'.afterAll during) (ordered_afterAll hopened during) hend rest
  calc told s (start.heardOver (before ++ ⟨Nat, interest.subscribe⟩ :: (during ++ after)))
      = told s (start.heardOver before) ++
          (told s (heard (interest.subscribe.perform (start.afterAll before)).journal) ++
            (told s (((start.afterAll before).after interest.subscribe).heardOver during) ++
              told s ((((start.afterAll before).after interest.subscribe).afterAll
                during).heardOver after))) := by
        rw [heardOver_append, told_append, heardOver_cons, told_append, heardOver_append,
          told_append]
    _ = told s (((start.afterAll before).after interest.subscribe).heardOver during) := by
        rw [told_before hwell hordered hs.ge, hsubscribe, hafter, List.nil_append, List.nil_append,
          List.append_nil]
    _ = _ := hduring

/-- The subscriptions in force are those with an open window. -/
theorem mem_listeners_iff (hwell : start.WellFormed) (hordered : start.listeners.Ordered)
    (hnone : ∀ interest, start.listeners.of interest = []) (calls : List Call)
    (interest : Interest) (s : Nat) : s ∈ (start.afterAll calls).listeners.of interest ↔
      ∃ before during, Window start interest s before during [] ∧
        calls = before ++ ⟨Nat, interest.subscribe⟩ :: during := by
  constructor
  · intro hs
    induction calls using List.reverseRecOn with
    | nil =>
        rw [afterAll_nil, hnone] at hs
        cases hs
    | append_singleton calls call ih =>
        have hlater : s ∈ (start.afterAll calls).listeners.of interest →
            call.operation.ends? ≠ some s → ∃ before during,
              Window start interest s before during [] ∧
                calls ++ [call] = before ++ ⟨Nat, interest.subscribe⟩ :: during := by
          intro hmem hkept
          obtain ⟨before, during, hwindow, rfl⟩ := ih hmem
          refine ⟨before, during ++ [call], ⟨hwindow.answered, fun other hother => ?_, Or.inl rfl⟩,
            by simp⟩
          rcases List.mem_append.1 hother with hother | hother
          · exact hwindow.kept other hother
          · rwa [List.mem_singleton.1 hother]
        rw [afterAll_snoc, listeners_after] at hs
        rcases call.listening_cases with ⟨other, rfl⟩ | ⟨t, rfl⟩ | ⟨hends, hsame⟩
        · rw [Listeners.of_subscribe] at hs
          split at hs
          · next heq =>
              subst heq
              rcases List.mem_append.1 hs with hs | hs
              · exact hlater hs (by simp)
              · rw [List.mem_singleton.1 hs]
                exact ⟨calls, [], ⟨subscribe_answer _ _, by simp, Or.inl rfl⟩, rfl⟩
          · exact hlater hs (by simp)
        · have hs : s ∈ ((start.afterAll calls).listeners.unsubscribe t).of interest := hs
          rw [Listeners.of_unsubscribe, List.mem_filter, bne_iff_ne] at hs
          exact hlater hs.1 fun heq => hs.2 (Option.some.inj heq).symm
        · rw [hsame] at hs
          exact hlater hs (by simp [hends])
  · rintro ⟨before, during, hwindow, rfl⟩
    obtain rfl := hwindow.eq_next
    rw [afterAll_append, afterAll_cons]
    have hopened := ordered_after (ordered_afterAll hordered before) ⟨Nat, interest.subscribe⟩
    exact (told_in_force ((hwell.afterAll before).after _) hopened (mem_subscribe _ interest)
      hwindow.kept).2

/-- Of events of one kind the filter keeps all or none. -/
theorem filter_interest {events : List Event} {kind : Interest}
    (h : ∀ event ∈ events, event.interest = kind) (interest : Interest) :
    events.filter (fun event => event.interest = interest) =
      if interest = kind then events else [] := by
  by_cases heq : interest = kind
  · rw [if_pos heq]
    exact List.filter_eq_self.2 fun event hevent => decide_eq_true ((h event hevent).trans heq.symm)
  · rw [if_neg heq]
    refine List.filter_eq_nil_iff.2 fun event hevent hkept => heq ?_
    exact (of_decide_eq_true hkept).symm.trans (h event hevent)

theorem filter_map_added (ns : List NodeId) (interest : Interest) :
    (ns.map Event.added).filter (fun event => event.interest = interest) =
      if interest = .added then ns.map .added else [] := by
  refine filter_interest (fun event hevent => ?_) interest
  obtain ⟨n, _, rfl⟩ := List.mem_map.1 hevent
  rfl

theorem filter_rewrites (g : Graph) (old : NodeId) (interest : Interest) :
    (g.rewrites old).filter (fun event => event.interest = interest) =
      if interest = .modified then g.rewrites old else [] := by
  refine filter_interest (fun event hevent => ?_) interest
  obtain ⟨n, _, rfl⟩ := List.mem_map.1 hevent
  rfl

/-- A call puts its gates behind those that are there. -/
theorem gatesFrom_after (hwell : net.WellFormed) (call : Call) {size : Nat}
    (hsize : size ≤ net.graph.size) :
    net.graph.size ≤ (net.after call.operation).graph.size ∧
      ((net.after call.operation).graph.gatesFrom size).map .added =
        (net.graph.gatesFrom size).map .added ++
          (net.events call).filter (fun event => event.interest = .added) := by
  rcases after_cases hwell call with ⟨hnone, hextensions⟩ | ⟨old, new, hsome, hredirected⟩
  · have hgrown := grown_of_extensions hextensions
    have hnodes : ∀ n < net.graph.size,
        (net.after call.operation).graph.nodes[n]? = net.graph.nodes[n]? := by
      intro n hn
      obtain ⟨node, hnode⟩ := Graph.exists_node hn
      rw [hnode]
      exact hgrown.nodes n node hnode
    refine ⟨hgrown.size_le, ?_⟩
    rw [events_of_added hnone, filter_map_added, if_pos rfl, ← List.map_append,
      hwell.graph.gatesFrom_eq, (hwell.after call.operation).graph.gatesFrom_eq,
      (hwell.after call.operation).graph.gatesFrom_eq,
      Graph.parentsFrom_append hsize hgrown.size_le hnodes]
  · obtain ⟨fanouts, _, hresult⟩ := hredirected.result
    have hgates : (net.graph.redirect old new).gatesFrom size = net.graph.gatesFrom size := by
      rw [Graph.gatesFrom, Graph.redirect_size]
      rfl
    rw [events_of_replaced hsome, filter_rewrites, if_neg (by decide), hresult, List.append_nil]
    exact ⟨(Graph.redirect_size _ _ _).ge, congrArg _ hgates⟩

/-- The gates that a run has added stand in the graph at its end, in their order. -/
theorem added_along (hwell : net.WellFormed) (calls : List Call) :
    net.graph.size ≤ (net.afterAll calls).graph.size ∧
      (net.along events calls).filter (fun event => event.interest = .added) =
        ((net.afterAll calls).graph.gatesFrom net.graph.size).map .added := by
  induction calls using List.reverseRecOn with
  | nil =>
      refine ⟨Nat.le_refl _, ?_⟩
      rw [afterAll_nil, Graph.gatesFrom_of_size_le (Nat.le_refl _)]
      rfl
  | append_singleton calls call ih =>
      obtain ⟨hle, hgates⟩ := gatesFrom_after (hwell.afterAll calls) call ih.1
      rw [afterAll_snoc, along_snoc, List.filter_append, ih.2, hgates]
      exact ⟨ih.1.trans hle, rfl⟩

/-- The modifications of a run are the rewrites of its substitutions. -/
theorem modified_along (net : Network) (calls : List Call) :
    (net.along events calls).filter (fun event => event.interest = .modified) =
      net.rewritesOver calls := by
  rw [filter_along, rewritesOver]
  congr 1
  funext net call
  cases hreplaced : call.replaced? net with
  | none => rw [events_of_added hreplaced, filter_map_added, if_neg (by decide)]
  | some pair => rw [events_of_replaced hreplaced, filter_rewrites, if_pos rfl]

end Network

/-- Undoes a modification in a record of the children of the nodes. -/
def Event.restore (childrenOf : NodeId → List NodeId) : Event → NodeId → List NodeId
  | added _ => childrenOf
  | modified n before => Function.update childrenOf n before

/-- Undoing modifications of some nodes recovers their children and leaves all others. -/
theorem Graph.foldl_restore (g : Graph) (ns : List NodeId) (childrenOf : NodeId → List NodeId)
    (n : NodeId) :
    ((ns.map fun n => Event.modified n (g.childrenOf n)).foldl Event.restore childrenOf) n =
      if n ∈ ns then g.childrenOf n else childrenOf n := by
  induction ns generalizing childrenOf with
  | nil => rfl
  | cons m rest ih =>
      rw [List.map_cons, List.foldl_cons, ih]
      by_cases hmem : n ∈ rest
      · simp [hmem]
      · by_cases hnm : n = m
        · subst hnm
          simp [hmem, Event.restore]
        · simp [hmem, hnm, Event.restore]

/-- Undoing what a substitution tells of recovers all children from before it. -/
theorem Graph.foldl_restore_rewrites (g : Graph) (old new : NodeId) :
    (g.rewrites old).foldl Event.restore (g.redirect old new).childrenOf = g.childrenOf := by
  funext n
  rw [rewrites, foldl_restore, childrenOf_redirect]
  split
  · rfl
  · next hmem =>
      -- A node that is not told of does not have the replaced one among its children.
      have hother : old ∉ g.childrenOf n := by
        intro hold
        refine hmem (List.mem_filter.2 ⟨List.mem_range.2 (lt_size_of_mem_childrenOf hold), ?_⟩)
        simpa using hold
      have hsame : ∀ child ∈ g.childrenOf n, rename old new child = child := by
        intro child hchild
        refine if_neg fun heq => hother ?_
        rwa [← heq]
      exact (List.map_congr_left hsame).trans (List.map_id _)

open Network

/-- What a script does and tells is what a run does and tells. -/
theorem Script.exists_calls_heard {α : Type} {x : Action Network α} (h : Script x)
    (net : Network) : ∃ calls, (x net).state = net.afterAll calls ∧
      heard (x net).journal = net.heardOver calls := by
  induction h generalizing net with
  | call op => exact ⟨[⟨_, op⟩], rfl, (List.append_nil _).symm⟩
  | answer a => exact ⟨[], rfl, rfl⟩
  | refuse fault => exact ⟨[], rfl, rfl⟩
  | look => exact ⟨[], rfl, rfl⟩
  | note note => exact ⟨[], rfl, rfl⟩
  | @next α β x f _ _ ih ihnext =>
      obtain ⟨calls, hcalls, hheard⟩ := ih net
      rw [Action.bind_run]
      rcases hx : x net with ⟨_ | a, net', journal⟩
      · rw [hx] at hcalls hheard
        exact ⟨calls, hcalls, hheard⟩
      · rw [hx] at hcalls hheard
        obtain ⟨more, hmore, hheard'⟩ := ihnext a net'
        have hnet : net' = net.afterAll calls := hcalls
        refine ⟨calls ++ more, ?_, ?_⟩
        · rw [afterAll_append, ← hnet]
          exact hmore
        · rw [heard_append, heardOver_append, ← hnet]
          exact congrArg₂ (· ++ ·) hheard hheard'
  | attempt _ ih => exact ih net

namespace Network

/-- Nobody listens to a network from which a run starts. -/
theorem Born.listeners_eq {start : Network} (h : Born start) :
    start.listeners = Listeners.none := by
  obtain ⟨options, hbuilding⟩ := h.built
  clear h
  induction hbuilding with
  | refl => rfl
  | tail _ hstep ih => rw [hstep.listeners_eq, ih]

/-- How a network serves its listeners when calls have been made on it. -/
structure Serves (start : Network) (calls : List Call) : Prop where
  /-- In force are the subscriptions that have been made and have not been ended since. -/
  in_force : ∀ interest s, s ∈ (start.afterAll calls).listeners.of interest ↔
    ∃ before during, Window start interest s before during [] ∧
      calls = before ++ ⟨Nat, interest.subscribe⟩ :: during
  /-- They stand in the order in which they were made. -/
  in_order : ∀ interest, ((start.afterAll calls).listeners.of interest).Pairwise (· < ·)
  /-- For each event of the next call those of its kind are called in this order, and no others. -/
  called : ∀ call : Call, heard (call.operation.perform (start.afterAll calls)).journal =
    ((start.afterAll calls).events call).flatMap fun event =>
      ((start.afterAll calls).listeners.of event.interest).map (·, event)
  /-- The next subscription has a number that none before it had. -/
  renewed : ∀ (interest interest' : Interest) (s s' : Nat) before during,
    calls = before ++ ⟨Nat, interest.subscribe⟩ :: during →
    (interest.subscribe.perform (start.afterAll before)).answer = .ok s →
    (interest'.subscribe.perform (start.afterAll calls)).answer = .ok s' → s < s'
  /-- An end is answered by whether the subscription was in force, and removes nothing but it. -/
  ended : ∀ s, (∃ found, (unsubscribe s (start.afterAll calls)).answer = .ok found ∧
      (found = true ↔ ∃ interest, s ∈ (start.afterAll calls).listeners.of interest)) ∧
    ∀ interest, (unsubscribe s (start.afterAll calls)).state.listeners.of interest =
      ((start.afterAll calls).listeners.of interest).filter (· != s)
  /-- Undoing what a substitution tells recovers all children from before it. -/
  restored : ∀ old new s, (substitute old new (start.afterAll calls)).answer = .ok () →
    s ∈ (start.afterAll calls).listeners.onModified →
    (told s (heard (substitute old new (start.afterAll calls)).journal)).foldl Event.restore
      (substitute old new (start.afterAll calls)).state.graph.childrenOf =
        (start.afterAll calls).graph.childrenOf
  /-- What a script does and tells is what more calls do and tell. -/
  scripts : ∀ {α : Type} (x : Action Network α), Script x → ∃ more,
    (x (start.afterAll calls)).state = (start.afterAll calls).afterAll more ∧
      heard (x (start.afterAll calls)).journal = (start.afterAll calls).heardOver more

theorem unsubscribe_answer (net : Network) (s : Nat) :
    ∃ found, (unsubscribe s net).answer = .ok found ∧
      (found = true ↔ ∃ interest, s ∈ net.listeners.of interest) := by
  refine ⟨net.listeners.isSubscribed s, rfl, ?_⟩
  rw [Listeners.isSubscribed, Bool.or_eq_true, List.contains_iff_mem, List.contains_iff_mem]
  constructor
  · rintro (hs | hs)
    · exact ⟨.added, hs⟩
    · exact ⟨.modified, hs⟩
  · rintro ⟨interest, hs⟩
    cases interest
    · exact Or.inl hs
    · exact Or.inr hs

/-- Of a substitution that is met a listener to modifications is told all rewrites. -/
theorem told_substitute {net : Network} (hwell : net.WellFormed)
    (hordered : net.listeners.Ordered) {old new : NodeId} {s : Nat}
    (hanswer : (substitute old new net).answer = .ok ()) (hs : s ∈ net.listeners.onModified) :
    told s (heard (substitute old new net).journal) = net.graph.rewrites old ∧
      (substitute old new net).state.graph = net.graph.redirect old new := by
  have hsome : Call.replaced? net ⟨Unit, .substitute old new⟩ = some (old, new) :=
    Call.replaced?_of_ok hanswer
  constructor
  · refine (told_call hwell hordered s ⟨Unit, .substitute old new⟩).trans ?_
    rw [events_of_replaced hsome]
    refine List.filter_eq_self.2 fun event hevent => ?_
    obtain ⟨n, _, rfl⟩ := List.mem_map.1 hevent
    exact decide_eq_true hs
  · obtain ⟨fanouts, _, hresult⟩ := (redirection_of_met hanswer).result
    rw [hresult]

theorem Born.serves {start : Network} (h : Born start) (calls : List Call) :
    Serves start calls := by
  have hwell := h.reachable.wellFormed
  have hordered : start.listeners.Ordered := by rw [h.listeners_eq]; exact .none
  have hnone : ∀ interest, start.listeners.of interest = [] := by
    intro interest
    rw [h.listeners_eq]
    cases interest <;> rfl
  have hwell' := hwell.afterAll calls
  have hordered' := ordered_afterAll hordered calls
  refine
    { in_force := mem_listeners_iff hwell hordered hnone calls
      in_order := hordered'.pairwise
      called := fun call => ?_
      renewed := ?_
      ended := fun s => ⟨unsubscribe_answer _ s, fun interest => ?_⟩
      restored := ?_
      scripts := fun x hx => hx.exists_calls_heard _ }
  · rw [heard_call hwell']
    simp only [deliveries, Listeners.called_eq]
  · intro interest interest' s s' before during hcalls hs hs'
    subst hcalls
    rw [subscribe_answer, Except.ok.injEq] at hs hs'
    have hlater := next_le_afterAll ((start.afterAll before).after interest.subscribe) during
    rw [afterAll_append, afterAll_cons] at hs'
    rw [listeners_after, Listeners.next_subscribe, hs, hs'] at hlater
    exact hlater
  · exact Listeners.of_unsubscribe s interest
  · intro old new s hanswer hs
    obtain ⟨htold, hgraph⟩ := told_substitute hwell' hordered' hanswer hs
    rw [htold, hgraph, Graph.foldl_restore_rewrites]

/-- Delivery over whole runs. A listener to additions is told of exactly the gates that have been
appended between its subscription and its end, each once and in the order of their creation. A
listener to modifications is told, for every substitution in its window that is met, of exactly the
nodes that had the replaced one among their children, in the order of their creation and with their
children before the call. At every point of the run the network serves its listeners in order. -/
theorem Born.run_told {start : Network} (h : Born start) :
    (∀ s before during after, Window start .added s before during after →
      told s (start.heardOver (before ++ ⟨Nat, .subscribeAdded⟩ :: (during ++ after))) =
        ((start.afterAll (before ++ ⟨Nat, .subscribeAdded⟩ :: during)).graph.gatesFrom
          (start.afterAll before).graph.size).map .added) ∧
    (∀ s before during after, Window start .modified s before during after →
      told s (start.heardOver (before ++ ⟨Nat, .subscribeModified⟩ :: (during ++ after))) =
        (start.afterAll (before ++ [⟨Nat, .subscribeModified⟩])).rewritesOver during) ∧
    ∀ calls, Serves start calls := by
  have hwell := h.reachable.wellFormed
  have hordered : start.listeners.Ordered := by rw [h.listeners_eq]; exact .none
  refine ⟨fun s before during after hwindow => ?_, fun s before during after hwindow => ?_,
    h.serves⟩
  · have hopened := (hwell.afterAll before).after Operation.subscribeAdded
    refine (hwindow.told_eq hwell hordered).trans ?_
    rw [afterAll_append, afterAll_cons]
    exact (added_along hopened during).2
  · refine (hwindow.told_eq hwell hordered).trans ?_
    rw [modified_along, afterAll_snoc]
    rfl

/-- Calls before anybody listens. -/
def opening : List Call :=
  [⟨_, .addPrimaryInput⟩, ⟨_, .addPrimaryInput⟩, ⟨_, .gate .and [2, 3]⟩]

/-- Calls with both kinds of listeners: a second one subscribes, a gate is made, found again and
used, and a node with uses in two gates is replaced. -/
def attended : List Call :=
  [⟨_, .subscribeModified⟩, ⟨_, .gate .or [2, 4]⟩, ⟨_, .gate .or [2, 4]⟩, ⟨_, .addPrimaryOutput 5⟩,
    ⟨_, .substitute 2 3⟩]

/-- The first listener hears of the gate that is made in its window, once, and not of the one after
it. The second hears of both gates that had the replaced node as a child, with what they had. -/
theorem attended_told : Born (Network.new .sharing) ∧
    told 0 ((Network.new .sharing).heardOver (opening ++ ⟨Nat, .subscribeAdded⟩ ::
      (attended ++ [⟨Bool, .unsubscribe 0⟩, ⟨_, .gate .xor [3, 5]⟩]))) = [.added 5] ∧
    told 1 ((Network.new .sharing).heardOver ((opening ++ [⟨Nat, .subscribeAdded⟩]) ++
      ⟨Nat, .subscribeModified⟩ :: (attended.tail ++ []))) =
        [.modified 4 [2, 3], .modified 5 [2, 4]] ∧
    ((Network.new .sharing).afterAll (opening ++ attended)).graph.childrenOf 4 = [3, 3] := by
  obtain ⟨hadded, hmodified, _⟩ := Born.run_told (.new .sharing)
  have hfirst : Window (Network.new .sharing) .added 0 opening attended
      [⟨Bool, .unsubscribe 0⟩, ⟨_, .gate .xor [3, 5]⟩] :=
    ⟨by decide +kernel, by decide +kernel, Or.inr ⟨_, rfl⟩⟩
  have hsecond : Window (Network.new .sharing) .modified 1
      (opening ++ [⟨Nat, .subscribeAdded⟩]) attended.tail [] :=
    ⟨by decide +kernel, by decide +kernel, Or.inl rfl⟩
  refine ⟨.new .sharing, ?_, ?_, by decide +kernel⟩
  · rw [hadded 0 opening attended _ hfirst]
    decide +kernel
  · rw [hmodified 1 _ attended.tail _ hsecond]
    decide +kernel

end Network
end LogicNet
