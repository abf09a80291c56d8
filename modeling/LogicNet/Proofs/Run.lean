import LogicNet.Proofs.Soundness

/-!
Runs: sequences of calls. A script may decide what to call by what it sees, but what it does to one
given network is what some sequence of calls does to it. So every reachable network comes about by a
sequence of calls on a new network or on a compact copy, and what has happened to it can be told
from the calls.
-/

namespace LogicNet

/-- A call, whatever the type of its answer. -/
structure Call where
  Answer : Type
  operation : Operation Answer

/-- What a call replaces by what in a network, if it is a substitution and is not refused. -/
def Call.replaced? (net : Network) (call : Call) : Option (NodeId × NodeId) :=
  match (call.operation.perform net).answer with
  | .ok _ => call.operation.substitution?
  | .error _ => none

theorem Call.replaced?_of_ok {net : Network} {call : Call} {a : call.Answer}
    (h : (call.operation.perform net).answer = .ok a) :
    call.replaced? net = call.operation.substitution? := by
  rw [replaced?, h]

theorem Call.replaced?_of_error {net : Network} {call : Call} {fault : Fault}
    (h : (call.operation.perform net).answer = .error fault) : call.replaced? net = none := by
  rw [replaced?, h]

namespace Network

/-- The network that calls leave, one after the other, refused or not. -/
def afterAll (net : Network) (calls : List Call) : Network :=
  calls.foldl (fun net call => net.after call.operation) net

@[simp] theorem afterAll_nil (net : Network) : net.afterAll [] = net := rfl

@[simp] theorem afterAll_cons (net : Network) (call : Call) (calls : List Call) :
    net.afterAll (call :: calls) = (net.after call.operation).afterAll calls := rfl

theorem afterAll_append (net : Network) (calls more : List Call) :
    net.afterAll (calls ++ more) = (net.afterAll calls).afterAll more :=
  List.foldl_append

theorem afterAll_snoc (net : Network) (calls : List Call) (call : Call) :
    net.afterAll (calls ++ [call]) = (net.afterAll calls).after call.operation :=
  afterAll_append net calls [call]

/-- The networks that runs start from: new ones and compact copies. -/
inductive Born : Network → Prop where
  | new (options : Options) : Born (Network.new options)
  | copy {net copy : Network} {nodes : NodeMap NodeId} :
      Reachable net → (compact net).answer = .ok (copy, nodes) → Born copy

theorem Born.reachable {net : Network} (h : Born net) : Reachable net := by
  cases h with
  | new options => exact .new options
  | copy hnet hrun => exact .copy hnet hrun

/-- What a run starts from has been built. -/
theorem Born.built {net : Network} (h : Born net) :
    ∃ options, Relation.ReflTransGen Building (Network.new options) net := by
  cases h with
  | new options => exact ⟨options, .refl⟩
  | copy hnet hrun => exact ⟨_, compact_building hnet.wellFormed hrun⟩

/-- What a call does to a well-formed network: it is a substitution that is refused and leaves no
trace, a substitution that is met, or an extension. -/
theorem after_cases {net : Network} (h : net.WellFormed) (call : Call) :
    (call.replaced? net = none ∧
      Relation.ReflTransGen Extension net (net.after call.operation)) ∨
    ∃ old new, call.replaced? net = some (old, new) ∧
      Redirection net old new (net.after call.operation) := by
  obtain ⟨Answer, op⟩ := call
  cases hop : op.substitution? with
  | none =>
      refine Or.inl ⟨?_, op.perform_moves hop net⟩
      unfold Call.replaced?
      split
      · exact hop
      · rfl
  | some pair =>
      cases op with
      | substitute old new =>
          rcases h.substitute_cases old new with ⟨hsame, fault, hfault, _⟩ | ⟨hredirected, hok⟩
          · refine Or.inl ⟨Call.replaced?_of_error hfault, ?_⟩
            show Relation.ReflTransGen Extension net (Network.substitute old new net).state
            rw [hsame]
          · exact Or.inr ⟨old, new, Call.replaced?_of_ok hok, hredirected⟩
      | _ => cases hop

theorem WellFormed.after {net : Network} (h : net.WellFormed) {α : Type} (op : Operation α) :
    (net.after op).WellFormed :=
  h.of_changes (op.perform_changes net)

theorem WellFormed.afterAll {net : Network} (h : net.WellFormed) (calls : List Call) :
    (net.afterAll calls).WellFormed := by
  induction calls generalizing net with
  | nil => exact h
  | cons call rest ih => exact ih (h.after call.operation)

end Network

open Network

/-- What a script does to a network is what a sequence of calls does to it. -/
theorem Script.exists_calls {α : Type} {x : Action Network α} (h : Script x) (net : Network) :
    ∃ calls, (x net).state = net.afterAll calls := by
  induction h generalizing net with
  | call op => exact ⟨[⟨_, op⟩], rfl⟩
  | answer a => exact ⟨[], rfl⟩
  | refuse fault => exact ⟨[], rfl⟩
  | look => exact ⟨[], rfl⟩
  | note note => exact ⟨[], rfl⟩
  | @next α β x f _ _ ih ihnext =>
      obtain ⟨calls, hcalls⟩ := ih net
      cases hx : (x net).answer with
      | ok a =>
          obtain ⟨more, hmore⟩ := ihnext a (x net).state
          refine ⟨calls ++ more, ?_⟩
          rw [Action.bind_state_of_ok hx, hmore, hcalls, afterAll_append]
      | error fault => exact ⟨calls, by rw [Action.bind_state_of_error hx, hcalls]⟩
  | attempt _ ih => exact ih net

/-- Every reachable network comes about by a run. -/
theorem Reachable.exists_run {net : Network} (h : Reachable net) :
    ∃ start calls, Born start ∧ net = start.afterAll calls := by
  induction h with
  | new options => exact ⟨_, [], .new options, rfl⟩
  | copy hnet hrun _ => exact ⟨_, [], .copy hnet hrun, rfl⟩
  | run _ hscript ih =>
      obtain ⟨start, calls, hstart, rfl⟩ := ih
      obtain ⟨more, hmore⟩ := hscript.exists_calls (start.afterAll calls)
      exact ⟨start, calls ++ more, hstart, by rw [hmore, afterAll_append]⟩

theorem Reachable.afterAll {net : Network} (h : Reachable net) (calls : List Call) :
    Reachable (net.afterAll calls) := by
  induction calls generalizing net with
  | nil => exact h
  | cons call rest ih => exact ih (.run h (.call call.operation))

end LogicNet
