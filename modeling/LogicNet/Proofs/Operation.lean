import LogicNet.Network.Analysis
import LogicNet.Network.Compaction
import LogicNet.Network.Reduction
import LogicNet.Network.Subscription
import LogicNet.Network.Substitution

/-!
The calls on a network and what a caller can make of them. An operation is one call that can change
the network or its scratch space. A script strings calls together: each may depend on the answers so
far and on everything the network shows, and a refused call ends the script unless the script
attempts it. A network is reachable if scripts lead to it from a new network, or if it is the
compact copy of a reachable one; whatever refused calls have left behind is still there.
-/

namespace LogicNet

/-- Runs an action and answers what came of it, so that a refusal is an answer like any other. -/
def Action.attempt {σ α : Type} (x : Action σ α) : Action σ (Except Fault α) := fun s =>
  match x s with
  | ⟨answer, s', journal⟩ => ⟨.ok answer, s', journal⟩

@[simp] theorem Action.attempt_state {σ α : Type} (x : Action σ α) (s : σ) :
    (Action.attempt x s).state = (x s).state := rfl

/-- The calls that can change a network or its scratch space, by the type of their answers. Calls
that only look are left out: a script can look at the whole network. -/
inductive Operation : Type → Type where
  | addPrimaryInput : Operation NodeId
  | addRegisterOutput : Operation NodeId
  | addPrimaryOutput (signal : NodeId) : Operation Nat
  | addRegisterInput (signal : NodeId) (reset : Reset) : Operation Nat
  | addCover (cover : Cover) : Operation CoverId
  | node (children : List NodeId) (cover : CoverId) : Operation NodeId
  | gate (kind : Gate) (operands : List NodeId) : Operation NodeId
  | buffer (operand : NodeId) : Operation NodeId
  | coverNode (children : List NodeId) (cover : Cover) : Operation NodeId
  | tableNode (children : List NodeId) (table : TruthTable) : Operation NodeId
  | copyNode (other : Graph) (source : NodeId) (children : List NodeId) : Operation NodeId
  | substitute (old new : NodeId) : Operation Unit
  | setOptions (options : Options) : Operation Unit
  | subscribeAdded : Operation Nat
  | subscribeModified : Operation Nat
  | unsubscribe (subscription : Nat) : Operation Bool
  | setValue (n : NodeId) (value : UInt32) : Operation Unit
  | increment (n : NodeId) : Operation UInt32
  | decrement (n : NodeId) : Operation UInt32
  | clearValues : Operation Unit
  | setMark (n : NodeId) (mark : UInt32) : Operation Unit
  | clearMarks : Operation Unit
  | nextTraversal : Operation UInt32
  | postorder (starts : List NodeId) : Operation (List NodeId)
  | postorderOfOutputs : Operation (List NodeId)
  | live : Operation (List Bool)
  | evaluate (inputs : List Bool) : Operation (List Bool)
  | evaluateWords (inputs : List Word) : Operation (List Word)
  | evaluateAll : Operation (List (List Bool))
  | depths : Operation (NodeMap Nat)
  | summary : Operation Summary
  | compact : Operation (Network × NodeMap NodeId)

namespace Operation

/-- What a call does. -/
def perform : {α : Type} → Operation α → Action Network α
  | _, addPrimaryInput => Network.addPrimaryInput
  | _, addRegisterOutput => Network.addRegisterOutput
  | _, addPrimaryOutput signal => Network.addPrimaryOutput signal
  | _, addRegisterInput signal reset => Network.addRegisterInput signal reset
  | _, addCover cover => Network.addCover cover
  | _, node children cover => Network.node children cover
  | _, gate kind operands => Network.gate kind operands
  | _, buffer operand => Network.buffer operand
  | _, coverNode children cover => Network.coverNode children cover
  | _, tableNode children table => Network.tableNode children table
  | _, copyNode other source children => Network.copyNode other source children
  | _, substitute old new => Network.substitute old new
  | _, setOptions options => Network.setOptions options
  | _, subscribeAdded => Network.subscribeAdded
  | _, subscribeModified => Network.subscribeModified
  | _, unsubscribe subscription => Network.unsubscribe subscription
  | _, setValue n value => Network.setValue n value
  | _, increment n => Network.increment n
  | _, decrement n => Network.decrement n
  | _, clearValues => Network.clearValues
  | _, setMark n mark => Network.setMark n mark
  | _, clearMarks => Network.clearMarks
  | _, nextTraversal => Network.nextTraversal
  | _, postorder starts => Network.postorder starts
  | _, postorderOfOutputs => Network.postorderOfOutputs
  | _, live => Network.live
  | _, evaluate inputs => Network.evaluate inputs
  | _, evaluateWords inputs => Network.evaluateWords inputs
  | _, evaluateAll => Network.evaluateAll
  | _, depths => Network.depths
  | _, summary => Network.summary
  | _, compact => Network.compact

/-- The nodes that a call is to replace one by the other, if it is a substitution. -/
def substitution? : {α : Type} → Operation α → Option (NodeId × NodeId)
  | _, substitute old new => some (old, new)
  | _, _ => none

end Operation

/-- What a caller can write. -/
inductive Script : {α : Type} → Action Network α → Prop where
  | call {α : Type} (op : Operation α) : Script op.perform
  | answer {α : Type} (a : α) : Script (pure a : Action Network α)
  | refuse {α : Type} (fault : Fault) : Script (Action.fail fault : Action Network α)
  | look : Script (get : Action Network Network)
  | note (note : Note) : Script (Action.note note : Action Network Unit)
  | next {α β : Type} {x : Action Network α} {f : α → Action Network β} :
      Script x → (∀ a, Script (f a)) → Script (x >>= f)
  | attempt {α : Type} {x : Action Network α} : Script x → Script x.attempt

/-- A property of actions that goes along with every way of composing them. -/
structure Composes (C : (α : Type) → Action Network α → Prop) : Prop where
  pure : ∀ {α : Type} (a : α), C α (Pure.pure a)
  fail : ∀ {α : Type} (fault : Fault), C α (Action.fail fault)
  note : ∀ note : Note, C Unit (Action.note note)
  bind : ∀ {α β : Type} {x : Action Network α} {f : α → Action Network β},
    C α x → (∀ a, C β (f a)) → C β (x >>= f)

namespace Composes

open Network

variable {C : (α : Type) → Action Network α → Prop} (hC : Composes C) {combine : Combine}

include hC

theorem foldlM {α β : Type} {f : β → α → Action Network β} (h : ∀ b a, C β (f b a))
    (items : List α) (b : β) : C β (items.foldlM f b) := by
  induction items generalizing b with
  | nil => exact hC.pure b
  | cons item rest ih =>
      rw [List.foldlM_cons]
      exact hC.bind (h b item) ih

theorem linearReduce (h : ∀ a b, C NodeId (combine a b)) (operands : List NodeId) :
    C NodeId (Network.linearReduce combine operands) := by
  cases operands with
  | nil => exact hC.fail _
  | cons operand rest => exact hC.foldlM h rest operand

theorem treeReduce (h : ∀ a b, C NodeId (combine a b)) (operands : List NodeId) :
    C NodeId (Network.treeReduce combine operands) := by
  induction operands using Network.treeReduce.induct with
  | case1 => rw [Network.treeReduce]; exact hC.fail _
  | case2 operand => rw [Network.treeReduce]; exact hC.pure _
  | case3 a b rest operands half ihleft ihright =>
      rw [Network.treeReduce]
      exact hC.bind (hC.note _) fun _ => hC.bind ihleft fun left => hC.bind ihright (h left)

/-- A reduction has the property if the construction that it is by has it. -/
theorem reduce (h : ∀ a b, C NodeId (combine a b)) (shape : Shape) (identity : NodeId)
    (operands : List NodeId) : C NodeId (Network.reduce shape combine identity operands) := by
  unfold Network.reduce
  split
  · exact hC.pure identity
  · cases shape with
    | linear => exact hC.linearReduce h operands
    | tree => exact hC.treeReduce h operands

end Composes

/-- What scripts are composed to is a script, a reduction by a script among it. -/
theorem Script.composes : Composes fun _ => Script where
  pure := .answer
  fail := .refuse
  note := .note
  bind := .next

/-- The networks that come about by scripts and by compaction. -/
inductive Reachable : Network → Prop where
  | new (options : Options) : Reachable (Network.new options)
  | run {net : Network} {α : Type} {x : Action Network α} :
      Reachable net → Script x → Reachable (x net).state
  | copy {net copy : Network} {nodes : NodeMap NodeId} :
      Reachable net → (Network.compact net).answer = .ok (copy, nodes) → Reachable copy

end LogicNet
