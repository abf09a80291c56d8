import LogicNet.Journal

/-!
The subscriptions of a network: who is told of added gates and of modified nodes. Each subscription
has a number that no other one of the network has had, and listeners are called in the order in
which they subscribed. A listener is taken to return: a call of it is an entry of the journal and
never breaks off the operation that it is told of. Subscriptions are made and ended one at a time;
that another registry is put in the place of the whole one is left out.
-/

namespace LogicNet

/-- The subscriptions that are in force and the number of the next one. -/
structure Listeners where
  next : Nat
  onAdded : List Nat
  onModified : List Nat
  deriving DecidableEq

namespace Listeners

/-- No subscriptions, now or before. -/
def none : Listeners := ⟨0, [], []⟩

/-- Subscribes to added gates, under the number `next`. -/
def subscribeAdded (l : Listeners) : Listeners :=
  { l with next := l.next + 1, onAdded := l.onAdded ++ [l.next] }

/-- Subscribes to modified nodes, under the number `next`. -/
def subscribeModified (l : Listeners) : Listeners :=
  { l with next := l.next + 1, onModified := l.onModified ++ [l.next] }

/-- Whether a subscription is in force. -/
def isSubscribed (l : Listeners) (subscription : Nat) : Bool :=
  l.onAdded.contains subscription || l.onModified.contains subscription

/-- Ends a subscription, if it is in force. -/
def unsubscribe (l : Listeners) (subscription : Nat) : Listeners :=
  { l with
    onAdded := l.onAdded.filter (· != subscription)
    onModified := l.onModified.filter (· != subscription) }

/-- The number of subscriptions in force. -/
def count (l : Listeners) : Nat := l.onAdded.length + l.onModified.length

/-- The calls that an event leads to. -/
def deliveries (l : Listeners) (event : Event) : List Entry :=
  let called := match event with
    | .added _ => l.onAdded
    | .modified .. => l.onModified
  called.map (.delivered · event)

/-- The summary of the subscriptions in force. -/
def text (l : Listeners) : String :=
  s!"NetworkEvents \x7b on_add: {l.onAdded.length}, on_modified: {l.onModified.length} \x7d"

/-- The text of a subscription's number. -/
def subscriptionText (subscription : Nat) : String := s!"SubscriptionId({subscription})"

end Listeners
end LogicNet
