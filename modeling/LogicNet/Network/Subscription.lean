import LogicNet.Network.Basic

/-!
Subscriptions to the events of a network, and changes of its options. Neither touches what the
network is made of.
-/

namespace LogicNet.Network

/-- Subscribes to added gates and answers the number of the subscription. -/
def subscribeAdded : Action Network Nat := do
  let net ← get
  set { net with listeners := net.listeners.subscribeAdded }
  return net.listeners.next

/-- Subscribes to modified nodes and answers the number of the subscription. -/
def subscribeModified : Action Network Nat := do
  let net ← get
  set { net with listeners := net.listeners.subscribeModified }
  return net.listeners.next

/-- Ends a subscription and answers whether it was in force. -/
def unsubscribe (subscription : Nat) : Action Network Bool := do
  let net ← get
  set { net with listeners := net.listeners.unsubscribe subscription }
  return net.listeners.isSubscribed subscription

/-- Changes how the network is built from here on. -/
def setOptions (options : Options) : Action Network Unit := modify ({ · with options })

end LogicNet.Network
