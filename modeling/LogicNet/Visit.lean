/-!
Visits: going through a list with a function that sees each item with its position and may stop the
visit.
-/

namespace LogicNet

/-- Whether a visit goes on after an item. -/
inductive Flow where
  | goOn | stop
  deriving DecidableEq

/-- Visits the items, the first of which is at `position`, until one of them stops the visit. -/
def visitFrom {α : Type} {m : Type → Type} [Monad m] (f : α → Nat → m Flow) (position : Nat) :
    List α → m Flow
  | [] => return .goOn
  | item :: rest => do
    match ← f item position with
    | .goOn => visitFrom f (position + 1) rest
    | .stop => return .stop

/-- Visits the items in order until one of them stops the visit. -/
def visit {α : Type} {m : Type → Type} [Monad m] (f : α → Nat → m Flow) (items : List α) : m Flow :=
  visitFrom f 0 items

end LogicNet
