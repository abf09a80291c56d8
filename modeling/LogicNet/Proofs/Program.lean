import LogicNet.Proofs.Growth

/-!
Programs of construction calls. The calls of a program name their operands by the steps that
produced them, so one program can be run on different networks. The steps are the calls themselves
and, inside a call, each input that it creates and each request for a gate that it makes; of those a
reduction makes many, and the calls after it may name any of the nodes that they were met by.
-/

namespace LogicNet

open Network

/-- The node that a note is about, if it is about the creation of an input or about a request that
was met. -/
def Note.answered? : Note → Option NodeId
  | primaryInputCreated node _ | registerOutputCreated node _ => some node
  | nodeShared _ _ node | nodeCreated node _ _ => some node
  | _ => none

/-- The inputs that were created and the nodes that requests were met by, in order. -/
def answered (journal : List Entry) : List NodeId :=
  journal.filterMap fun entry => entry.note?.bind Note.answered?

@[simp] theorem answered_append (journal more : List Entry) :
    answered (journal ++ more) = answered journal ++ answered more :=
  List.filterMap_append

theorem answered_cons (note : Note) (journal : List Entry) :
    answered (.noted note :: journal) = note.answered?.toList ++ answered journal := by
  cases h : note.answered? <;> simp [answered, Entry.note?, h]

theorem answered_deliveries (l : Listeners) (event : Event) :
    answered (l.deliveries event) = [] := by
  rw [answered, List.filterMap_eq_nil_iff]
  intro entry hentry
  obtain ⟨subscription, _, rfl⟩ := List.mem_map.1 hentry
  rfl

/-- The node of a name. Names are positions in a list of nodes. -/
def named (nodes : List NodeId) (name : Nat) : Except Fault NodeId :=
  match nodes[name]? with
  | some n => .ok n
  | none => .error (.nodeOutOfBounds name nodes.length)

/-- The nodes of several names. -/
def namedAll (nodes : List NodeId) (names : List Nat) : Except Fault (List NodeId) :=
  names.mapM (named nodes)

/-- The node of a name, if there is a name. -/
def namedIf (nodes : List NodeId) : Option Nat → Except Fault (Option NodeId)
  | some name => do return some (← named nodes name)
  | none => return none

/-- What a construction call answers: a node, a cover, or a position among the outputs. -/
inductive Answer where
  | node (n : NodeId)
  | cover (c : CoverId)
  | position (position : Nat)
  deriving DecidableEq

namespace Answer

/-- The node that is answered, if it is a node. -/
def node? : Answer → Option NodeId
  | node n => some n
  | _ => none

/-- The answer with another node in place of the node. -/
def map (f : NodeId → NodeId) : Answer → Answer
  | node n => node (f n)
  | answer => answer

end Answer

/-- A construction call, with its operands by name. A reduction is by a construction on two operands,
which is a program itself: to it names 0 and 1 are the operands, the next ones are nodes captured from
outside, and those after them are what its calls so far have answered. Without an identity there has
to be something to reduce. -/
inductive Construction where
  | primaryInput
  | registerOutput
  | primaryOutput (signal : Nat)
  | registerInput (signal : Nat) (reset : Reset)
  | cover (added : Cover)
  | node (children : List Nat) (applied : CoverId)
  | gate (kind : Gate) (operands : List Nat)
  | buffer (operand : Nat)
  | coverNode (children : List Nat) (applied : Cover)
  | tableNode (children : List Nat) (table : TruthTable)
  | copyNode (other : Graph) (source : NodeId) (children : List Nat)
  | conjunction (operands : List Nat)
  | disjunction (operands : List Nat)
  | parity (operands : List Nat)
  | reduction (shape : Shape) (identity : Option Nat) (captured : List Nat)
      (calls : List Construction) (result : Nat) (operands : List Nat)

/-- Reduces operands, with or without a result for no operands. -/
def Network.reduceTo (shape : Shape) (combine : Combine) (operands : List NodeId) :
    Option NodeId → Action Network NodeId
  | some identity => reduce shape combine identity operands
  | none => match shape with
    | .linear => linearReduce combine operands
    | .tree => treeReduce combine operands

mutual

/-- Makes a call. -/
def Construction.perform (nodes : List NodeId) : Construction → Action Network Answer
  | primaryInput => do return .node (← addPrimaryInput)
  | registerOutput => do return .node (← addRegisterOutput)
  | primaryOutput signal => do return .position (← addPrimaryOutput (← named nodes signal))
  | registerInput signal reset => do
    return .position (← addRegisterInput (← named nodes signal) reset)
  | cover added => do return .cover (← addCover added)
  | node children applied => do return .node (← Network.node (← namedAll nodes children) applied)
  | gate kind operands => do return .node (← Network.gate kind (← namedAll nodes operands))
  | buffer operand => do return .node (← Network.buffer (← named nodes operand))
  | coverNode children applied => do
    return .node (← Network.coverNode (← namedAll nodes children) applied)
  | tableNode children table => do
    return .node (← Network.tableNode (← namedAll nodes children) table)
  | copyNode other source children => do
    return .node (← Network.copyNode other source (← namedAll nodes children))
  | conjunction operands => do return .node (← Network.conjunction (← namedAll nodes operands))
  | disjunction operands => do return .node (← Network.disjunction (← namedAll nodes operands))
  | parity operands => do return .node (← Network.parity (← namedAll nodes operands))
  | reduction shape identity captured calls result operands => do
    let captured ← namedAll nodes captured
    let operands ← namedAll nodes operands
    let identity ← namedIf nodes identity
    let combine : Combine := fun a b => do
      named (← performAll (a :: b :: captured) calls) result
    return .node (← reduceTo shape combine operands identity)

/-- Makes calls one after the other, each of which can name what those before it have answered. -/
def Construction.performAll (nodes : List NodeId) :
    List Construction → Action Network (List NodeId)
  | [] => return nodes
  | call :: calls => do
    let answer ← call.perform nodes
    performAll (nodes ++ answer.node?.toList) calls

end

/-- What a call came to: the nodes of its own steps, in order, and its answer. -/
structure Made where
  nodes : List NodeId
  answer : Except Fault Answer

/-- The nodes that later calls can name: those of the steps inside the call, and then the one that it
answered. -/
def Made.signals (made : Made) : List NodeId :=
  match made.answer with
  | .ok answer => made.nodes ++ answer.node?.toList
  | .error _ => made.nodes

/-- A program that has got somewhere: the network, and what the calls so far came to. -/
structure Progress where
  network : Network
  made : List Made

namespace Progress

/-- The nodes that calls can name: the two constants, and those of the calls so far. -/
def signals (progress : Progress) : List NodeId := [0, 1] ++ progress.made.flatMap Made.signals

/-- Makes a call. -/
def next (progress : Progress) (call : Construction) : Progress :=
  let outcome := call.perform progress.signals progress.network
  ⟨outcome.state, progress.made ++ [⟨answered outcome.journal, outcome.answer⟩]⟩

/-- There were fewer than 2^32 uses throughout, and a call that asked for one more was not refused
because a counter was full. Uses only become more, so it is enough to count them in the end. -/
structure Fits (progress : Progress) : Prop where
  uses_lt : progress.network.graph.references.length < UInt32.size
  room : ∀ made ∈ progress.made, made.answer ≠ .error .counterFull

end Progress

/-- Runs a program on a new network. -/
def run (options : Options) (program : List Construction) : Progress :=
  program.foldl Progress.next ⟨Network.new options, []⟩

theorem run_snoc (options : Options) (program : List Construction) (call : Construction) :
    run options (program ++ [call]) = (run options program).next call :=
  List.foldl_append

section Moves

theorem extends_of_growth {α : Type} {x : Action Network α} (h : Action.Moves Growth x) :
    Action.Moves Extension x :=
  h.mono fun _ _ => Extension.growth

theorem extends_of_building {α : Type} {x : Action Network α} (h : Action.Moves Building x) :
    Action.Moves Extension x :=
  h.mono fun _ _ => Building.extension

theorem combineBy_moves (kind : Gate) (a b : NodeId) :
    Action.Moves Extension (combineBy kind a b) :=
  extends_of_building (gate_moves kind _)

/-- What extends a network is composed of what extends it. -/
theorem extensions_compose : Composes fun _ => Action.Moves Extension where
  pure := .pure
  fail := .fail
  note := .note
  bind := .bind

theorem reduceTo_moves {combine : Combine} (h : ∀ a b, Action.Moves Extension (combine a b))
    (shape : Shape) (operands : List NodeId) (identity : Option NodeId) :
    Action.Moves Extension (reduceTo shape combine operands identity) := by
  cases identity with
  | some identity => exact extensions_compose.reduce h shape identity operands
  | none =>
      cases shape with
      | linear => exact extensions_compose.linearReduce h operands
      | tree => exact extensions_compose.treeReduce h operands

mutual

/-- A construction call extends the network. -/
theorem Construction.perform_moves (nodes : List NodeId) :
    (call : Construction) → Action.Moves Extension (call.perform nodes)
  | .primaryInput => .bind (extends_of_growth addPrimaryInput_moves) fun _ => .pure _
  | .registerOutput => .bind (extends_of_growth addRegisterOutput_moves) fun _ => .pure _
  | .primaryOutput _ =>
    .bind (.lift _) fun _ => .bind (extends_of_growth (addPrimaryOutput_moves _)) fun _ => .pure _
  | .registerInput _ _ =>
    .bind (.lift _) fun _ => .bind (extends_of_growth (addRegisterInput_moves _ _)) fun _ => .pure _
  | .cover added => .bind (extends_of_growth (addCover_moves added)) fun _ => .pure _
  | .node _ _ => .bind (.lift _) fun _ => .bind (extends_of_growth (node_moves _ _)) fun _ => .pure _
  | .gate _ _ =>
    .bind (.lift _) fun _ => .bind (extends_of_building (gate_moves _ _)) fun _ => .pure _
  | .buffer _ => .bind (.lift _) fun _ => .bind (.pure _) fun _ => .pure _
  | .coverNode _ _ =>
    .bind (.lift _) fun _ => .bind (extends_of_growth (coverNode_moves _ _)) fun _ => .pure _
  | .tableNode _ _ =>
    .bind (.lift _) fun _ => .bind (extends_of_growth (tableNode_moves _ _)) fun _ => .pure _
  | .copyNode _ _ _ =>
    .bind (.lift _) fun _ => .bind (extends_of_growth (copyNode_moves _ _ _)) fun _ => .pure _
  | .conjunction _ =>
    .bind (.lift _) fun _ =>
      .bind (extensions_compose.reduce (combineBy_moves .and) _ _ _) fun _ => .pure _
  | .disjunction _ =>
    .bind (.lift _) fun _ =>
      .bind (extensions_compose.reduce (combineBy_moves .or) _ _ _) fun _ => .pure _
  | .parity _ =>
    .bind (.lift _) fun _ =>
      .bind (extensions_compose.reduce (combineBy_moves .xor) _ _ _) fun _ => .pure _
  | .reduction _ _ _ calls _ _ =>
    .bind (.lift _) fun _ => .bind (.lift _) fun _ => .bind (.lift _) fun _ =>
      .bind (reduceTo_moves (fun _ _ => .bind (performAll_moves _ calls) fun _ => .lift _) _ _ _)
        fun _ => .pure _

theorem Construction.performAll_moves (nodes : List NodeId) :
    (calls : List Construction) → Action.Moves Extension (performAll nodes calls)
  | [] => .pure nodes
  | call :: calls => .bind (perform_moves nodes call) fun _ => performAll_moves _ calls

end

end Moves

/-- Extending a network takes no uses away. -/
theorem Network.Extension.references_le {net net' : Network} (h : Extension net net') :
    net.graph.references.length ≤ net'.graph.references.length := by
  cases h with
  | growth hgrowth =>
      cases hgrowth with
      | primaryInput | registerOutput | primaryOutput | registerInput | gate =>
          simp [Graph.references, Graph.addNode, addNode]
      | cover | scratch => exact Nat.le_refl _
  | gateCover | listeners | options => exact Nat.le_refl _

theorem Network.references_le_of_extensions {net net' : Network}
    (h : Relation.ReflTransGen Extension net net') :
    net.graph.references.length ≤ net'.graph.references.length := by
  induction h with
  | refl => exact Nat.le_refl _
  | tail _ hstep ih => exact Nat.le_trans ih hstep.references_le

end LogicNet
