import LogicNet.Cover.Basic
import LogicNet.Fault

/-!
The graph of a network: its nodes, its table of covers, and its terminals. Everything that decides
what a network computes is here; counters, marks and tables that speed up its construction are kept
elsewhere. The terminals of registers stand behind the primary ones in one list, and a count says
where they begin; the position of an input is kept in a table beside the list, and reset values are
kept in a list beside that of the register inputs. That these agree is not part of the data: it is
what every operation has to keep true.
-/

namespace LogicNet

/-- The value of a register before the first step. -/
inductive Reset where
  | zero | one | dontCare | unknown
  deriving DecidableEq

namespace Reset

/-- A register starts at zero unless it is told otherwise. -/
instance : Inhabited Reset := ⟨zero⟩

/-- The reset to a known value. -/
def ofBool (value : Bool) : Reset := if value then one else zero

/-- The name of a reset value in a listing. -/
def name : Reset → String
  | zero => "Zero"
  | one => "One"
  | dontCare => "DontCare"
  | unknown => "Unknown"

end Reset

/-- The next-state input of a register: the signal that drives it, and its reset value. -/
structure NextState where
  signal : NodeId
  reset : Reset
  deriving DecidableEq

/-- The sum of some numbers. -/
def total (numbers : List Nat) : Nat := numbers.foldr (· + ·) 0

@[simp] theorem total_nil : total [] = 0 := rfl

@[simp] theorem total_cons (number : Nat) (numbers : List Nat) :
    total (number :: numbers) = number + total numbers := rfl

@[simp] theorem total_append (numbers more : List Nat) :
    total (numbers ++ more) = total numbers + total more := by
  induction numbers with
  | nil => simp
  | cons number rest ih => rw [List.cons_append, total_cons, total_cons, ih, Nat.add_assoc]

/-- The combinational inputs: what a network reads in one step. -/
structure Inputs where
  /-- The primary inputs, then the register outputs. -/
  inputs : List NodeId
  /-- How many of them are primary. -/
  primaryInputCount : Nat
  /-- The position of each of them in the list. -/
  inputPositions : NodeMap Nat
  deriving DecidableEq

namespace Inputs

/-- No inputs. -/
def none : Inputs := ⟨[], 0, ∅⟩

/-- The inputs in front, as many as are counted. -/
def primaryInputs (terminals : Inputs) : List NodeId :=
  terminals.inputs.take terminals.primaryInputCount

/-- The inputs behind the primary ones: the present states of the registers. -/
def registerOutputs (terminals : Inputs) : List NodeId :=
  terminals.inputs.drop terminals.primaryInputCount

/-- Adds an input at the end. -/
def push (terminals : Inputs) (n : NodeId) : Inputs :=
  { terminals with
    inputs := terminals.inputs ++ [n]
    inputPositions := terminals.inputPositions.insert n terminals.inputs.length }

/-- Adds an input at the end and counts it as a primary one. -/
def pushPrimary (terminals : Inputs) (n : NodeId) : Inputs :=
  { terminals.push n with primaryInputCount := terminals.primaryInputCount + 1 }

@[simp] theorem push_inputs (terminals : Inputs) (n : NodeId) :
    (terminals.push n).inputs = terminals.inputs ++ [n] := rfl

@[simp] theorem pushPrimary_inputs (terminals : Inputs) (n : NodeId) :
    (terminals.pushPrimary n).inputs = terminals.inputs ++ [n] := rfl

theorem primaryInputs_append (terminals : Inputs) :
    terminals.primaryInputs ++ terminals.registerOutputs = terminals.inputs :=
  List.take_append_drop _ _

theorem mem_inputs_iff (terminals : Inputs) {n : NodeId} : n ∈ terminals.inputs ↔
    n ∈ terminals.primaryInputs ∨ n ∈ terminals.registerOutputs := by
  rw [← List.mem_append, primaryInputs_append]

theorem registerOutputs_length (terminals : Inputs) :
    terminals.registerOutputs.length = terminals.inputs.length - terminals.primaryInputCount :=
  List.length_drop

end Inputs

/-- The combinational outputs: what a network drives in one step. -/
structure Outputs where
  /-- The signals of the primary outputs, then those that drive the registers. -/
  outputs : List NodeId
  /-- How many of them are primary. -/
  primaryOutputCount : Nat
  /-- The reset values of the registers, in the order of the register inputs. -/
  resets : List Reset
  deriving DecidableEq

namespace Outputs

/-- No outputs. -/
def none : Outputs := ⟨[], 0, []⟩

/-- The outputs in front, as many as are counted. -/
def primaryOutputs (terminals : Outputs) : List NodeId :=
  terminals.outputs.take terminals.primaryOutputCount

/-- The outputs behind the primary ones: the next states of the registers. -/
def registerInputs (terminals : Outputs) : List NodeId :=
  terminals.outputs.drop terminals.primaryOutputCount

/-- The register inputs with their reset values. -/
def nextStates (terminals : Outputs) : List NextState :=
  List.zipWith NextState.mk terminals.registerInputs terminals.resets

/-- Adds a primary output at the end. -/
def pushPrimary (terminals : Outputs) (signal : NodeId) : Outputs :=
  { terminals with
    outputs := terminals.outputs ++ [signal]
    primaryOutputCount := terminals.primaryOutputCount + 1 }

/-- Adds a register input at the end. -/
def pushRegister (terminals : Outputs) (signal : NodeId) (reset : Reset) : Outputs :=
  { terminals with
    outputs := terminals.outputs ++ [signal]
    resets := terminals.resets ++ [reset] }

@[simp] theorem pushPrimary_outputs (terminals : Outputs) (signal : NodeId) :
    (terminals.pushPrimary signal).outputs = terminals.outputs ++ [signal] := rfl

@[simp] theorem pushRegister_outputs (terminals : Outputs) (signal : NodeId) (reset : Reset) :
    (terminals.pushRegister signal reset).outputs = terminals.outputs ++ [signal] := rfl

@[simp] theorem pushRegister_resets (terminals : Outputs) (signal : NodeId) (reset : Reset) :
    (terminals.pushRegister signal reset).resets = terminals.resets ++ [reset] := rfl

theorem primaryOutputs_append (terminals : Outputs) :
    terminals.primaryOutputs ++ terminals.registerInputs = terminals.outputs :=
  List.take_append_drop _ _

theorem registerInputs_length (terminals : Outputs) :
    terminals.registerInputs.length = terminals.outputs.length - terminals.primaryOutputCount :=
  List.length_drop

end Outputs

/-- What a network is made of. Nodes and covers are named by their positions. -/
structure Graph extends Inputs, Outputs where
  nodes : Array Node
  covers : Array Cover
  deriving DecidableEq

namespace Graph

/-- The graph without nodes and covers. -/
def empty : Graph := ⟨Inputs.none, Outputs.none, #[], #[]⟩

/-- The name of a constant. -/
def constant (value : Bool) : NodeId := if value then 1 else 0

/-- The graph of the two constants, false first. -/
def constants : Graph :=
  { empty with
    nodes := #[⟨[], 0⟩, ⟨[], 1⟩]
    covers := #[Cover.constant false, Cover.constant true] }

/-- The number of nodes, those that no output depends on included. -/
def size (g : Graph) : Nat := g.nodes.size

/-- The names of all nodes. -/
def nodeIds (g : Graph) : List NodeId := List.range g.size

/-- Refuses a name that belongs to no node. -/
def check (g : Graph) (n : NodeId) : Except Fault Unit :=
  if n < g.size then .ok () else .error (.nodeOutOfBounds n g.size)

/-- Refuses a list of names for the first one that belongs to no node. -/
def checkAll (g : Graph) (ns : List NodeId) : Except Fault Unit := ns.forM g.check

/-- The node of a name. -/
def node (g : Graph) (n : NodeId) : Except Fault Node :=
  match g.nodes[n]? with
  | some node => .ok node
  | none => .error (.nodeOutOfBounds n g.size)

/-- The cover of a name. -/
def cover (g : Graph) (c : CoverId) : Except Fault Cover :=
  match g.covers[c]? with
  | some cover => .ok cover
  | none => .error (.coverOutOfBounds c g.covers.size)

/-- The children of a node, in order. -/
def children (g : Graph) (n : NodeId) : Except Fault (List NodeId) :=
  return (← g.node n).children

/-- The children of a node, and none for a name that belongs to no node. -/
def childrenOf (g : Graph) (n : NodeId) : List NodeId :=
  match g.nodes[n]? with
  | some node => node.children
  | none => []

/-- The cover that a node applies. -/
def nodeCover (g : Graph) (n : NodeId) : Except Fault Cover := do g.cover (← g.node n).cover

/-- Adds a cover at the end of the table. Covers are never compared: one that is added twice has
two names. -/
def addCover (g : Graph) (cover : Cover) : Graph := { g with covers := g.covers.push cover }

/-- Adds a node at the end. -/
def addNode (g : Graph) (node : Node) : Graph := { g with nodes := g.nodes.push node }

/-- The node of a new input. It has a cover of its own, so no other request is for the same node. -/
def inputNode (g : Graph) : Node := ⟨[], g.covers.size⟩

/-- Adds an input behind all others, with its node and the cover of that: a register output, unless
it is counted among the primary inputs. -/
def pushInput (g : Graph) : Graph :=
  { (g.addCover Cover.identity).addNode g.inputNode with toInputs := g.toInputs.push g.size }

/-- Adds a primary input. -/
def pushPrimaryInput (g : Graph) : Graph :=
  { g.pushInput with toInputs := g.toInputs.pushPrimary g.size }

/-- Adds a primary output. -/
def pushPrimaryOutput (g : Graph) (signal : NodeId) : Graph :=
  { g with toOutputs := g.toOutputs.pushPrimary signal }

/-- Adds a register input. -/
def pushRegisterInput (g : Graph) (signal : NodeId) (reset : Reset) : Graph :=
  { g with toOutputs := g.toOutputs.pushRegister signal reset }

section Fields

variable (g : Graph) (signal : NodeId) (reset : Reset)

@[simp] theorem pushInput_nodes : g.pushInput.nodes = g.nodes.push g.inputNode := rfl

@[simp] theorem pushInput_covers : g.pushInput.covers = g.covers.push Cover.identity := rfl

@[simp] theorem pushInput_toInputs : g.pushInput.toInputs = g.toInputs.push g.size := rfl

@[simp] theorem pushInput_toOutputs : g.pushInput.toOutputs = g.toOutputs := rfl

@[simp] theorem pushPrimaryInput_nodes : g.pushPrimaryInput.nodes = g.nodes.push g.inputNode := rfl

@[simp] theorem pushPrimaryInput_covers :
    g.pushPrimaryInput.covers = g.covers.push Cover.identity := rfl

@[simp] theorem pushPrimaryInput_toInputs :
    g.pushPrimaryInput.toInputs = g.toInputs.pushPrimary g.size := rfl

@[simp] theorem pushPrimaryInput_toOutputs : g.pushPrimaryInput.toOutputs = g.toOutputs := rfl

@[simp] theorem pushPrimaryOutput_nodes : (g.pushPrimaryOutput signal).nodes = g.nodes := rfl

@[simp] theorem pushPrimaryOutput_toInputs :
    (g.pushPrimaryOutput signal).toInputs = g.toInputs := rfl

@[simp] theorem pushPrimaryOutput_toOutputs :
    (g.pushPrimaryOutput signal).toOutputs = g.toOutputs.pushPrimary signal := rfl

@[simp] theorem pushRegisterInput_nodes :
    (g.pushRegisterInput signal reset).nodes = g.nodes := rfl

@[simp] theorem pushRegisterInput_toInputs :
    (g.pushRegisterInput signal reset).toInputs = g.toInputs := rfl

@[simp] theorem pushRegisterInput_toOutputs :
    (g.pushRegisterInput signal reset).toOutputs = g.toOutputs.pushRegister signal reset := rfl

end Fields

theorem node_eq_ok_iff (g : Graph) (n : NodeId) (node : Node) :
    g.node n = .ok node ↔ g.nodes[n]? = some node := by
  unfold Graph.node
  split <;> simp_all

theorem cover_eq_ok_iff (g : Graph) (c : CoverId) (cover : Cover) :
    g.cover c = .ok cover ↔ g.covers[c]? = some cover := by
  unfold Graph.cover
  split <;> simp_all

theorem childrenOf_eq_nil_of_le (g : Graph) (n : NodeId) (h : g.size ≤ n) : g.childrenOf n = [] := by
  have : g.nodes[n]? = none := Array.getElem?_eq_none h
  simp [childrenOf, this]

end Graph
end LogicNet
