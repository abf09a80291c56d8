import LogicNet.Graph.Basic

/-!
The terminals of a graph and the kinds of its nodes: which list a node stands in and where, which
node stands at a place of a list, and how register inputs and register outputs pair up. The
register at position `i` reads its state from register output `i` and takes its next state from
register input `i`. Whether a node is an input, and which, is looked up in the table of positions;
what stands at a position is looked up in the list.
-/

namespace LogicNet.Graph

/-- The terminals of one list. -/
def terminals (g : Graph) : Terminal → List NodeId
  | .input => g.inputs
  | .output => g.outputs
  | .primaryInput => g.primaryInputs
  | .primaryOutput => g.primaryOutputs
  | .registerOutput => g.registerOutputs
  | .registerInput => g.registerInputs

/-- The number of terminals of one list. The primary ones are counted, and the others are those of
registers. -/
def terminalCount (g : Graph) : Terminal → Nat
  | .input => g.inputs.length
  | .output => g.outputs.length
  | .primaryInput => g.primaryInputCount
  | .primaryOutput => g.primaryOutputCount
  | .registerOutput => g.inputs.length - g.primaryInputCount
  | .registerInput => g.outputs.length - g.primaryOutputCount

/-- What stands at a position counted from the beginning of a list: those of registers begin where
the primary ones end. -/
def terminal? (g : Graph) : Terminal → Nat → Option NodeId
  | .input, position | .primaryInput, position => g.inputs[position]?
  | .output, position | .primaryOutput, position => g.outputs[position]?
  | .registerOutput, position => g.inputs[g.primaryInputCount + position]?
  | .registerInput, position => g.outputs[g.primaryOutputCount + position]?

/-- The node at a position of a list of terminals. -/
def terminal (g : Graph) (list : Terminal) (position : Nat) : Except Fault NodeId :=
  if position < g.terminalCount list then
    match g.terminal? list position with
    | some n => .ok n
    | none => .error (.missingTerminal list position)
  else .error (.positionOutOfBounds list position (g.terminalCount list))

/-- The position of the first terminal of a list that is the given node. -/
def position? (g : Graph) (list : Terminal) (n : NodeId) : Option Nat :=
  (g.terminals list).idxOf? n

/-- The position of a node in a list of inputs in which it has to stand, from its position among all
inputs. A node that is no input at all is refused as such, whichever list was asked about. -/
def inputPosition (g : Graph) (list : Terminal) (n : NodeId) : Except Fault Nat :=
  match g.inputPositions[n]? with
  | none => .error (.notTerminal .input n)
  | some position =>
    match list with
    | .input => .ok position
    | .primaryInput =>
      if position < g.primaryInputCount then .ok position else .error (.notTerminal list n)
    | .registerOutput =>
      if g.primaryInputCount ≤ position then .ok (position - g.primaryInputCount)
      else .error (.notTerminal list n)
    | .output | .primaryOutput | .registerInput => .error (.notTerminal list n)

/-- The reset value of the register input at a position. -/
def reset (g : Graph) (position : Nat) : Except Fault Reset :=
  match g.resets[position]? with
  | some reset => .ok reset
  | none => .error (.resetOutOfBounds position g.resets.length)

/-- The number of registers, each of which needs both of its terminals. -/
def registerCount (g : Graph) : Except Fault Nat :=
  let states := g.terminalCount .registerOutput
  let nextStates := g.terminalCount .registerInput
  if states = nextStates then .ok states else .error (.unbalancedRegisters states nextStates)

/-- The registers as pairs of next-state signal and register output. -/
def registers (g : Graph) : Except Fault (List (NodeId × NodeId)) := do
  let _ ← g.registerCount
  return g.registerInputs.zip g.registerOutputs

/-- The next-state signal of the register with the given output. -/
def nextState (g : Graph) (n : NodeId) : Except Fault NodeId := do
  g.terminal .registerInput (← g.inputPosition .registerOutput n)

/-- The output of the first register whose next state is the given signal. -/
def stateOf (g : Graph) (signal : NodeId) : Except Fault NodeId :=
  match g.position? .registerInput signal with
  | some position => g.terminal .registerOutput position
  | none => .error (.notNextState signal)

/-- Whether the network has no registers. -/
def isCombinational (g : Graph) : Bool :=
  g.inputs.length == g.primaryInputCount && g.outputs.length == g.primaryOutputCount

/-- Whether the name is that of a constant. -/
def isConstant (n : NodeId) : Bool := n ≤ 1

/-- The value of a constant; every other name is read as false. -/
def constantValue (n : NodeId) : Bool := n == 1

/-- Whether the node is a combinational input. -/
def isInput (g : Graph) (n : NodeId) : Bool := g.inputPositions.contains n

/-- Whether the node is a primary input. -/
def isPrimaryInput (g : Graph) (n : NodeId) : Bool :=
  g.inputPositions[n]?.any (· < g.primaryInputCount)

/-- Whether the node is a register output. -/
def isRegisterOutput (g : Graph) (n : NodeId) : Bool :=
  g.inputPositions[n]?.any (g.primaryInputCount ≤ ·)

/-- Whether the name is that of neither a constant nor an input. -/
def isGate (g : Graph) (n : NodeId) : Bool := !isConstant n && !g.isInput n

/-- The gates, in the order of their creation. -/
def gates (g : Graph) : List NodeId := g.nodeIds.filter g.isGate

/-- The number of gates. -/
def gateCount (g : Graph) : Nat := g.size - g.inputs.length - 2

end LogicNet.Graph
