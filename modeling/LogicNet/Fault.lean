import LogicNet.Cube.Basic
import LogicNet.Gate.Basic
import LogicNet.Node
import LogicNet.Terminal

/-!
The ways in which a call can break the rules of the library, one constructor for each cause, and
their wording. The last four constructors are not about an argument: a search that meets a name
without a node, a table without an entry for a node that the marks hid from the walk that fills it,
a list of terminals that is shorter than its count, and a counter that is full.
-/

namespace LogicNet

/-- Why a call was refused. -/
inductive Fault where
  /-- A mask of more than 32 places was asked for. -/
  | maskTooWide (width : Nat)
  /-- A cube was to be written over more than 32 places. -/
  | cubeTooWide (width : Nat)
  /-- A truth table of too many variables was asked for. -/
  | tableTooWide (numVars : Nat)
  /-- A row outside a truth table was addressed. -/
  | rowOutOfBounds (row count : Nat)
  /-- The assignments to this many variables are not enumerated. -/
  | tooManyVariables (numVars : Nat)
  | nodeOutOfBounds (node : NodeId) (count : Nat)
  | coverOutOfBounds (cover : CoverId) (count : Nat)
  /-- A primary input was to be created after a register output. -/
  | lateInput
  /-- A primary output was to be created after a register input. -/
  | lateOutput
  /-- A register input was to be created without a register output to pair it with. -/
  | unmatchedRegisterInput (position registerOutputs : Nat)
  /-- Registers were counted while some lack a next-state input. -/
  | unbalancedRegisters (registerOutputs registerInputs : Nat)
  | positionOutOfBounds (terminal : Terminal) (position count : Nat)
  | resetOutOfBounds (position count : Nat)
  /-- The node is not in the list in which its position was asked for. -/
  | notTerminal (terminal : Terminal) (node : NodeId)
  /-- The signal is the next state of no register. -/
  | notNextState (signal : NodeId)
  /-- A cube of a new cover demands a one at a place that it does not care about. -/
  | strayCubeBits (cube : Cube)
  | tooManyChildren (count : Nat)
  | wrongOperandCount (gate : Gate) (count : Nat)
  | nothingToReduce
  /-- A truth table was applied to a list of children of another length. -/
  | wrongTableArity (numVars children : Nat)
  /-- A node was to be copied onto an empty list of children. -/
  | copyWithoutChildren (source : NodeId)
  | tooManyValues (count : Nat)
  | wrongValueCount (node : NodeId) (fanins count : Nat)
  | noFanins (node : NodeId)
  | wrongVectorCount (node : NodeId) (fanins count : Nat)
  | wrongVectorWidth (position width expected : Nat)
  | wrongWordCount (node : NodeId) (fanins count : Nat)
  | wrongInputCount (count inputs : Nat)
  | wrongInputWordCount (count inputs : Nat)
  | selfSubstitution (node : NodeId)
  /-- The replacement depends on the node that it is to replace. -/
  | cyclicSubstitution (old new : NodeId)
  /-- A gate was to be copied before one of its children. -/
  | childNotCopied (child node : NodeId)
  | danglingCover (node : NodeId) (cover : CoverId) (count : Nat)
  | danglingChild (node child : NodeId) (count : Nat)
  | danglingOutput (output : NodeId) (count : Nat)
  /-- The reset values are not as many as the register inputs. -/
  | unmatchedResets
  | excessRegisterInputs (registerInputs registerOutputs : Nat)
  | wrongFanout (node : NodeId) (fanout uses : Nat)
  /-- A search met a name that belongs to no node. -/
  | unknownNode (node : NodeId)
  /-- A table over the nodes of a walk was asked for a node that the walk left out. -/
  | missingEntry (node : NodeId)
  /-- A position below the count of a list of terminals has nothing at it. -/
  | missingTerminal (terminal : Terminal) (position : Nat)
  /-- A 32-bit counter would pass its largest value. -/
  | counterFull
  deriving DecidableEq

namespace Fault

/-- The wording of a fault. -/
def message : Fault → String
  | maskTooWide width => s!"mask width {width} exceeds maximum fanin {maxFanin}"
  | cubeTooWide width => s!"cube width {width} exceeds maximum fanin {maxFanin}"
  | tableTooWide numVars =>
    s!"truth table over {numVars} variables exceeds maximum of {maxTableVars}"
  | rowOutOfBounds row count => s!"truth table index {row} out of bounds for {count} bits"
  | tooManyVariables numVars => s!"assignments: {numVars} variables is too many to enumerate"
  | nodeOutOfBounds node count =>
    s!"NodeRef out of bounds: {node.label} (nodes.len() = {count})"
  | coverOutOfBounds cover count =>
    s!"CoverRef out of bounds: {cover.label} (covers.len() = {count})"
  | lateInput => "create_pi: primary inputs must be created before register outputs"
  | lateOutput => "create_po: primary outputs must be created before register inputs"
  | unmatchedRegisterInput position registerOutputs =>
    s!"create_ri: register input {position} has no matching register output " ++
      s!"({registerOutputs} register outputs)"
  | unbalancedRegisters registerOutputs registerInputs =>
    s!"register output count {registerOutputs} does not match register input count " ++
      s!"{registerInputs}"
  | positionOutOfBounds terminal position count =>
    s!"{terminal.short} index {position} out of bounds ({count} {terminal.name}s)"
  | resetOutOfBounds position count =>
    s!"latch index {position} out of bounds ({count} latches)"
  | notTerminal terminal node =>
    s!"{terminal.short}_index: {node.label} is not a {terminal.name}"
  | notNextState signal => s!"ri_to_ro: {signal.label} does not drive a register input"
  | strayCubeBits cube =>
    s!"insert_cover: cube {cube.label} has pattern bits outside its mask"
  | tooManyChildren count =>
    s!"get_or_create_node: {count} children exceeds maximum fanin {maxFanin}"
  | wrongOperandCount gate count =>
    s!"{gate.name} takes {gate.arity} operands, got {count}"
  | nothingToReduce => "attempted to reduce an empty list of operands"
  | wrongTableArity numVars children =>
    s!"truth table over {numVars} variables used with {children} children"
  | copyWithoutChildren source =>
    s!"clone_node: {source.label} cannot be cloned without children"
  | tooManyValues count => s!"compute: {count} values exceeds maximum fanin {maxFanin}"
  | wrongValueCount node fanins count =>
    s!"compute: {node.label} has {fanins} fanins but got {count} values"
  | noFanins node => s!"compute_vectors: {node.label} has no fanins"
  | wrongVectorCount node fanins count =>
    s!"compute_vectors: {node.label} has {fanins} fanins but got {count} vectors"
  | wrongVectorWidth position width expected =>
    s!"compute_vectors: fanin {position} vector has width {width}, expected {expected}"
  | wrongWordCount node fanins count =>
    s!"compute_words: {node.label} has {fanins} fanins but got {count} words"
  | wrongInputCount count inputs =>
    s!"eval: got {count} input values for {inputs} combinational inputs"
  | wrongInputWordCount count inputs =>
    s!"eval_words: got {count} input words for {inputs} combinational inputs"
  | selfSubstitution node => s!"substitute_node: cannot substitute {node.label} by itself"
  | cyclicSubstitution old new =>
    s!"substitute_node: {new.label} depends on {old.label}; " ++
      "substitution would create a cycle"
  | childNotCopied child node =>
    s!"compact: child {child.label} of {node.label} was not mapped before its parent"
  | danglingCover node cover count =>
    s!"Node {node.text}: cover reference {cover.label} out of bounds (covers.len() = {count})"
  | danglingChild node child count =>
    s!"Node {node.text}: child {child.label} out of bounds (nodes.len() = {count})"
  | danglingOutput output count =>
    s!"Output {output.label} out of bounds (nodes.len() = {count})"
  | unmatchedResets => "register input count does not match latch reset count"
  | excessRegisterInputs registerInputs registerOutputs =>
    s!"{registerInputs} register inputs but only {registerOutputs} register outputs"
  | wrongFanout node fanout uses =>
    s!"Node {node.text}: fanout {fanout} does not match use count {uses}"
  | unknownNode node => s!"a search met {node.label}, which does not exist"
  | missingEntry node => s!"no entry for {node.label}"
  | missingTerminal terminal position => s!"no {terminal.name} at {position}"
  | counterFull => "a 32-bit counter is full"

end Fault
end LogicNet
