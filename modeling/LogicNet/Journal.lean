import LogicNet.Cube.Basic
import LogicNet.Gate.Basic
import LogicNet.Node

/-!
What an operation reports while it runs: events delivered to listeners, and notes for a log. Both
are kept in one list, in the order in which they arose.
-/

namespace LogicNet

/-- A change that listeners can hear of. -/
inductive Event where
  /-- A gate was created. -/
  | added (node : NodeId)
  /-- Children of a node were replaced; `before` are its children before that. -/
  | modified (node : NodeId) (before : List NodeId)
  deriving DecidableEq

/-- How much a reader of the log has to care to see a note. -/
inductive Level where
  | info | debug | trace
  deriving DecidableEq

/-- The name of a level, in capitals. -/
def Level.name : Level → String
  | info => "INFO"
  | debug => "DEBUG"
  | trace => "TRACE"

/-- Whether a log that goes down to `finest` holds notes of this level. -/
def Level.shownAt : Level → Level → Bool
  | info, _ => true
  | debug, finest => finest != info
  | trace, finest => finest == trace

/-- A fact for the log. -/
inductive Note where
  | primaryInputCreated (node position : Nat)
  | registerOutputCreated (node position : Nat)
  | gateCoverRegistered (gate : Gate) (cover : CoverId)
  /-- A request was met by a node that exists already. -/
  | nodeShared (children : List NodeId) (cover : CoverId) (node : NodeId)
  | nodeCreated (node : NodeId) (childCount : Nat) (cover : CoverId)
  /-- A list of operands was cut in two. -/
  | operandsSplit (count left right : Nat)
  | walked (starts nodes : Nat)
  /-- A cube of a cover accepted a pattern. -/
  | cubeAccepted (pattern : Pattern) (position : Nat) (cube : Cube)
  | substituted (old new : NodeId) (parents references outputs : Nat)
  | compacted (nodesBefore nodesAfter coversBefore coversAfter : Nat)
  | summarized (liveGates gates deepest : Nat)
  deriving DecidableEq

namespace Note

def level : Note → Level
  | primaryInputCreated .. | registerOutputCreated .. | gateCoverRegistered .. => .debug
  | nodeShared .. | nodeCreated .. => .debug
  | operandsSplit .. | walked .. | cubeAccepted .. => .trace
  | substituted .. | compacted .. | summarized .. => .info

/-- The text of the request that a shared node met. -/
def requestText (children : List NodeId) (cover : CoverId) : String :=
  let children := String.intercalate ", " (children.map NodeId.label)
  s!"StrashKey \x7b children: [{children}], cover: {cover.label} \x7d"

/-- The wording of a note. -/
def text : Note → String
  | primaryInputCreated node position =>
    s!"create_pi; {NodeId.text node} is primary input {position}"
  | registerOutputCreated node position =>
    s!"create_ro; {NodeId.text node} is register output {position}"
  | gateCoverRegistered gate cover =>
    s!"primitive_cover_ref; registered {gate.name} as cover {cover}"
  | nodeShared children cover node =>
    s!"get_or_create_node; hashing hit for {requestText children cover} -> {node.text}"
  | nodeCreated node childCount cover =>
    s!"get_or_create_node; created {node.text} with {childCount} children, cover {cover}"
  | operandsSplit count left right =>
    s!"tree_reduce; orig: {count} lhs: {left} rhs: {right}"
  | walked starts nodes => s!"postorder_for_signals; {starts} starts -> {nodes} nodes"
  | cubeAccepted pattern position cube =>
    s!"Cover::evaluate; pattern {pattern.text} matched cube {position} ({cube.label})"
  | substituted old new parents references outputs =>
    s!"substitute_node; {old.text} -> {new.text}: {parents} parents ({references} references), " ++
      s!"{outputs} outputs"
  | compacted nodesBefore nodesAfter coversBefore coversAfter =>
    s!"compact; {nodesBefore} nodes -> {nodesAfter} nodes, " ++
      s!"{coversBefore} covers -> {coversAfter} covers"
  | summarized liveGates gates deepest =>
    s!"get_summary_stats; {liveGates} live gates of {gates}, deepest path {deepest}"

/-- A line of the log: the level and the wording. -/
def line (note : Note) : String := note.level.name ++ " " ++ note.text

end Note

/-- One entry of a journal. A delivery names the subscription whose listener was called. -/
inductive Entry where
  | delivered (subscription : Nat) (event : Event)
  | noted (note : Note)
  deriving DecidableEq

namespace Entry

/-- The delivery that an entry records, if it records one. -/
def delivery? : Entry → Option (Nat × Event)
  | delivered subscription event => some (subscription, event)
  | noted _ => none

/-- The note that an entry records, if it records one. -/
def note? : Entry → Option Note
  | delivered .. => none
  | noted note => some note

end Entry
end LogicNet
