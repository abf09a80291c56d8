import LogicNet.Cover.Text
import LogicNet.Graph.Terminals

/-!
The listing of a graph: its inputs in the heading, then one line for each gate in the order of
creation, whether or not an output depends on it, then one line for each output.
-/

namespace LogicNet.Graph

/-- The line of a gate: its name, its cover over as many inputs as it has children, and those. -/
def gateLine (g : Graph) (n : NodeId) : Except Fault String := do
  let children ← g.children n
  let cover ← (← g.nodeCover n).renderChecked children.length
  let arguments := String.intercalate ", " (children.map NodeId.text)
  return s!"  {n.text} = {cover}({arguments})\n"

/-- The heading of a listing. -/
def heading (g : Graph) : String :=
  let inputs := String.intercalate ", " <|
    g.primaryInputs.map (fun n => "pi " ++ NodeId.text n) ++
    g.registerOutputs.map fun n => "ro " ++ NodeId.text n
  s!"network({inputs}) \x7b\n"

/-- The lines of the outputs. -/
def outputLines (g : Graph) : List String :=
  (g.primaryOutputs.zipIdx.map fun (signal, position) =>
    s!"  po{position} = {NodeId.text signal}\n") ++
  (g.nextStates.zipIdx.map fun (next, position) =>
    s!"  ri{position} = {next.signal.text} reset={next.reset.name}\n")

/-- The listing of a graph. -/
def dump (g : Graph) : Except Fault String := do
  let gateLines ← g.gates.mapM g.gateLine
  return g.heading ++ String.join gateLines ++ String.join g.outputLines ++ "\x7d"

end LogicNet.Graph
