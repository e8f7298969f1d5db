/-
The DOT text of an orchestration.

One statement for each vertex of the topology, labelled with its name and, on a second line, its types, then one for
each link. The entry is filled green, the result red, an unregistered target is dashed; a link is labelled with the
type that its converter declares and dashed if it has no guard. Names stand in the text as they are.
-/
import StepFlow.Orchestration.Topology

namespace StepFlow.Orchestration

def vertexStyle (graph : Orchestration) (id : NodeId) : String :=
  if graph.entry = some id then " style=\"filled\" fillcolor=\"lightgreen\""
  else if graph.result = some id then " style=\"filled\" fillcolor=\"lightcoral\""
  else if !graph.contains id then " style=\"dashed\""
  else ""

/-- the label of a vertex: its name, and its types if it is registered -/
def vertexLabel (graph : Orchestration) (id : NodeId) : String :=
  match graph.node? id with
  | none => id.name
  | some node => s!"{id}\\n{node.input.friendlyName} -> {node.output.friendlyName}"

def vertexLine (graph : Orchestration) (index : Nat) (id : NodeId) : String :=
  s!"    {index} [ label=\"{graph.vertexLabel id}\"{graph.vertexStyle id} ];\n"

/-- the statements of vertices, numbered from `index` -/
def vertexLines (graph : Orchestration) : Nat → List NodeId → String
  | _, [] => ""
  | index, id :: rest => graph.vertexLine index id ++ graph.vertexLines (index + 1) rest

end StepFlow.Orchestration

namespace StepFlow

def Link.attributes (link : Link) : List String :=
  (match link.convertsTo with
    | none => []
    | some type => [s!"label=\"{type}\""])
    ++ if link.guarded then [] else ["style=\"dashed\""]

def Link.line (link : Link) : String :=
  s!"    {link.source} -> {link.target} [ " ++ String.intercalate " " link.attributes ++ " ];\n"

def Orchestration.dot (graph : Orchestration) : String :=
  "digraph \x7b\n    rankdir=TB;\n    node [shape=box, style=rounded];\n"
    ++ graph.vertexLines 0 graph.topology.names ++ "\n"
    ++ String.join (graph.topology.links.map Link.line) ++ "\x7d\n"

end StepFlow
