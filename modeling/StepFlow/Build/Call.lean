/-
Assembling a graph call by call.

A build is a list of calls, starting from the empty graph. Each call is answered with the graph after it or refused; a
refusal leaves no graph behind. Advancers may name targets that are registered later. Under strict attachment an
advancer that does not fit is refused when it is attached, or when its late target is registered.
-/
import StepFlow.Build.Error
import StepFlow.Orchestration.Basic
import StepFlow.Validation.Fit

namespace StepFlow

/-- one call of a build -/
inductive Call where
  | addNode (node : Node)
  | addAdvancer (source : NodeId) (advancer : Advancer)
  | setEntry (id : NodeId)
  | setResult (id : NodeId)
  | setContract (contract : Contract)
  | setStrict (strict : Bool)

namespace Orchestration

/-- the first issue of an advancer that waits for `node` and does not fit it -/
def pendingMisfit (graph : Orchestration) (node : Node) : Option Issue :=
  graph.nodes.findSome? fun source =>
    source.advancers.findSome? fun advancer =>
      if advancer.target = node.id then advancer.misfit source node else none

/-- Registers a node with the advancers that it carries. -/
def addNode (graph : Orchestration) (node : Node) : Except BuildError Orchestration :=
  if graph.contains node.id then .error (.duplicateNode node.id)
  else if node.input.isUndeclared then .error (.undeclaredType node.id .input)
  else if node.output.isUndeclared then .error (.undeclaredType node.id .output)
  else
    match if graph.strict then graph.pendingMisfit node else none with
    | some issue => .error (.incompatibleAdvancer issue)
    | none => .ok { graph with nodes := graph.nodes ++ [node] }

/-- the issue of an advancer between two registered nodes that it does not fit -/
def attachmentMisfit (graph : Orchestration) (source : NodeId) (advancer : Advancer) : Option Issue := do
  let sourceNode ← graph.node? source
  let targetNode ← graph.node? advancer.target
  advancer.misfit sourceNode targetNode

/-- Attaches an advancer at the end of the advancers of its source. -/
def addAdvancer (graph : Orchestration) (source : NodeId) (advancer : Advancer) : Except BuildError Orchestration :=
  match if graph.strict then graph.attachmentMisfit source advancer else none with
  | some issue => .error (.incompatibleAdvancer issue)
  | none =>
    if graph.contains source then
      .ok { graph with nodes := graph.nodes.map fun node => if node.id = source then node.attach advancer else node }
    else .error (.unknownSource source advancer.target)

def setEntry (graph : Orchestration) (id : NodeId) : Except BuildError Orchestration :=
  if graph.contains id then .ok { graph with entry := some id } else .error (.unknownNode id .entry)

def setResult (graph : Orchestration) (id : NodeId) : Except BuildError Orchestration :=
  if graph.contains id then .ok { graph with result := some id } else .error (.unknownNode id .result)

def apply (graph : Orchestration) : Call → Except BuildError Orchestration
  | .addNode node => graph.addNode node
  | .addAdvancer source advancer => graph.addAdvancer source advancer
  | .setEntry id => graph.setEntry id
  | .setResult id => graph.setResult id
  | .setContract contract => .ok { graph with contract := contract }
  | .setStrict strict => .ok { graph with strict := strict }

/-- the graph after a list of calls, if none is refused -/
def applyAll (graph : Orchestration) (calls : List Call) : Except BuildError Orchestration :=
  calls.foldlM apply graph

/-- the graph that a list of calls builds from nothing -/
def build (calls : List Call) : Except BuildError Orchestration :=
  applyAll {} calls

end Orchestration

end StepFlow
