/-
The indexed topology of an orchestration.

Vertices are numbered: first the registered nodes in the order of registration, then each unregistered target when an
advancer first names it. There is one link for each advancer, in the order of `Orchestration.edges`.
`Topology.isCyclic` peels off, round after round, the vertices without a link to a vertex that is still there; what is
left after as many rounds as there are vertices is not empty exactly when some links lead round in a circle.
-/
import StepFlow.Orchestration.Basic
import StepFlow.TypeDesc.Display

namespace StepFlow

/-- an advancer between numbered vertices -/
structure Link where
  source : Nat
  target : Nat
  /-- the position of the advancer among those of its node -/
  index : Nat
  guarded : Bool
  /-- the friendly name of the type that the converter declares -/
  convertsTo : Option String
  deriving DecidableEq

/-- a graph of numbered vertices with names -/
structure Topology where
  names : List NodeId := []
  links : List Link := []

namespace Topology

def indexOf? (topology : Topology) (id : NodeId) : Option Nat :=
  topology.names.findIdx? fun name => name == id

def name? (topology : Topology) (index : Nat) : Option NodeId :=
  topology.names[index]?

/-- the number of the vertex with that name, and the topology with a new vertex if there was none -/
def vertex (topology : Topology) (id : NodeId) : Nat × Topology :=
  match topology.indexOf? id with
  | some index => (index, topology)
  | none => (topology.names.length, { topology with names := topology.names ++ [id] })

def connect (topology : Topology) (source index : Nat) (advancer : Advancer) : Topology :=
  let (target, grown) := topology.vertex advancer.target
  let link :=
    { source := source, target := target, index := index, guarded := advancer.isGuarded,
      convertsTo := advancer.converter.map fun converter => converter.returns.friendlyName }
  { grown with links := grown.links ++ [link] }

/-- Adds the links of advancers in their order, counted from `index`. -/
def connectAll (source : Nat) : Topology → Nat → List Advancer → Topology
  | topology, _, [] => topology
  | topology, index, advancer :: rest => connectAll source (topology.connect source index advancer) (index + 1) rest

/-- Adds the links of nodes in their order; the first one has the number `source`. -/
def connectNodes : Topology → Nat → List Node → Topology
  | topology, _, [] => topology
  | topology, source, node :: rest => connectNodes (connectAll source topology 0 node.advancers) (source + 1) rest

/-- the vertices with a link to a vertex of the list -/
def trim (topology : Topology) (vertices : List Nat) : List Nat :=
  vertices.filter fun vertex =>
    topology.links.any fun link => link.source == vertex && vertices.contains link.target

/-- what is left of the vertices after a number of rounds -/
def core (topology : Topology) : Nat → List Nat → List Nat
  | 0, vertices => vertices
  | rounds + 1, vertices => core topology rounds (topology.trim vertices)

/-- whether links lead round in a circle -/
def isCyclic (topology : Topology) : Bool :=
  !(topology.core topology.names.length (List.range topology.names.length)).isEmpty

end Topology

namespace Orchestration

/-- the indexed topology of the graph -/
def topology (graph : Orchestration) : Topology :=
  Topology.connectNodes { names := graph.ids } 0 graph.nodes

/-- whether advancers lead round in a circle, whatever their guards -/
def isCyclic (graph : Orchestration) : Bool :=
  graph.topology.isCyclic

end Orchestration

end StepFlow
