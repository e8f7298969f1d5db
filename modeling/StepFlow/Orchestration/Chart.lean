/-
The topology of a graph with a table of its numbers.

While a topology is drawn up, the numbers of its names are kept in a table beside it, which has no order of its own: a vertex
that is added goes to the end of the topology, and its number into the table. A registered node gets its number first; an
unregistered target gets one when an advancer names it before the table holds it. The source of an advancer is looked up in
the table. If it were not there, no chart would come out.
-/
import Mathlib.Data.Finmap
import StepFlow.Orchestration.Topology

namespace StepFlow

/-- a topology, and the numbers of its names as they have been kept -/
structure Chart where
  topology : Topology := {}
  numbers : Finmap (fun _ : NodeId => Nat) := ∅

namespace Chart

def indexOf? (chart : Chart) (id : NodeId) : Option Nat :=
  chart.numbers.lookup id

def nameAt? (chart : Chart) (index : Nat) : Option NodeId :=
  chart.topology.name? index

def add (chart : Chart) (id : NodeId) : Chart :=
  { topology := { chart.topology with names := chart.topology.names ++ [id] },
    numbers := chart.numbers.insert id chart.topology.names.length }

/-- the number that is kept for a name, and the chart with a new vertex if there was none -/
def vertex (chart : Chart) (id : NodeId) : Nat × Chart :=
  match chart.indexOf? id with
  | some index => (index, chart)
  | none => (chart.topology.names.length, chart.add id)

def connect (chart : Chart) (source index : Nat) (advancer : Advancer) : Chart :=
  let (target, grown) := chart.vertex advancer.target
  let link :=
    { source := source, target := target, index := index, guarded := advancer.isGuarded,
      convertsTo := advancer.converter.map fun converter => converter.returns.friendlyName }
  { grown with topology := { grown.topology with links := grown.topology.links ++ [link] } }

/-- Adds the links of advancers in their order, counted from `index`. -/
def connectAll (source : Nat) : Chart → Nat → List Advancer → Chart
  | chart, _, [] => chart
  | chart, index, advancer :: rest => connectAll source (chart.connect source index advancer) (index + 1) rest

/-- Adds the links of a node, if its number is kept. -/
def connectNode (chart : Chart) (node : Node) : Option Chart :=
  match chart.indexOf? node.id with
  | none => none
  | some source => some (connectAll source chart 0 node.advancers)

end Chart

/-- the chart of a graph, unless a node without a number is met -/
def Orchestration.chart (graph : Orchestration) : Option Chart :=
  graph.nodes.foldlM Chart.connectNode (graph.ids.foldl Chart.add {})

end StepFlow
