/-
Nodes: the vertices of a graph.

A node has a name, a step with its declared types, and its advancers in the order in which they were attached, which
is the order in which guards are evaluated. `Node.fired` lists the advancers that fire on an output, with their
positions: the first one, or all of them if the node advances in parallel. Guards after the first one that accepts are
evaluated only in parallel; a guard that panics ends the evaluation.
-/
import StepFlow.Step.Activity

namespace StepFlow

/-- a named vertex of a graph -/
structure Node where
  id : NodeId
  step : Step
  advancers : List Advancer := []
  deadEnd : Bool := false
  parallel : Bool := false

namespace Node

def input (node : Node) : TypeDesc := node.step.input

def output (node : Node) : TypeDesc := node.step.output

def attach (node : Node) (advancer : Advancer) : Node :=
  { node with advancers := node.advancers ++ [advancer] }

/-- the first advancer that fires, with its position, counted from `index` -/
def firstFiring (value : Value) : Nat → List Advancer → Except Panic (List (Nat × Advancer))
  | _, [] => .ok []
  | index, advancer :: rest => do
    if ← advancer.fires value then return [(index, advancer)] else firstFiring value (index + 1) rest

/-- all advancers that fire, with their positions, counted from `index` -/
def allFiring (value : Value) : Nat → List Advancer → Except Panic (List (Nat × Advancer))
  | _, [] => .ok []
  | index, advancer :: rest => do
    if ← advancer.fires value then
      let others ← allFiring value (index + 1) rest
      return (index, advancer) :: others
    else allFiring value (index + 1) rest

/-- the advancers that an output takes, with their positions -/
def fired (node : Node) (value : Value) : Except Panic (List (Nat × Advancer)) :=
  if node.parallel then allFiring value 0 node.advancers else firstFiring value 0 node.advancers

end Node

end StepFlow
