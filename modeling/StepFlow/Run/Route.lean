/-
Where a walk goes from a node.

Once a step has ended, the walk stops there, goes on to one target, or splits into branches. It stops for a failure,
for an output that is not of the declared type, at the result node, whose advancers are not looked at, and where no
advancer fires. An advancer whose target is not registered fails before its converter is run. A guard or a converter
that panics takes the walk down with it.
-/
import StepFlow.Run.Failure
import StepFlow.Run.Launch
import StepFlow.TypeDesc.Admits
import StepFlow.TypeDesc.Display

namespace StepFlow

/-- what a walk does after a step -/
inductive Route where
  | stop (ending : Ending)
  | move (advancer : Advancer) (delivered : Value)
  | split (value : Value) (fired : List (Nat × Advancer))

/-- the failure of a value that is not of the declared type, if values are checked -/
def Config.violation (config : Config) (node : Node) (port : Port) (value : Value) : Option Failure :=
  let type :=
    match port with
    | .input => node.input
    | .output => node.output
  if config.checkValues && !type.admits value then some (.typeViolation node.id port type.friendlyName value)
  else none

namespace Orchestration

def along (graph : Orchestration) (source : NodeId) (advancer : Advancer) (value : Value) : Route :=
  if graph.contains advancer.target then
    match advancer.deliver value with
    | .error panic => .stop (.panicked panic)
    | .ok (.error error) => .stop (.failed (.conversion source advancer.target error))
    | .ok (.ok delivered) => .move advancer delivered
  else .stop (.failed (.unknownNode source advancer.target))

def route (graph : Orchestration) (node : Node) (branch : Path) (output : Value) : Route :=
  if graph.result = some node.id then .stop (.outputs [⟨node.id, output, branch⟩])
  else
    match node.fired output with
    | .error panic => .stop (.panicked panic)
    | .ok [] =>
      if node.deadEnd then .stop (.outputs [⟨node.id, output, branch⟩]) else .stop (.failed (.deadEnd node.id))
    | .ok [(_, advancer)] => graph.along node.id advancer output
    | .ok fired => .split output fired

end Orchestration

/-- the route of a step that ended -/
def Launch.respond (launch : Launch) (node : Node) (branch : Path) : Completion → Route
  | .panicked panic => .stop (.failed (.panicked node.id panic.text))
  | .failed error => .stop (.failed (.step node.id error))
  | .value output =>
    match launch.config.violation node .output output with
    | some failure => .stop (.failed failure)
    | none => launch.graph.route node branch output

end StepFlow
