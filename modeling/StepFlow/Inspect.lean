/-
One-line descriptions of advancers, steps and nodes.

Functions are not shown; a description says so with two dots.
-/
import StepFlow.Node
import StepFlow.Text.Quoted
import StepFlow.TypeDesc.Inspect

namespace StepFlow

def inspectBool (b : Bool) : String := if b then "true" else "false"

def NodeId.inspect (id : NodeId) : String := "NodeId(" ++ Text.quoted id.name ++ ")"

def Converter.inspect (converter : Converter) : String :=
  "Converter \x7b output_type: " ++ converter.returns.inspect ++ ", .. \x7d"

def Advancer.inspect (advancer : Advancer) : String :=
  let kind :=
    match advancer.converter with
    | none => "Direct"
    | some converter => "Converting(" ++ converter.inspect ++ ")"
  "Advancer \x7b target: " ++ advancer.target.inspect ++ ", guarded: " ++ inspectBool advancer.isGuarded ++ ", kind: "
    ++ kind ++ " \x7d"

def Step.inspect (step : Step) : String :=
  "FnStep \x7b input: " ++ step.input.inspect ++ ", output: " ++ step.output.inspect ++ ", .. \x7d"

def Node.inspect (node : Node) : String :=
  "Node \x7b id: " ++ node.id.inspect ++ ", input_type: " ++ node.input.inspect ++ ", output_type: "
    ++ node.output.inspect ++ ", advancers: [" ++ String.intercalate ", " (node.advancers.map Advancer.inspect)
    ++ "], allow_dead_end: " ++ inspectBool node.deadEnd ++ ", allow_parallel_advances: " ++ inspectBool node.parallel
    ++ ", .. \x7d"

end StepFlow
