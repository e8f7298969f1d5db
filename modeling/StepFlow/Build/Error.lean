/-
Refusals while a graph is assembled.

A build call is refused for a name that is taken, a type that is not declared, a node that is not registered, or,
under strict attachment, an advancer that does not fit.
-/
import StepFlow.Step.Error
import StepFlow.Validation.Issue

namespace StepFlow

/-- what a node is designated as -/
inductive Role where
  | entry
  | result
  deriving DecidableEq

def Role.text : Role → String
  | .entry => "entry"
  | .result => "result"

/-- why a build call was refused -/
inductive BuildError where
  | duplicateNode (id : NodeId)
  | undeclaredType (id : NodeId) (port : Port)
  | unknownSource (source target : NodeId)
  | unknownNode (id : NodeId) (role : Role)
  | incompatibleAdvancer (issue : Issue)
  deriving DecidableEq

namespace BuildError

def message : BuildError → String
  | .duplicateNode id => s!"node '{id}' is already registered"
  | .undeclaredType id port => s!"node '{id}' has no declared {port.text} type"
  | .unknownSource source target =>
    s!"cannot attach advancer to '{target}': source node '{source}' is not registered"
  | .unknownNode id role => s!"cannot use '{id}' as the {role.text} node: it is not registered"
  | .incompatibleAdvancer issue => s!"incompatible advancer: {issue.message}"

def diagnostic : BuildError → Diagnostic
  | .duplicateNode _ =>
    ⟨some "stepgraph::graph::duplicate_node", some "Node names must be unique within one orchestration."⟩
  | .undeclaredType _ _ =>
    ⟨some "stepgraph::graph::undeclared_type",
      some "Return a named TypeDescriptor from the runnable's input_type/output_type."⟩
  | .unknownSource _ _ =>
    ⟨some "stepgraph::graph::unknown_source",
      some "Register the source node with add_node before attaching advancers to it."⟩
  | .unknownNode _ _ => ⟨some "stepgraph::graph::unknown_node", none⟩
  | .incompatibleAdvancer _ =>
    ⟨some "stepgraph::graph::incompatible_advancer",
      some "Use a converting advancer whose converter returns the target's input type."⟩

end BuildError

end StepFlow
