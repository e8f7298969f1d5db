/-
Failures of a run, and how a branch ends.

Nothing is tried again: the first failure of a branch ends it. A fan-out of which some branches failed is itself a
failure, with the failures of its branches and the outputs of those that did finish. A branch ends with outputs, with
a failure, or with a panic that nobody has caught yet.
-/
import StepFlow.Advancer
import StepFlow.Run.Output
import StepFlow.Step.Error
import StepFlow.Validation.Issue
import StepFlow.Value.Compact

namespace StepFlow

/-- why a run failed -/
inductive Failure where
  | noEntry
  | unknownNode (source target : NodeId)
  | step (node : NodeId) (error : StepError)
  | conversion (source target : NodeId) (error : ConversionError)
  | deadEnd (node : NodeId)
  | typeViolation (node : NodeId) (port : Port) (expected : String) (value : Value)
  | stepLimitExceeded (limit : Nat) (node : NodeId)
  | cancelled (node : NodeId)
  | panicked (node : NodeId) (message : String)
  | parallelBranches (node : NodeId) (failures : List Failure) (completed : List Output)
  deriving Inhabited

namespace Failure

def message : Failure → String
  | .noEntry => "orchestration has no entry node"
  | .unknownNode source target => s!"advancer from '{source}' targets unregistered node '{target}'"
  | .step node error => s!"node '{node}' failed: {error.message}"
  | .conversion source target error =>
    s!"advancer from '{source}' to '{target}' could not convert the value: {error.message}"
  | .deadEnd node => s!"node '{node}' has no satisfied advancer and does not allow dead ends"
  | .typeViolation node port expected value => s!"{port.text} of node '{node}' is not a {expected}: {value.compact}"
  | .stepLimitExceeded limit node => s!"step limit of {limit} exceeded before node '{node}'"
  | .cancelled node => s!"walk cancelled at node '{node}'"
  | .panicked node message => s!"node '{node}' panicked: {message}"
  | .parallelBranches node failures _ => s!"{failures.length} of the parallel branches from '{node}' failed"

def diagnostic : Failure → Diagnostic
  | .noEntry =>
    ⟨some "stepgraph::executor::no_entry",
      some "Designate an entry node with GraphBuilder::entry before running."⟩
  | .unknownNode _ _ =>
    ⟨some "stepgraph::executor::unknown_node",
      some "Register the target node, or validate the graph before running it."⟩
  | .step _ _ => ⟨some "stepgraph::executor::step", none⟩
  | .conversion _ _ _ => ⟨some "stepgraph::executor::conversion", none⟩
  | .deadEnd _ =>
    ⟨some "stepgraph::executor::dead_end",
      some "Add an advancer whose guard covers this output, or allow the node to dead-end."⟩
  | .typeViolation _ _ _ _ => ⟨some "stepgraph::executor::type_violation", none⟩
  | .stepLimitExceeded _ _ =>
    ⟨some "stepgraph::executor::step_limit",
      some ("The graph may cycle forever; raise ExecutionConfig::max_steps "
        ++ "if the walk is legitimately long.")⟩
  | .cancelled _ => ⟨some "stepgraph::executor::cancelled", none⟩
  | .panicked _ _ => ⟨some "stepgraph::executor::panicked", none⟩
  | .parallelBranches _ _ _ => ⟨some "stepgraph::executor::parallel_branches", none⟩

/-- the node that a failure is attributed to -/
def node? : Failure → Option NodeId
  | .noEntry => none
  | .unknownNode source _ => some source
  | .step node _ => some node
  | .conversion source _ _ => some source
  | .deadEnd node => some node
  | .typeViolation node _ _ _ => some node
  | .stepLimitExceeded _ node => some node
  | .cancelled node => some node
  | .panicked node _ => some node
  | .parallelBranches node _ _ => some node

/-- the outputs of branches that finished beside a failure -/
def partialOutputs : Failure → List Output
  | .parallelBranches _ _ completed => completed
  | _ => []

/-- the texts of the causes behind a failure, nearest first -/
def causes : Failure → List String
  | .step _ error => error.message :: error.causes
  | .conversion _ _ error => [error.message]
  | _ => []

end Failure

/-- how a branch ended -/
inductive Ending where
  | outputs (outputs : List Output)
  | failed (failure : Failure)
  | panicked (panic : Panic)

end StepFlow
