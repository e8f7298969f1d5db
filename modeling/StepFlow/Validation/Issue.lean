/-
Findings about a graph.

An issue is an error, which makes a graph invalid, or a warning, which never does. `Issue.message` is its text. Types
appear in issues by their friendly names.
-/
import StepFlow.NodeId

namespace StepFlow

/-- the side of a node that a declared type belongs to -/
inductive Port where
  | input
  | output
  deriving DecidableEq

def Port.text : Port → String
  | .input => "input"
  | .output => "output"

/-- whether an issue makes a graph invalid -/
inductive Severity where
  | error
  | warning
  deriving DecidableEq

/-- a finding about a graph -/
inductive Issue where
  | missingEntry
  | noAdvancers (node : NodeId)
  | missingType (node : NodeId) (port : Port)
  | missingTarget (source : NodeId) (index : Nat) (target : NodeId)
  | directTypeMismatch (source target : NodeId) (output input : String)
  | converterTypeMismatch (source target : NodeId) (returns input : String)
  | entryContractMismatch (entry : NodeId) (declared input : String)
  | resultContractMismatch (result : NodeId) (output declared : String)
  | unguardedAdvancer (source : NodeId) (index : Nat) (target : NodeId)
  | unreachable (node entry : NodeId)
  | missingResult
  deriving DecidableEq

namespace Issue

def severity : Issue → Severity
  | .unguardedAdvancer _ _ _ => .warning
  | .unreachable _ _ => .warning
  | .missingResult => .warning
  | _ => .error

def message : Issue → String
  | .missingEntry => "orchestration has no entry node; set one before validating"
  | .noAdvancers node => s!"node '{node}' has no advancers and does not allow dead ends"
  | .missingType node port => s!"node '{node}' has no declared {port.text} type"
  | .missingTarget source index target =>
    s!"advancer #{index} from '{source}' targets '{target}', which is not a registered node"
  | .directTypeMismatch source target output input =>
    s!"direct advancer from '{source}' to '{target}' passes {output} but '{target}' expects {input}; "
      ++ s!"use a converting advancer that returns {input}"
  | .converterTypeMismatch source target returns input =>
    s!"converter on advancer from '{source}' to '{target}' returns {returns} but '{target}' expects {input}"
  | .entryContractMismatch entry declared input =>
    s!"orchestration input type {declared} does not satisfy entry node '{entry}' input type {input}"
  | .resultContractMismatch result output declared =>
    s!"result node '{result}' output type {output} does not satisfy orchestration output type {declared}"
  | .unguardedAdvancer source index target =>
    s!"advancer #{index} from '{source}' to '{target}' has no guard and will never fire"
  | .unreachable node entry => s!"node '{node}' is unreachable from entry node '{entry}'"
  | .missingResult => "typed orchestration has no result node; its output type cannot be checked"

end Issue

end StepFlow
