/-
Failures of steps, and what is said about failures in general.

A step fails because its input has the wrong shape, because data could not be encoded or decoded, or for a reason of
its own. An encoding failure may have a chain of causes. `Diagnostic` holds the fixed code and the advice that belong
to a kind of failure.
-/

namespace StepFlow

/-- the fixed code of a kind of failure and the advice that goes with it -/
structure Diagnostic where
  code : Option String := none
  help : Option String := none
  deriving DecidableEq

/-- why a step failed -/
inductive StepError where
  | missingInput (what : String)
  | encoding (text : String) (causes : List String)
  | other (text : String)
  deriving DecidableEq

namespace StepError

def message : StepError → String
  | .missingInput what => "missing expected input: " ++ what
  | .encoding text _ => text
  | .other text => text

/-- the texts of the causes behind the failure, nearest first -/
def causes : StepError → List String
  | .encoding _ causes => causes
  | _ => []

def diagnostic : StepError → Diagnostic
  | .missingInput _ =>
    ⟨some "stepgraph::step::missing_input", some "Check that the previous node produced the required data."⟩
  | .encoding _ _ => ⟨some "stepgraph::step::serde_json", none⟩
  | .other _ => ⟨some "stepgraph::step::other", none⟩

end StepError

end StepFlow
