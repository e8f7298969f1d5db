/-
What a run returns.

A run whose walk has ended either succeeded, with the number of its steps and its outputs, or failed, or was taken
down by a panic outside every fan-out. The final value of a success is that of the first output of the result node, or
of the first output if none came from there.
-/
import StepFlow.Run.Moves

namespace StepFlow

/-- a run that succeeded -/
structure Outcome where
  steps : Nat
  outputs : List Output
  result : Option NodeId

namespace Outcome

/-- the value that the run as a whole produced -/
def finalValue (outcome : Outcome) : Option Value :=
  let preferred := outcome.result.bind fun result => outcome.outputs.find? fun output => output.node == result
  (preferred.or outcome.outputs.head?).map Output.value

def values (outcome : Outcome) : List Value :=
  outcome.outputs.map Output.value

end Outcome

/-- how a run came to its end -/
inductive Conclusion where
  | succeeded (outcome : Outcome)
  | failed (failure : Failure)
  | panicked (panic : Panic)

/-- the conclusion of a run whose walk has ended -/
def RunState.conclusion? (launch : Launch) (state : RunState) : Option Conclusion :=
  match state.walk with
  | .ended (.outputs outputs) =>
    some (.succeeded { steps := state.shared.drawn, outputs := outputs, result := launch.graph.result })
  | .ended (.failed failure) => some (.failed failure)
  | .ended (.panicked panic) => some (.panicked panic)
  | _ => none

end StepFlow
