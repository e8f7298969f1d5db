/-
Whether an advancer fits the nodes that it joins.

A direct advancer fits when the output type of its source satisfies the input type of its target; a converting one
fits when the type that its converter declares does. What a node leaves undeclared is reported as such and not
compared here; the declared type of a converter always is.
-/
import StepFlow.Node
import StepFlow.TypeDesc.Display
import StepFlow.TypeDesc.Satisfies
import StepFlow.Validation.Issue

namespace StepFlow

/-- the issue of an advancer from `source` that does not fit `target` -/
def Advancer.misfit (advancer : Advancer) (source target : Node) : Option Issue :=
  if target.input.isUndeclared then none
  else
    match advancer.converter with
    | none =>
      if source.output.isUndeclared || source.output.satisfies target.input then none
      else some (.directTypeMismatch source.id target.id source.output.friendlyName target.input.friendlyName)
    | some converter =>
      if converter.returns.satisfies target.input then none
      else some (.converterTypeMismatch source.id target.id converter.returns.friendlyName target.input.friendlyName)

end StepFlow
