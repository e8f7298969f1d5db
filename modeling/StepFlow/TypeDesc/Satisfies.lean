/-
When a value declared as one type may be supplied where another type is required.

A candidate satisfies what is expected if both are the same type, if the top type is expected, if both apply one name
to equally many parameters, at least one, that satisfy each other in turn, or if some supertype that the candidate
declares satisfies it. There is no numeric widening.
-/
import StepFlow.TypeDesc.Basic

namespace StepFlow.TypeDesc

mutual

/-- whether a value declared as the first type may be supplied where the second is required -/
def satisfies : TypeDesc → TypeDesc → Bool
  | ⟨name, params, supertypes⟩, expected =>
    same ⟨name, params, supertypes⟩ expected || expected.isAny
      || (name == expected.name && !params.isEmpty && satisfyEach params expected.params)
      || anySatisfies supertypes expected

/-- whether two parameter lists are equally long and satisfy each other in turn -/
def satisfyEach : List TypeDesc → List TypeDesc → Bool
  | [], [] => true
  | param :: rest, expected :: others => satisfies param expected && satisfyEach rest others
  | _, _ => false

/-- whether one of the types satisfies what is expected -/
def anySatisfies : List TypeDesc → TypeDesc → Bool
  | [], _ => false
  | supertype :: rest, expected => satisfies supertype expected || anySatisfies rest expected

end

end StepFlow.TypeDesc
