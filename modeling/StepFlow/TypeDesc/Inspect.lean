/-
The one-line description of a type: its name in quotes, its parameters and its supertypes, at every depth.
-/
import StepFlow.Text.Quoted
import StepFlow.TypeDesc.Basic

namespace StepFlow.TypeDesc

mutual

/-- the one-line description of a type -/
def inspect : TypeDesc → String
  | ⟨name, params, supertypes⟩ =>
    "TypeDescriptor \x7b name: " ++ Text.quoted name ++ ", params: [" ++ String.intercalate ", " (inspectEach params)
      ++ "], supertypes: [" ++ String.intercalate ", " (inspectEach supertypes) ++ "] \x7d"

def inspectEach : List TypeDesc → List String
  | [] => []
  | type :: rest => inspect type :: inspectEach rest

end

end StepFlow.TypeDesc
