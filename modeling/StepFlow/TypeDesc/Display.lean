/-
The written name of a type.

A type is written as its name, followed by its parameters between angle brackets if it has any; the names that stand in a
written name are those of the type and of its parameters, at every depth (`names`). For messages an undeclared type has a
written name of its own.
-/
import StepFlow.TypeDesc.Basic

namespace StepFlow.TypeDesc

mutual

/-- the name of a type with its parameters, at every depth -/
def display : TypeDesc → String
  | ⟨name, [], _⟩ => name
  | ⟨name, param :: rest, _⟩ => name ++ "<" ++ display param ++ displayRest rest ++ ">"

/-- the parameters after the first one, each after a comma -/
def displayRest : List TypeDesc → String
  | [] => ""
  | param :: rest => ", " ++ display param ++ displayRest rest

end

mutual

/-- the names that stand in the written name of a type -/
def names : TypeDesc → List String
  | ⟨name, params, _⟩ => name :: namesEach params

/-- the names that stand in the written names of types -/
def namesEach : List TypeDesc → List String
  | [] => []
  | param :: rest => names param ++ namesEach rest

end

/-- the name of a type as messages show it -/
def friendlyName (type : TypeDesc) : String :=
  if type.isUndeclared then "<undeclared>" else type.display

end StepFlow.TypeDesc
