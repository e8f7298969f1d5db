/-
How a type is handed to a hash function.

A hash function takes texts and lengths one after another. A type hands over its name, the number of its parameters, and
then its parameters in the same way; nothing of its supertypes, at any depth.
-/
import StepFlow.TypeDesc.Basic

namespace StepFlow

/-- what a hash function makes of its state and a text, or a length -/
structure Hasher (State : Type) where
  text : State → String → State
  length : State → Nat → State

namespace TypeDesc

variable {State : Type}

mutual

/-- the state of a hash function after it has taken a type -/
def feed (hasher : Hasher State) : State → TypeDesc → State
  | state, ⟨name, params, _⟩ => feedEach hasher (hasher.length (hasher.text state name) params.length) params

def feedEach (hasher : Hasher State) : State → List TypeDesc → State
  | state, [] => state
  | state, param :: rest => feedEach hasher (feed hasher state param) rest

end

end TypeDesc

end StepFlow
