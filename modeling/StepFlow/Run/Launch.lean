/-
What a run is given.

A run walks a graph from its entry with an input, under settings. Its token may be one that it makes for itself, which
nobody outside knows, or one that belongs to whoever starts the run and that may have been cancelled already.
-/
import StepFlow.Orchestration.Basic
import StepFlow.Run.Config

namespace StepFlow

/-- who may cancel a run from outside, and whether that has been done before it starts -/
inductive Control where
  | own
  | caller (cancelled : Bool)
  deriving DecidableEq

/-- everything that a run depends on -/
structure Launch where
  graph : Orchestration
  config : Config := {}
  input : Value
  control : Control := .own

end StepFlow
