/-
Outputs of a run.

An output is the value with which one branch of a run ended, the node that produced it and the path of the branch: the
index of the advancer taken at each fan-out, outermost first. A branch that met no fan-out has the empty path.
-/
import StepFlow.NodeId
import StepFlow.Value.Basic

namespace StepFlow

/-- the place of a branch: the advancer taken at each fan-out, outermost first -/
abbrev Path := List Nat

/-- a value with which a branch ended -/
structure Output where
  node : NodeId
  value : Value
  path : Path
  deriving Inhabited

end StepFlow
