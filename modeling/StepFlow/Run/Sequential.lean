/-
Sequential evaluation.

The plain reading of a graph, without tasks, tokens or a limit: run the step of a node, then stop, go on to the one
target, or evaluate the branches one after another and combine their endings. It gives the number of steps that were
attempted and the ending. Each level of the evaluation takes one unit of fuel; too little fuel, or a step that never
ends, gives nothing.
-/
import StepFlow.Run.Gather
import StepFlow.Run.Route

namespace StepFlow

/-- the number of steps attempted so far, and how the walk ended -/
structure Tally where
  steps : Nat
  ending : Ending

namespace Sequential

/-- what a branch to `target` hands to its fan-out -/
def branchResult (target : NodeId) : Ending → BranchResult
  | .outputs outputs => .ok outputs
  | .failed failure => .error failure
  | .panicked panic => .error (.panicked target panic.text)

/-- Evaluates branches one after another, counting on from `steps`. -/
def branches (visit : Nat → Nat × Advancer → Option Tally) :
    Nat → List (Nat × Advancer) → Option (Nat × List BranchResult)
  | steps, [] => some (steps, [])
  | steps, one :: rest => do
    let first ← visit steps one
    let others ← branches visit first.steps rest
    return (others.1, branchResult one.2.target first.ending :: others.2)

mutual

/-- Evaluates a walk that arrives at a node, counting on from `steps`. -/
def walk (launch : Launch) : Nat → Nat → Path → NodeId → Value → Option Tally
  | 0, _, _, _, _ => none
  | fuel + 1, steps, branch, target, value =>
    match launch.graph.node? target with
    | none => some ⟨steps, .failed (.unknownNode target target)⟩
    | some node =>
      match launch.config.violation node .input value with
      | some failure => some ⟨steps + 1, .failed failure⟩
      | none => do
        let context := { node := node.id, step := steps + 1, branch := branch }
        let completion ← (node.step.run value context).undisturbed
        follow launch fuel (steps + 1) branch node.id (launch.respond node branch completion)

/-- Evaluates a route from `source`. -/
def follow (launch : Launch) : Nat → Nat → Path → NodeId → Route → Option Tally
  | _, steps, _, _, .stop ending => some ⟨steps, ending⟩
  | 0, _, _, _, _ => none
  | fuel + 1, steps, branch, _, .move advancer delivered => walk launch fuel steps branch advancer.target delivered
  | fuel + 1, steps, branch, source, .split value fired => do
    let visit := fun steps (one : Nat × Advancer) =>
      follow launch fuel steps (branch ++ [one.1]) source (launch.graph.along source one.2 value)
    let joined ← branches visit steps fired
    return ⟨joined.1, Gather.merge source joined.2⟩

end

/-- Evaluates the whole run. -/
def run (launch : Launch) (fuel : Nat) : Option Tally :=
  match launch.graph.entry with
  | none => some ⟨0, .failed .noEntry⟩
  | some entry => walk launch fuel 0 [] entry launch.input

end Sequential

end StepFlow
