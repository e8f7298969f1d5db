/-
Gathering the results of a fan-out.

Each branch runs as a task with an identity of its own, and the tasks may end in any order. A gather has one slot for
each advancer that fired, in the order of firing, and a table that tells which slot a task fills. A panic of a task
becomes a failure of the node that the task's advancer targets. At the end the slots are merged in their order: the
outputs of all branches, and, if some branch failed, its failure beside what did finish.
-/
import StepFlow.Run.Failure

namespace StepFlow

/-- the identity of a task within a run -/
abbrev TaskId := Nat

/-- what a branch hands to its fan-out -/
abbrev BranchResult := Except Failure (List Output)

/-- the results of a fan-out while they come in -/
structure Gather where
  source : NodeId
  /-- the target of the advancer of each slot -/
  targets : List NodeId
  /-- the slot that each task fills -/
  table : List (TaskId × Nat)
  slots : List (Option BranchResult)

namespace Gather

/-- the gather of a fan-out whose tasks have just been started -/
def start (source : NodeId) (targets : List NodeId) (tasks : List TaskId) : Gather :=
  { source := source, targets := targets, table := tasks.zipIdx, slots := tasks.map fun _ => none }

/-- the slot that a task fills -/
def slot? (gather : Gather) (task : TaskId) : Option Nat :=
  gather.table.lookup task

/-- the node that a panic of the task is attributed to -/
def blamed (gather : Gather) (task : TaskId) : NodeId :=
  ((gather.slot? task).bind fun slot => gather.targets[slot]?).getD gather.source

/-- the result of a task that ended -/
def resultOf (gather : Gather) (task : TaskId) : Ending → BranchResult
  | .outputs outputs => .ok outputs
  | .failed failure => .error failure
  | .panicked panic => .error (.panicked (gather.blamed task) panic.text)

/-- Puts the result of a task that ended into its slot. -/
def receive (gather : Gather) (task : TaskId) (ending : Ending) : Gather :=
  match gather.slot? task with
  | none => gather
  | some slot => { gather with slots := gather.slots.set slot (some (gather.resultOf task ending)) }

/-- the outputs that a branch contributes, whether it succeeded or not -/
def contributed : BranchResult → List Output
  | .ok outputs => outputs
  | .error failure => failure.partialOutputs

def failure? : BranchResult → Option Failure
  | .ok _ => none
  | .error failure => some failure

/-- the ending of a fan-out whose branches had these results, in the order of firing -/
def merge (source : NodeId) (results : List BranchResult) : Ending :=
  let completed := results.flatMap contributed
  let failures := results.filterMap failure?
  if failures.isEmpty then .outputs completed else .failed (.parallelBranches source failures completed)

/-- the ending of the fan-out, from the slots that are filled -/
def ending (gather : Gather) : Ending :=
  merge gather.source (gather.slots.filterMap id)

end Gather

end StepFlow
