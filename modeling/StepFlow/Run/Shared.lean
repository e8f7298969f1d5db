/-
What the walks of a run share.

All branches count their steps together, and each writes into the same journal. A token belongs to a branch and is
named by its path. It counts as cancelled when it, or the token of a branch around it, has been cancelled; so
cancelling a branch reaches everything inside it and nothing beside it.
-/
import StepFlow.Run.Failure
import StepFlow.Run.Launch

namespace StepFlow

/-- an entry of the journal of a run -/
inductive Event where
  /-- a step was started under this number -/
  | started (branch : Path) (node : NodeId) (step : Nat)
  /-- a step ended by itself -/
  | returned (branch : Path) (node : NodeId) (completion : Completion)
  /-- an advancer of `source` delivered a value to its target -/
  | moved (branch : Path) (source : NodeId) (advancer : Advancer) (delivered : Value)
  /-- a branch was started for each of the advancers at these positions -/
  | split (branch : Path) (node : NodeId) (fired : List Nat)
  /-- the walk of a branch came to its end -/
  | ended (branch : Path) (ending : Ending)

/-- what the walks of a run share -/
structure Shared where
  /-- the number of step numbers drawn so far -/
  drawn : Nat := 0
  /-- the number of tasks started so far -/
  spawned : Nat := 0
  /-- the branches whose tokens have been cancelled themselves -/
  cancelled : List Path := []
  /-- what has happened, latest first -/
  journal : List Event := []

namespace Shared

def record (shared : Shared) (event : Event) : Shared :=
  { shared with journal := event :: shared.journal }

def cancel (shared : Shared) (branch : Path) : Shared :=
  { shared with cancelled := branch :: shared.cancelled }

/-- whether the token of a branch counts as cancelled -/
def isCancelled (shared : Shared) (branch : Path) : Bool :=
  shared.cancelled.any fun path => path.isPrefixOf branch

/-- Cancels the token that a step on `branch` means by a scope. The caller's token governs only a run given to it. -/
def cancelScope (shared : Shared) (control : Control) (branch : Path) : Scope → Shared
  | .branch => shared.cancel branch
  | .caller =>
    match control with
    | .own => shared
    | .caller _ => shared.cancel []

end Shared

end StepFlow
