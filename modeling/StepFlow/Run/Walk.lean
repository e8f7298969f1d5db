/-
The walk of a branch, action by action.

A walk is a tree: where it has split, one branch for each advancer that fired, each with a walk of its own. `Walk.act`
is one atomic action of the walk at the root of such a tree.

A walk looks at its token before it draws a step number, again when it starts the step, and whenever the step has been
suspended; what a step does without suspending is not interrupted. A fan-out looks at its token once all of its tasks
have been received, and then merges what they handed in.
-/
import StepFlow.Run.Gather
import StepFlow.Run.Route
import StepFlow.Run.Shared

namespace StepFlow

/-- a branch of a fan-out: the identity of its task, the position of its advancer, and its walk -/
structure Branch (W : Type) where
  id : TaskId
  index : Nat
  walk : W

/-- a walk between two of its actions -/
inductive Walk where
  /-- a task has been started and is about to take its advancer -/
  | crossing (source : NodeId) (advancer : Advancer) (value : Value)
  /-- a value is on its way to a node -/
  | arriving (target : NodeId) (value : Value)
  /-- the token was found live and a step number is to be drawn -/
  | admitted (node : Node) (value : Value)
  /-- the step has its number and is about to start -/
  | ready (node : Node) (step : Nat) (value : Value)
  /-- the step is running -/
  | busy (node : Node) (activity : Activity)
  /-- the step has suspended itself and goes on with the activity -/
  | suspended (node : Node) (activity : Activity)
  /-- the walk has split and waits for the tasks that are still pending -/
  | joining (branches : List (Branch Walk)) (pending : List TaskId) (gather : Gather)
  | ended (ending : Ending)

namespace Walk

def close (branch : Path) (shared : Shared) (ending : Ending) : Shared × Walk :=
  (shared.record (.ended branch ending), .ended ending)

def fail (branch : Path) (shared : Shared) (failure : Failure) : Shared × Walk :=
  close branch shared (.failed failure)

/-- Starts a task for each advancer that fired. -/
def fanOut (branch : Path) (shared : Shared) (source : NodeId) (value : Value) (fired : List (Nat × Advancer)) :
    Shared × Walk :=
  let ids := List.range' shared.spawned fired.length
  let branches := List.zipWith (fun id (one : Nat × Advancer) => ⟨id, one.1, .crossing source one.2 value⟩) ids fired
  let gather := Gather.start source (fired.map fun one => one.2.target) ids
  ({ shared with spawned := shared.spawned + fired.length }.record (.split branch source (fired.map Prod.fst)),
    .joining branches ids gather)

/-- Takes a route from `source`. -/
def follow (branch : Path) (shared : Shared) (source : NodeId) : Route → Shared × Walk
  | .stop ending => close branch shared ending
  | .move advancer delivered =>
    (shared.record (.moved branch source advancer delivered), .arriving advancer.target delivered)
  | .split value fired => fanOut branch shared source value fired

def complete (launch : Launch) (branch : Path) (shared : Shared) (node : Node) (completion : Completion) :
    Shared × Walk :=
  follow branch (shared.record (.returned branch node.id completion)) node.id (launch.respond node branch completion)

/-- The next action of a step that is running. -/
def work (launch : Launch) (branch : Path) (shared : Shared) (node : Node) : Activity → Shared × Walk
  | .finish completion => complete launch branch shared node completion
  | .pause next => (shared, .suspended node next)
  | .cancel scope next => (shared.cancelScope launch.control branch scope, .busy node next)
  | .observe next => (shared, .busy node (next (shared.isCancelled branch)))
  | .hang => (shared, .suspended node .hang)

/-- Draws a step number and checks the input. -/
def draw (launch : Launch) (branch : Path) (shared : Shared) (node : Node) (value : Value) : Shared × Walk :=
  let number := shared.drawn + 1
  let shared := { shared with drawn := number }
  match launch.config.limitBefore number with
  | some limit => fail branch shared (.stepLimitExceeded limit node.id)
  | none =>
    match launch.config.violation node .input value with
    | some failure => fail branch shared failure
    | none => (shared, .ready node number value)

/-- The next action of the walk at the root, if it can act. -/
def act (launch : Launch) (branch : Path) (shared : Shared) : Walk → Option (Shared × Walk)
  | .crossing source advancer value => some (follow branch shared source (launch.graph.along source advancer value))
  | .arriving target value =>
    match launch.graph.node? target with
    | none => some (fail branch shared (.unknownNode target target))
    | some node =>
      if shared.isCancelled branch then some (fail branch shared (.cancelled node.id))
      else some (shared, .admitted node value)
  | .admitted node value => some (draw launch branch shared node value)
  | .ready node step value =>
    if shared.isCancelled branch then some (fail branch shared (.cancelled node.id))
    else
      some (shared.record (.started branch node.id step),
        .busy node (node.step.run value { node := node.id, step := step, branch := branch }))
  | .busy node activity => some (work launch branch shared node activity)
  | .suspended node activity =>
    if shared.isCancelled branch then some (fail branch shared (.cancelled node.id))
    else
      match activity with
      | .hang => none
      | _ => some (shared, .busy node activity)
  | .joining _ pending gather =>
    if pending.isEmpty then
      if shared.isCancelled branch then some (fail branch shared (.cancelled gather.source))
      else some (close branch shared gather.ending)
    else none
  | .ended _ => none

end Walk

end StepFlow
