/-
What a step does while it runs.

An activity is a tree of the actions that others can notice: the step suspends itself, cancels a token, looks whether
its own token has been cancelled, or ends. Everything between two such actions is the step's own business.
`Activity.alone` runs an activity with nobody else around and tells how it ends, if it ends; `Activity.undisturbed`
tells how it ends while no token is cancelled.
-/
import StepFlow.Advancer
import StepFlow.Run.Output
import StepFlow.Step.Error

namespace StepFlow

/-- how a step ended -/
inductive Completion where
  | value (value : Value)
  | failed (error : StepError)
  | panicked (panic : Panic)

/-- which cancellation token a step cancels: that of whoever started the run, or that of its own branch -/
inductive Scope where
  | caller
  | branch
  deriving DecidableEq

/-- the noticeable actions of a step -/
inductive Activity where
  | finish (completion : Completion)
  | pause (next : Activity)
  | cancel (scope : Scope) (next : Activity)
  | observe (next : Bool → Activity)
  | hang

instance : Inhabited Activity := ⟨.hang⟩

namespace Activity

def done (value : Value) : Activity := .finish (.value value)

def fail (error : StepError) : Activity := .finish (.failed error)

def panic (panic : Panic) : Activity := .finish (.panicked panic)

/-- Suspends the step the given number of times, then goes on. -/
def pauses : Nat → Activity → Activity
  | 0, next => next
  | times + 1, next => .pause (pauses times next)

/-- Goes on with the value of the first activity; a failure or a panic ends both. -/
def andThen : Activity → (Value → Activity) → Activity
  | .finish (.value value), next => next value
  | .finish completion, _ => .finish completion
  | .pause activity, next => .pause (activity.andThen next)
  | .cancel scope activity, next => .cancel scope (activity.andThen next)
  | .observe activity, next => .observe fun cancelled => (activity cancelled).andThen next
  | .hang, _ => .hang

/-- How the activity ends when nobody else acts. There is one token then, which is both that of the branch and that of
whoever started the step, so either scope cancels it. The flag tells whether it has been cancelled, which by itself
stops nothing. -/
def alone : Bool → Activity → Option Completion
  | _, .finish completion => some completion
  | cancelled, .pause next => alone cancelled next
  | _, .cancel _ next => alone true next
  | cancelled, .observe next => alone cancelled (next cancelled)
  | _, .hang => none

/-- How the activity ends as long as its token counts as live, whatever it cancels itself. -/
def undisturbed : Activity → Option Completion
  | .finish completion => some completion
  | .pause next => undisturbed next
  | .cancel _ next => undisturbed next
  | .observe next => undisturbed (next false)
  | .hang => none

end Activity

/-- what a step is told when it is started -/
structure StepContext where
  node : NodeId
  step : Nat
  branch : Path

/-- a typed unit of work -/
structure Step where
  input : TypeDesc
  output : TypeDesc
  run : Value → StepContext → Activity

namespace Step

/-- the step that returns its input -/
def identity (type : TypeDesc) : Step :=
  { input := type, output := type, run := fun value _ => .done value }

/-- Starts the step by itself, as the first step, with a token that has not been cancelled. -/
def invoke (step : Step) (node : NodeId) (branch : Path) (value : Value) : Option Completion :=
  (step.run value { node := node, step := 1, branch := branch }).alone false

end Step

end StepFlow
