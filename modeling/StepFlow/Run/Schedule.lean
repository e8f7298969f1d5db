/-
Running in declaration order.

Of all the turns that a run could take, `RunState.next?` takes the one furthest to the left: a branch goes on until it
ends or waits, and only then the branch of the next advancer does. `RunState.advance` takes a number of such turns, or
fewer if no more are possible.
-/
import StepFlow.Run.Outcome

namespace StepFlow

mutual

/-- the leftmost turn that can be taken in a tree of walks -/
def Walk.leftmost (launch : Launch) (branch : Path) (shared : Shared) : Walk → Option Turn
  | .joining branches pending _ =>
    if pending.isEmpty then some .act else leftmostAmong launch branch shared pending 0 branches
  | walk => if (walk.act launch branch shared).isSome then some .act else none

/-- the leftmost turn that can be taken in the branches from `slot` on -/
def leftmostAmong (launch : Launch) (branch : Path) (shared : Shared) (pending : List TaskId) :
    Nat → List (Branch Walk) → Option Turn
  | _, [] => none
  | slot, ⟨id, index, walk⟩ :: rest =>
    if id ∈ pending then
      match walk with
      | .ended _ => some (.receive slot)
      | walk =>
        match Walk.leftmost launch (branch ++ [index]) shared walk with
        | some turn => some (.within slot turn)
        | none => leftmostAmong launch branch shared pending (slot + 1) rest
    else leftmostAmong launch branch shared pending (slot + 1) rest

end

namespace RunState

/-- the run after its leftmost turn, if it can take one -/
def next? (launch : Launch) (state : RunState) : Option RunState :=
  (state.walk.leftmost launch [] state.shared).bind fun turn => state.move launch (.turn turn)

/-- the run after a number of leftmost turns, or after as many as it can take -/
def advance (launch : Launch) : Nat → RunState → RunState
  | 0, state => state
  | turns + 1, state =>
    match state.next? launch with
    | none => state
    | some next => advance launch turns next

end RunState

end StepFlow
