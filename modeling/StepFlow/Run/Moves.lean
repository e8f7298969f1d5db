/-
Runs, move by move.

`Walk.turn` is one action anywhere in a tree of walks: of a walk that can act, or of a fan-out that receives a task
which has ended. A schedule is a list of moves, and every list that `RunState.moves` accepts is a possible interleaving
of the branches; a token may be cancelled from outside between any two turns.
-/
import StepFlow.Run.Walk

namespace StepFlow

/-- a place in a tree of walks where something can happen -/
inductive Turn where
  /-- the walk at the root acts -/
  | act
  /-- the fan-out at the root receives the task of a slot, which has ended -/
  | receive (slot : Nat)
  /-- something happens within the task of a slot -/
  | within (slot : Nat) (turn : Turn)
  deriving DecidableEq

/-- The tree and what is shared after a turn, if the turn can be taken. -/
def Walk.turn (launch : Launch) : Turn → Path → Shared → Walk → Option (Shared × Walk)
  | .act, branch, shared, walk => walk.act launch branch shared
  | .receive slot, _, shared, .joining branches pending gather =>
    match branches[slot]? with
    | some ⟨id, _, .ended ending⟩ =>
      if id ∈ pending then some (shared, .joining branches (pending.erase id) (gather.receive id ending)) else none
    | _ => none
  | .within slot turn, branch, shared, .joining branches pending gather =>
    match branches[slot]? with
    | none => none
    | some one =>
      (Walk.turn launch turn (branch ++ [one.index]) shared one.walk).map fun after =>
        (after.1, .joining (branches.set slot { one with walk := after.2 }) pending gather)
  | _, _, _, _ => none

/-- a run in progress -/
structure RunState where
  shared : Shared
  walk : Walk

/-- what can happen to a run: a turn of its walks, or the cancellation of a token from outside -/
inductive Move where
  | turn (turn : Turn)
  | cancel (branch : Path)
  deriving DecidableEq

namespace RunState

def start (launch : Launch) : RunState :=
  { shared := { cancelled := if launch.control = .caller true then [[]] else [] },
    walk :=
      match launch.graph.entry with
      | none => .ended (.failed .noEntry)
      | some entry => .arriving entry launch.input }

def move (launch : Launch) (state : RunState) : Move → Option RunState
  | .turn turn => (state.walk.turn launch turn [] state.shared).map fun after => ⟨after.1, after.2⟩
  | .cancel branch => some { state with shared := state.shared.cancel branch }

def moves (launch : Launch) (state : RunState) (schedule : List Move) : Option RunState :=
  schedule.foldlM (move launch) state

end RunState

end StepFlow
