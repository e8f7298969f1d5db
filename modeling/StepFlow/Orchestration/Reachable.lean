/-
The nodes that can be reached from a node.

`Orchestration.reachableFrom` searches breadth first along the advancers, guarded or not, in their order. Each
registered node is listed once, the start first; targets that are not registered are passed over, and from a start
that is not registered nothing can be reached.
-/
import StepFlow.Orchestration.Basic

namespace StepFlow.Orchestration

/-- a search in progress: the names met so far and the nodes still to be visited, in order -/
structure Frontier where
  met : List NodeId := []
  queue : List Node := []

/-- Puts a node at the end of the queue, unless it has been met. -/
def Frontier.meet (frontier : Frontier) (node : Node) : Frontier :=
  if node.id ∈ frontier.met then frontier
  else { met := node.id :: frontier.met, queue := frontier.queue ++ [node] }

/-- Meets the target of an advancer if it is registered. -/
def follow (graph : Orchestration) (frontier : Frontier) (advancer : Advancer) : Frontier :=
  match graph.node? advancer.target with
  | none => frontier
  | some node => frontier.meet node

/-- Meets the registered targets of advancers in their order. -/
def followAll (graph : Orchestration) (advancers : List Advancer) (frontier : Frontier) : Frontier :=
  advancers.foldl graph.follow frontier

/-- the number of nodes not met yet and of those still to be visited -/
def remaining (graph : Orchestration) (frontier : Frontier) : Nat :=
  graph.countOutside frontier.met + frontier.queue.length

theorem remaining_follow_le (graph : Orchestration) (frontier : Frontier) (advancer : Advancer) :
    graph.remaining (graph.follow frontier advancer) ≤ graph.remaining frontier := by
  unfold follow
  split
  · exact Nat.le_refl _
  · rename_i node found
    unfold Frontier.meet
    split
    · exact Nat.le_refl _
    · rename_i fresh
      have := countOutside_cons_lt (mem_nodes_of_node? found) fresh
      simp only [remaining, List.length_append, List.length_singleton]
      omega

theorem remaining_followAll_le (graph : Orchestration) (advancers : List Advancer) (frontier : Frontier) :
    graph.remaining (graph.followAll advancers frontier) ≤ graph.remaining frontier := by
  induction advancers generalizing frontier with
  | nil => exact Nat.le_refl _
  | cons advancer rest ih => exact Nat.le_trans (ih _) (graph.remaining_follow_le frontier advancer)

/-- the nodes of the queue and those met behind them, in the order of their visits -/
def explore (graph : Orchestration) (frontier : Frontier) : List Node :=
  match _queued : frontier.queue with
  | [] => []
  | node :: rest => node :: graph.explore (graph.followAll node.advancers { frontier with queue := rest })
termination_by graph.remaining frontier
decreasing_by
  have := graph.remaining_followAll_le node.advancers { frontier with queue := rest }
  simp only [remaining, _queued, List.length_cons] at *
  omega

/-- the nodes that can be reached from `start`, breadth first -/
def reachableFrom (graph : Orchestration) (start : NodeId) : List Node :=
  match graph.node? start with
  | none => []
  | some node => graph.explore { met := [node.id], queue := [node] }

/-! ## Going through a search -/

/-- the search from a start before its first visit -/
def seed (graph : Orchestration) (start : NodeId) : Frontier :=
  match graph.node? start with
  | none => {}
  | some node => { met := [node.id], queue := [node] }

/-- The next node, and the search after its visit. -/
def next (graph : Orchestration) (frontier : Frontier) : Option (Node × Frontier) :=
  match frontier.queue with
  | [] => none
  | node :: rest => some (node, graph.followAll node.advancers { frontier with queue := rest })

end StepFlow.Orchestration
