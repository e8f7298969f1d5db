/-
Orchestrations: graphs of typed nodes joined by advancers.

An orchestration holds its nodes in the order in which they were registered, the nodes designated as entry and result,
and an optional contract on the types of the whole. An advancer may name a target that is not registered. Nodes are
looked up by name (`Orchestration.node?`); `Orchestration.edges` lists every advancer with the node that owns it.
-/
import StepFlow.Node

namespace StepFlow

/-- what an orchestration declares about its input and output -/
inductive Contract where
  | untyped
  | typed (input output : TypeDesc)

/-- a graph of typed nodes -/
structure Orchestration where
  nodes : List Node := []
  entry : Option NodeId := none
  result : Option NodeId := none
  contract : Contract := .untyped
  /-- whether advancers that do not fit are refused while the graph is assembled -/
  strict : Bool := false

namespace Orchestration

def node? (graph : Orchestration) (id : NodeId) : Option Node :=
  graph.nodes.find? fun node => node.id == id

def contains (graph : Orchestration) (id : NodeId) : Bool :=
  (graph.node? id).isSome

/-- the names of the nodes in the order of registration -/
def ids (graph : Orchestration) : List NodeId :=
  graph.nodes.map Node.id

/-- every advancer with the name of its node, by node and then by position -/
def edges (graph : Orchestration) : List (NodeId × Advancer) :=
  graph.nodes.flatMap fun node => node.advancers.map fun advancer => (node.id, advancer)

/-- how many registered nodes are not among the names -/
def countOutside (graph : Orchestration) (names : List NodeId) : Nat :=
  graph.nodes.countP fun node => !names.contains node.id

theorem id_of_node? {graph : Orchestration} {id : NodeId} {node : Node} (h : graph.node? id = some node) :
    node.id = id := by
  simpa using List.find?_some h

theorem mem_nodes_of_node? {graph : Orchestration} {id : NodeId} {node : Node} (h : graph.node? id = some node) :
    node ∈ graph.nodes :=
  List.mem_of_find?_eq_some h

theorem countP_lt_of_mem {α : Type} {p q : α → Bool} {xs : List α} {x : α} (weaker : ∀ y, p y = true → q y = true)
    (hm : x ∈ xs) (hp : p x = false) (hq : q x = true) : xs.countP p < xs.countP q := by
  induction xs with
  | nil => simp at hm
  | cons y rest ih =>
    have mono : rest.countP p ≤ rest.countP q := List.countP_mono_left fun z _ => weaker z
    rw [List.countP_cons, List.countP_cons]
    rcases List.mem_cons.1 hm with rfl | hm
    · simp only [hp, hq]
      simpa using Nat.lt_succ_of_le mono
    · have head : (if p y = true then 1 else 0) ≤ if q y = true then 1 else 0 := by
        split
        · rename_i hy
          simp [weaker y hy]
        · exact Nat.zero_le _
      exact Nat.add_lt_add_of_lt_of_le (ih hm) head

/-- One more name, that of a registered node outside the others, leaves fewer nodes outside. -/
theorem countOutside_cons_lt {graph : Orchestration} {names : List NodeId} {node : Node} (hm : node ∈ graph.nodes)
    (hn : node.id ∉ names) : graph.countOutside (node.id :: names) < graph.countOutside names := by
  refine countP_lt_of_mem (fun other h => ?_) hm (by simp) (by simpa using hn)
  simp only [List.contains_cons, Bool.not_or, Bool.and_eq_true] at h
  exact h.2

end Orchestration

end StepFlow
