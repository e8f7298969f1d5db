/-
Validation of an orchestration.

A survey walks the graph breadth first from the entry and notes what it finds on the way: nodes that cannot go on,
missing types, advancers without a registered target, advancers that do not fit and advancers without a guard. Then
come the nodes that it did not visit, in the order of registration, and what the contract asks of entry and result.
Without an entry there is one finding and no survey. `Orchestration.validate` is the report, `Orchestration.compile`
the graph itself or the failure that carries the report.
-/
import StepFlow.Orchestration.Basic
import StepFlow.Validation.Fit
import StepFlow.Validation.Report

namespace StepFlow

/-- a validation in progress: the names queued so far, those still to be visited, and the findings -/
structure Survey where
  visited : List NodeId := []
  queue : List NodeId := []
  report : Report := {}

namespace Survey

def note (survey : Survey) (issue : Issue) : Survey :=
  { survey with report := survey.report.add issue }

/-- Notes a finding if the condition holds. -/
def noteIf (survey : Survey) (condition : Bool) (issue : Issue) : Survey :=
  if condition then survey.note issue else survey

/-- Notes what is wrong with a node by itself. -/
def checkNode (survey : Survey) (node : Node) : Survey :=
  ((survey.noteIf (!node.deadEnd && node.advancers.isEmpty) (.noAdvancers node.id)).noteIf
    node.input.isUndeclared (.missingType node.id .input)).noteIf
    node.output.isUndeclared (.missingType node.id .output)

/-- Queues a name that has not been queued before. -/
def enqueue (survey : Survey) (id : NodeId) : Survey :=
  if id ∈ survey.visited then survey
  else { survey with visited := id :: survey.visited, queue := survey.queue ++ [id] }

/-- Notes what is wrong with one advancer of a node and queues its target. -/
def checkAdvancer (graph : Orchestration) (node : Node) (survey : Survey) (index : Nat) (advancer : Advancer) :
    Survey :=
  match graph.node? advancer.target with
  | none => survey.note (.missingTarget node.id index advancer.target)
  | some target =>
    let fitted :=
      match advancer.misfit node target with
      | none => survey
      | some issue => survey.note issue
    (fitted.noteIf (!advancer.isGuarded) (.unguardedAdvancer node.id index advancer.target)).enqueue advancer.target

/-- Checks advancers in their order, counted from `index`. -/
def checkAdvancers (graph : Orchestration) (node : Node) : Survey → Nat → List Advancer → Survey
  | survey, _, [] => survey
  | survey, index, advancer :: rest =>
    checkAdvancers graph node (survey.checkAdvancer graph node index advancer) (index + 1) rest

/-- the number of nodes not queued yet and of names still to be visited -/
def remaining (graph : Orchestration) (survey : Survey) : Nat :=
  graph.countOutside survey.visited + survey.queue.length

@[simp] theorem remaining_note (graph : Orchestration) (survey : Survey) (issue : Issue) :
    remaining graph (survey.note issue) = remaining graph survey := rfl

@[simp] theorem remaining_noteIf (graph : Orchestration) (survey : Survey) (condition : Bool) (issue : Issue) :
    remaining graph (survey.noteIf condition issue) = remaining graph survey := by
  unfold noteIf
  split <;> rfl

@[simp] theorem remaining_checkNode (graph : Orchestration) (survey : Survey) (node : Node) :
    remaining graph (survey.checkNode node) = remaining graph survey := by
  simp [checkNode]

theorem remaining_enqueue_le (graph : Orchestration) (survey : Survey) {id : NodeId} {node : Node}
    (registered : graph.node? id = some node) : remaining graph (survey.enqueue id) ≤ remaining graph survey := by
  unfold enqueue
  split
  · exact Nat.le_refl _
  · rename_i fresh
    rw [← Orchestration.id_of_node? registered] at fresh ⊢
    have := Orchestration.countOutside_cons_lt (Orchestration.mem_nodes_of_node? registered) fresh
    simp only [remaining, List.length_append, List.length_singleton]
    omega

theorem remaining_checkAdvancer_le (graph : Orchestration) (node : Node) (survey : Survey) (index : Nat)
    (advancer : Advancer) :
    remaining graph (survey.checkAdvancer graph node index advancer) ≤ remaining graph survey := by
  unfold checkAdvancer
  split
  · simp
  · rename_i target registered
    refine Nat.le_trans (remaining_enqueue_le graph _ registered) ?_
    rw [remaining_noteIf]
    cases advancer.misfit node target <;> simp

theorem remaining_checkAdvancers_le (graph : Orchestration) (node : Node) (survey : Survey) (index : Nat)
    (advancers : List Advancer) :
    remaining graph (checkAdvancers graph node survey index advancers) ≤ remaining graph survey := by
  induction advancers generalizing survey index with
  | nil => exact Nat.le_refl _
  | cons advancer rest ih =>
    exact Nat.le_trans (ih _ _) (remaining_checkAdvancer_le graph node survey index advancer)

/-- Visits every name in the queue and behind it. -/
def complete (graph : Orchestration) (survey : Survey) : Survey :=
  match _queued : survey.queue with
  | [] => survey
  | id :: rest =>
    match graph.node? id with
    | none => complete graph { survey with queue := rest }
    | some node =>
      complete graph (checkAdvancers graph node (checkNode { survey with queue := rest } node) 0 node.advancers)
termination_by remaining graph survey
decreasing_by
  · simp only [remaining, _queued, List.length_cons]
    omega
  · have := remaining_checkAdvancers_le graph node (checkNode { survey with queue := rest } node) 0 node.advancers
    rw [remaining_checkNode] at this
    simp only [remaining, _queued, List.length_cons] at *
    omega

end Survey

namespace Orchestration

/-- a warning for each registered node that was not visited, in the order of registration -/
def unvisited (graph : Orchestration) (entry : NodeId) (visited : List NodeId) : List Issue :=
  (graph.ids.filter fun id => !visited.contains id).map fun id => .unreachable id entry

/-- what the contract says against the result node -/
def resultIssues (graph : Orchestration) (output : TypeDesc) : List Issue :=
  match graph.result.bind graph.node? with
  | none => [.missingResult]
  | some result =>
    if result.output.isUndeclared || result.output.satisfies output then []
    else [.resultContractMismatch result.id result.output.friendlyName output.friendlyName]

/-- what the contract says against the entry and the result node -/
def contractIssues (graph : Orchestration) (entry : Node) : List Issue :=
  match graph.contract with
  | .untyped => []
  | .typed input output =>
    (if entry.input.isUndeclared || input.satisfies entry.input then []
      else [.entryContractMismatch entry.id input.friendlyName entry.input.friendlyName])
      ++ graph.resultIssues output

/-- every finding about the graph -/
def validate (graph : Orchestration) : Report :=
  match graph.entry with
  | none => .ofIssues [.missingEntry]
  | some entry =>
    let survey := Survey.complete graph { visited := [entry], queue := [entry] }
    let report := survey.report.addAll (graph.unvisited entry survey.visited)
    match graph.node? entry with
    | none => report
    | some node => report.addAll (graph.contractIssues node)

/-- the graph, which is checked first if `check` is set and returned only if it is valid -/
def compile (graph : Orchestration) (check : Bool) : Except InvalidGraph Orchestration :=
  if check then graph.validate.verdict.map fun _ => graph else .ok graph

end Orchestration

end StepFlow
