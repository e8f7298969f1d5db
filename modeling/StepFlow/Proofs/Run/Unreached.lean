/-
Nodes that are not reached are dead.

`Orchestration.only` drops nodes from a graph and leaves everything else as it is. As long as it keeps what the search from
the entry yields (`Prunes`), the graph that is left looks the same from every node that is reached. So nothing that walks
along the graph can tell the two apart. Results:
- `Prunes.mirrors`: names that are reached, and names that are not registered, are looked up alike;
- `moves_only`, `errors_only`: runs do the same in both graphs, and validation finds the same errors but for those about a
  result node that was dropped;
- `unreached_nodes_are_dead`: runs execute only what the search yields, and what it does not yield may be dropped.
-/
import StepFlow.Proofs.Run.Mirrored
import StepFlow.Proofs.Validation.Phases

namespace StepFlow

namespace Orchestration

def only (graph : Orchestration) (keep : NodeId → Bool) : Orchestration :=
  { graph with nodes := graph.nodes.filter fun node => keep node.id }

/-- every registered node that is reached from the entry is kept -/
def Prunes (graph : Orchestration) (entry : NodeId) (keep : NodeId → Bool) : Prop :=
  ∀ node, graph.Hosts entry node → keep node.id = true

section

variable {graph : Orchestration} {entry : NodeId} {keep : NodeId → Bool}

theorem node?_only (graph : Orchestration) (keep : NodeId → Bool) (id : NodeId) :
    (graph.only keep).node? id = if keep id = true then graph.node? id else none := by
  simp only [node?, only, List.find?_filter]
  split
  · rename_i kept
    congr 1
    funext node
    by_cases named : node.id = id <;> simp [named, kept]
  · rename_i dropped
    refine List.find?_eq_none.2 fun node _ found => dropped ?_
    simp only [decide_eq_true_eq, beq_iff_eq] at found
    exact found.2 ▸ found.1

/-- **A graph that keeps what is reached looks the same from the entry.** -/
theorem Prunes.mirrors (prunes : graph.Prunes entry keep) : graph.Mirrors (graph.only keep) entry := by
  refine ⟨fun id reached => ?_, rfl⟩
  rw [node?_only]
  cases found : graph.node? id with
  | none => simp
  | some node =>
    have named : node.id = id := id_of_node? found
    have there : graph.contains id = true := contains_iff.2 ⟨node, found⟩
    have kept : keep id = true := named ▸ prunes node ⟨node?_id found, named ▸ reached there⟩
    rw [if_pos kept]

end

end Orchestration

def Launch.only (launch : Launch) (keep : NodeId → Bool) : Launch :=
  { launch with graph := launch.graph.only keep }

/-- **Every schedule does the same in both graphs.** -/
theorem moves_only {launch : Launch} {entry : NodeId} {keep : NodeId → Bool} (prunes : launch.graph.Prunes entry keep)
    {schedule : List Move} {state : RunState}
    (stands : Walk.Every (fun _ => Stands launch.graph entry) [] state.walk) :
    state.moves (launch.only keep) schedule = state.moves launch schedule :=
  moves_on prunes.mirrors stands

theorem start_only (launch : Launch) (keep : NodeId → Bool) :
    RunState.start (launch.only keep) = RunState.start launch := rfl

/-! ## Validation -/

/-- the issue says something about the result node, which is not kept -/
def Issue.blamesDropped (keep : NodeId → Bool) : Issue → Bool
  | .resultContractMismatch result _ _ => !keep result
  | _ => false

theorem Issue.not_blamesDropped {issue : Issue} (h : issue.isLocal = true) (keep : NodeId → Bool) :
    issue.blamesDropped keep = false := by
  cases issue with
  | resultContractMismatch result output declared => cases h
  | _ => rfl

namespace Orchestration

section

variable {graph : Orchestration} {entry : NodeId} {keep : NodeId → Bool}

theorem filter_blamesDropped {issues : List Issue} (clean : ∀ issue ∈ issues, issue.blamesDropped keep = false) :
    issues.filter (fun issue => !issue.blamesDropped keep) = issues :=
  List.filter_eq_self.2 fun issue mem => by simp [clean issue mem]

/-- A contract asks the same of the result node, unless that is dropped. -/
theorem errors_resultIssues_only (graph : Orchestration) (keep : NodeId → Bool) (output : TypeDesc) :
    ((graph.only keep).resultIssues output).filter (fun issue => issue.severity = .error) =
      ((graph.resultIssues output).filter fun issue => issue.severity = .error).filter
        fun issue => !issue.blamesDropped keep := by
  have designated : (graph.only keep).result = graph.result := rfl
  unfold resultIssues
  rw [designated]
  cases graph.result with
  | none => rfl
  | some id =>
    simp only [Option.bind_some, node?_only]
    cases found : graph.node? id with
    | none =>
      rw [ite_self]
      rfl
    | some result =>
      have named : result.id = id := id_of_node? found
      cases kept : keep id with
      | true =>
        refine (filter_blamesDropped fun issue mem => ?_).symm
        have mem := (List.mem_filter.1 mem).1
        simp only [if_true] at mem
        split at mem
        · cases mem
        · obtain rfl := List.mem_singleton.1 mem
          simp [Issue.blamesDropped, named, kept]
      | false =>
        -- the one issue left is that there is no result node, which is a warning
        have nothing : [Issue.missingResult].filter (fun issue => issue.severity = .error) = [] := rfl
        rw [if_neg (by decide)]
        simp only [nothing]
        refine (List.filter_eq_nil_iff.2 fun issue mem => ?_).symm
        have mem := (List.mem_filter.1 mem).1
        split at mem
        · cases mem
        · obtain rfl := List.mem_singleton.1 mem
          simp [Issue.blamesDropped, named, kept]

theorem errors_contractIssues_only (graph : Orchestration) (keep : NodeId → Bool) (node : Node) :
    ((graph.only keep).contractIssues node).filter (fun issue => issue.severity = .error) =
      ((graph.contractIssues node).filter fun issue => issue.severity = .error).filter
        fun issue => !issue.blamesDropped keep := by
  have contract : (graph.only keep).contract = graph.contract := rfl
  unfold contractIssues
  rw [contract]
  cases graph.contract with
  | untyped => rfl
  | typed input output =>
    simp only [List.filter_append, errors_resultIssues_only]
    congr 1
    refine (filter_blamesDropped fun issue mem => ?_).symm
    have mem := (List.mem_filter.1 mem).1
    split at mem
    · cases mem
    · obtain rfl := List.mem_singleton.1 mem
      rfl

/-- **The errors of a validation stay the same**, but for what it says about a result node that was dropped. -/
theorem errors_only (prunes : graph.Prunes entry keep) (designated : graph.entry = some entry) :
    (graph.only keep).validate.errors = graph.validate.errors.filter fun issue => !issue.blamesDropped keep := by
  have kept : (graph.only keep).entry = some entry := designated
  have asked : ((graph.only keep).asked entry).filter (fun issue => issue.severity = .error) =
      ((graph.asked entry).filter fun issue => issue.severity = .error).filter fun issue => !issue.blamesDropped keep := by
    rw [Orchestration.asked, Orchestration.asked, prunes.mirrors.node? entry fun _ => .start]
    cases graph.node? entry with
    | none => rfl
    | some node => exact errors_contractIssues_only graph keep node
  rw [errors_eq_phases designated, errors_eq_phases kept, graph.filter_phases fun _ => rfl,
    (graph.only keep).filter_phases fun _ => rfl, prunes.mirrors.searched, List.filter_append, asked]
  congr 1
  refine (filter_blamesDropped fun issue mem => ?_).symm
  obtain ⟨one, -, finding⟩ := List.mem_flatMap.1 (List.mem_filter.1 mem).1
  exact Issue.not_blamesDropped (isLocal_of_mem_findings finding) keep

/-- **A node that is reported as unreachable is not yielded by the search.** -/
theorem unreached_of_reported (designated : graph.entry = some entry) {id : NodeId}
    (reported : .unreachable id entry ∈ graph.validate.warnings) : ∀ node ∈ graph.reachableFrom entry, node.id ≠ id := by
  have missed : id ∈ graph.validate.warnings.filterMap Issue.missed? := List.mem_filterMap.2 ⟨_, reported, rfl⟩
  rw [missed_warnings designated, List.mem_filter, decide_eq_true_eq] at missed
  exact fun node mem named => missed.2 (named ▸ List.mem_map_of_mem mem)

end

end Orchestration

/-- **Nodes that are not reached are dead.** Let a graph have an entry, whether validation accepts it or not. Every step
that a run starts, whatever it is given and however its branches are interleaved, is that of a node which the search from
the entry yields. So may be dropped what the search does not yield, and that is so of every node reported as unreachable:
every schedule then leads to the same state and the same conclusion, and validation finds the same errors in the same
order, but for what it says about a result node that is dropped. -/
theorem unreached_nodes_are_dead {launch : Launch} {entry : NodeId} (designated : launch.graph.entry = some entry) :
    (∀ schedule state, (RunState.start launch).moves launch schedule = some state →
      ∀ path id step, .started path id step ∈ state.shared.journal →
        ∃ node ∈ launch.graph.reachableFrom entry, node.id = id) ∧
    (∀ id, .unreachable id entry ∈ launch.graph.validate.warnings →
      ∀ node ∈ launch.graph.reachableFrom entry, node.id ≠ id) ∧
    ∀ keep : NodeId → Bool, (∀ node ∈ launch.graph.reachableFrom entry, keep node.id = true) →
      (∀ schedule, (RunState.start (launch.only keep)).moves (launch.only keep) schedule =
          (RunState.start launch).moves launch schedule) ∧
      (∀ state : RunState, state.conclusion? (launch.only keep) = state.conclusion? launch) ∧
      (launch.graph.only keep).validate.errors =
        launch.graph.validate.errors.filter fun issue => !issue.blamesDropped keep := by
  refine ⟨?_, fun id reported => Orchestration.unreached_of_reported designated reported, ?_⟩
  · intro schedule state moved path id step noted
    obtain ⟨node, hosts, named⟩ := moves_begun designated moved noted
    exact ⟨node, hosts.mem_reachableFrom, named⟩
  · intro keep kept
    have prunes : launch.graph.Prunes entry keep := fun node hosts => kept node hosts.mem_reachableFrom
    refine ⟨fun schedule => ?_, fun state => rfl, Orchestration.errors_only prunes designated⟩
    rw [start_only]
    exact moves_only prunes (start_standing designated)

/-- a typed graph whose result node leads to the others and is not reached itself -/
def islandLaunch : Launch :=
  { graph :=
      { nodes := [{ id := ⟨"a"⟩, step := .identity .string, advancers := [.always (.direct ⟨"b"⟩)] },
          { id := ⟨"b"⟩, step := .identity .string, deadEnd := true },
          { id := ⟨"c"⟩, step := .identity .int32, advancers := [.always (.direct ⟨"b"⟩)] }],
        entry := some ⟨"a"⟩, result := some ⟨"c"⟩, contract := .typed .string .string },
    input := .str "x" }

theorem unreached_nodes_are_dead_island :
    islandLaunch.graph.entry = some ⟨"a"⟩ ∧ .unreachable ⟨"c"⟩ ⟨"a"⟩ ∈ islandLaunch.graph.validate.warnings ∧
    (islandLaunch.only fun id => id != ⟨"c"⟩).graph.ids = [⟨"a"⟩, ⟨"b"⟩] ∧
    (∀ schedule, (RunState.start (islandLaunch.only fun id => id != ⟨"c"⟩)).moves
        (islandLaunch.only fun id => id != ⟨"c"⟩) schedule = (RunState.start islandLaunch).moves islandLaunch schedule) ∧
    islandLaunch.graph.validate.errors = [.resultContractMismatch ⟨"c"⟩ "Int32" "String"] ∧
    (islandLaunch.graph.only fun id => id != ⟨"c"⟩).validate.errors = [] := by
  have designated : islandLaunch.graph.entry = some ⟨"a"⟩ := rfl
  have reported : .unreachable ⟨"c"⟩ ⟨"a"⟩ ∈ islandLaunch.graph.validate.warnings := by decide +kernel
  have errors : islandLaunch.graph.validate.errors = [.resultContractMismatch ⟨"c"⟩ "Int32" "String"] := by
    decide +kernel
  obtain ⟨-, dead, dropped⟩ := unreached_nodes_are_dead designated
  obtain ⟨runs, -, left⟩ := dropped (fun id => id != ⟨"c"⟩) fun node mem => by simpa using dead _ reported node mem
  refine ⟨designated, reported, by decide +kernel, runs, errors, ?_⟩
  rw [left, errors]
  rfl

end StepFlow
