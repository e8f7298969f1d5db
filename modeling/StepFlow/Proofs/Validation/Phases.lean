/-
The report of a validation, phase by phase.

A survey notes what it finds while it goes on queueing nodes, and looks at the order of registration only afterwards. What
comes out can be said without it (`phases`): the findings about each node that the search from the entry lists, in the order
of the search and of the advancers, then each registered node that the search does not list, then what the contract asks.
Results:
- `validate_eq_phases`: the report is made of these issues in this order, in any graph with an entry;
- `missed_warnings`: the nodes that are reported as unreachable are those that the search does not list;
- `report_in_phases`: in a built graph the search and these warnings share the nodes among them.
-/
import Mathlib.Data.List.Perm.Basic
import StepFlow.Proofs.Build.Assembled
import StepFlow.Proofs.Validation.Findings

namespace StepFlow

/-- the node that an issue reports as unreachable -/
def Issue.missed? : Issue → Option NodeId
  | .unreachable node _ => some node
  | _ => none

theorem Issue.missed?_of_isLocal {issue : Issue} (h : issue.isLocal = true) : issue.missed? = none := by
  cases issue with
  | unreachable node entry => cases h
  | _ => rfl

/-- Nodes are reported as unreachable in warnings only. -/
theorem Report.missed_warnings (issues : List Issue) :
    (Report.ofIssues issues).warnings.filterMap Issue.missed? = issues.filterMap Issue.missed? := by
  rw [Report.ofIssues, Report.warnings_addAll, List.nil_append, List.filterMap_filter]
  refine List.filterMap_congr fun issue _ => ?_
  cases issue <;> rfl

namespace Orchestration

variable {graph : Orchestration} {entry : NodeId}

/-- the names of the nodes that the search from a start lists, in its order -/
def reachedIds (graph : Orchestration) (start : NodeId) : List NodeId :=
  (graph.reachableFrom start).map Node.id

/-- what the contract has against a graph with a registered entry -/
def asked (graph : Orchestration) (entry : NodeId) : List Issue :=
  match graph.node? entry with
  | none => []
  | some node => graph.contractIssues node

/-- the issues of a graph with an entry: those along the search, then the nodes that it does not list, then those of the
contract -/
def phases (graph : Orchestration) (entry : NodeId) : List Issue :=
  (graph.reachableFrom entry).flatMap graph.findings
    ++ (graph.ids.filter fun id => id ∉ graph.reachedIds entry).map (fun id => .unreachable id entry)
    ++ graph.asked entry

theorem mem_visited_iff {id : NodeId} (registered : id ∈ graph.ids) :
    id ∈ (Survey.complete graph { visited := [entry], queue := [entry] }).visited ↔ id ∈ graph.reachedIds entry := by
  cases found : graph.node? entry with
  | none =>
    have stray : id ≠ entry := by
      rintro rfl
      obtain ⟨node, there⟩ := contains_iff.1 (contains_iff_mem_ids.2 registered)
      rw [found] at there
      cases there
    simp [Survey.complete, found, reachedIds, reachableFrom, stray]
  | some node =>
    have listed : node ∈ graph.explore { met := [node.id], queue := [node] } := mem_explore_of_queue List.mem_cons_self
    rw [Survey.mem_visited_complete_iff (surveyed found) (lawful_start node), reachedIds, reachableFrom, found,
      List.mem_map]
    refine or_iff_right_of_imp fun known => ⟨node, listed, (List.mem_singleton.1 known).symm⟩

theorem unvisited_complete (graph : Orchestration) (entry : NodeId) :
    graph.unvisited entry (Survey.complete graph { visited := [entry], queue := [entry] }).visited =
      (graph.ids.filter fun id => id ∉ graph.reachedIds entry).map (fun id => .unreachable id entry) := by
  unfold unvisited
  congr 1
  refine List.filter_congr fun id registered => ?_
  rw [Bool.eq_iff_iff]
  simp [mem_visited_iff registered]

/-- **The report is made of the issues of the phases**, in their order. -/
theorem validate_eq_phases (designated : graph.entry = some entry) : graph.validate = .ofIssues (graph.phases entry) := by
  cases found : graph.node? entry with
  | none =>
    have nothing : (Survey.complete graph { visited := [entry], queue := [entry] }).report = {} := by
      simp [Survey.complete, found]
    simp only [validate, designated, found, unvisited_complete, nothing, phases, asked, reachableFrom, List.flatMap_nil,
      List.nil_append, List.append_nil, Report.ofIssues]
  | some node => rw [validate_eq_ofIssues designated found, unvisited_complete, phases, asked, found]

theorem errors_eq_phases (designated : graph.entry = some entry) :
    graph.validate.errors = (graph.phases entry).filter fun issue => issue.severity = .error := by
  rw [validate_eq_phases designated, Report.ofIssues, Report.errors_addAll, List.nil_append]

theorem warnings_eq_phases (designated : graph.entry = some entry) :
    graph.validate.warnings = (graph.phases entry).filter fun issue => issue.severity = .warning := by
  rw [validate_eq_phases designated, Report.ofIssues, Report.warnings_addAll, List.nil_append]

/-- Issues about nodes that the search does not list aside, those along the search and those of the contract are left. -/
theorem filter_phases (graph : Orchestration) {keeps : Issue → Bool} (blind : ∀ id, keeps (.unreachable id entry) = false) :
    (graph.phases entry).filter keeps =
      ((graph.reachableFrom entry).flatMap graph.findings).filter keeps ++ (graph.asked entry).filter keeps := by
  have none : ∀ ids : List NodeId, (ids.map fun id => Issue.unreachable id entry).filter keeps = [] := fun ids =>
    List.filter_eq_nil_iff.2 fun issue mem => by
      obtain ⟨id, -, rfl⟩ := List.mem_map.1 mem
      simp [blind id]
  rw [phases, List.filter_append, List.filter_append, none, List.append_nil]

/-- **The nodes reported as unreachable** are those that the search does not list, in the order of registration. -/
theorem missed_warnings (designated : graph.entry = some entry) :
    graph.validate.warnings.filterMap Issue.missed? = graph.ids.filter fun id => id ∉ graph.reachedIds entry := by
  have along : ((graph.reachableFrom entry).flatMap graph.findings).filterMap Issue.missed? = [] := by
    refine List.filterMap_eq_nil_iff.2 fun issue mem => ?_
    obtain ⟨node, -, finding⟩ := List.mem_flatMap.1 mem
    exact Issue.missed?_of_isLocal (isLocal_of_mem_findings finding)
  have contract : (graph.asked entry).filterMap Issue.missed? = [] := by
    refine List.filterMap_eq_nil_iff.2 fun issue mem => ?_
    unfold asked at mem
    split at mem
    · cases mem
    · rcases mem_contractIssues mem with ⟨_, _, rfl⟩ | rfl | ⟨_, _, _, rfl⟩ <;> rfl
  have between : ∀ ids : List NodeId, (ids.map fun id => Issue.unreachable id entry).filterMap Issue.missed? = ids :=
    fun ids => by rw [List.filterMap_map]; exact List.filterMap_some
  rw [validate_eq_phases designated, Report.missed_warnings, phases, List.filterMap_append, List.filterMap_append, along,
    between, contract, List.nil_append, List.append_nil]

/-- The names that the search lists, and the registered names that it does not list, are all of them. -/
theorem reachedIds_perm (distinct : graph.ids.Nodup) :
    (graph.reachedIds entry ++ graph.ids.filter fun id => id ∉ graph.reachedIds entry).Perm graph.ids := by
  have registered : ∀ id ∈ graph.reachedIds entry, id ∈ graph.ids := by
    intro id mem
    obtain ⟨node, listed, rfl⟩ := List.mem_map.1 mem
    exact List.mem_map_of_mem (mem_nodes_of_node? (node?_of_mem_reachableFrom listed))
  have same : (graph.reachedIds entry).Perm (graph.ids.filter fun id => id ∈ graph.reachedIds entry) := by
    refine (List.perm_ext_iff_of_nodup (graph.reachableFrom_distinct entry) (distinct.filter _)).2 fun id => ?_
    simp only [List.mem_filter, decide_eq_true_eq]
    exact ⟨fun mem => ⟨registered id mem, mem⟩, fun mem => mem.2⟩
  have split := List.filter_append_perm (fun id => decide (id ∈ graph.reachedIds entry)) graph.ids
  refine (same.append_right _).trans (List.Perm.trans (List.Perm.of_eq ?_) split)
  simp

/-- **The report of a built graph, phase by phase.** Its errors and its warnings are the errors and the warnings among the
issues of the phases, in their order. The names are distinct, and each of them is either listed by the search from the entry
or reported as unreachable, once and never both. -/
theorem report_in_phases {calls : List Call} (built : build calls = .ok graph) (designated : graph.entry = some entry) :
    graph.validate.errors = (graph.phases entry).filter (fun issue => issue.severity = .error) ∧
    graph.validate.warnings = (graph.phases entry).filter (fun issue => issue.severity = .warning) ∧
    graph.ids.Nodup ∧
    (graph.reachedIds entry ++ graph.validate.warnings.filterMap Issue.missed?).Perm graph.ids := by
  have distinct := (build_assembled built).distinct
  refine ⟨errors_eq_phases designated, warnings_eq_phases designated, distinct, ?_⟩
  rw [missed_warnings designated]
  exact reachedIds_perm distinct

/-- a typed graph whose entry leads to a node that it does not fit, to one that is missing and to itself; two more nodes are
registered among these and are not reached -/
def patchyCalls : List Call :=
  [.addNode { id := ⟨"idle"⟩, step := .identity .bool },
    .addNode { id := ⟨"a"⟩, step := .identity .string },
    .addNode { id := ⟨"spare"⟩, step := .identity .bool, deadEnd := true },
    .addAdvancer ⟨"a"⟩ (.always (.direct ⟨"b"⟩)), .addAdvancer ⟨"a"⟩ (.direct ⟨"ghost"⟩),
    .addAdvancer ⟨"a"⟩ (.direct ⟨"a"⟩), .addNode { id := ⟨"b"⟩, step := .identity .int32 },
    .setContract (.typed .string .bool), .setEntry ⟨"a"⟩]

def patchyGraph : Orchestration :=
  { nodes := [{ id := ⟨"idle"⟩, step := .identity .bool },
      { id := ⟨"a"⟩, step := .identity .string,
        advancers := [.always (.direct ⟨"b"⟩), .direct ⟨"ghost"⟩, .direct ⟨"a"⟩] },
      { id := ⟨"spare"⟩, step := .identity .bool, deadEnd := true }, { id := ⟨"b"⟩, step := .identity .int32 }],
    entry := some ⟨"a"⟩, contract := .typed .string .bool }

theorem report_in_phases_patchy :
    build patchyCalls = .ok patchyGraph ∧ patchyGraph.entry = some ⟨"a"⟩ ∧
    patchyGraph.validate.errors = [.directTypeMismatch ⟨"a"⟩ ⟨"b"⟩ "String" "Int32", .missingTarget ⟨"a"⟩ 1 ⟨"ghost"⟩,
      .noAdvancers ⟨"b"⟩] ∧
    patchyGraph.validate.warnings = [.unguardedAdvancer ⟨"a"⟩ 2 ⟨"a"⟩, .unreachable ⟨"idle"⟩ ⟨"a"⟩,
      .unreachable ⟨"spare"⟩ ⟨"a"⟩, .missingResult] ∧
    List.Perm [⟨"a"⟩, ⟨"b"⟩, ⟨"idle"⟩, ⟨"spare"⟩] patchyGraph.ids := by
  have built : build patchyCalls = .ok patchyGraph := by rfl
  have designated : patchyGraph.entry = some ⟨"a"⟩ := rfl
  obtain ⟨errors, warnings, -, shared⟩ := report_in_phases built designated
  have reached : patchyGraph.reachedIds ⟨"a"⟩ = [⟨"a"⟩, ⟨"b"⟩] := by decide +kernel
  have found : patchyGraph.validate.warnings = [.unguardedAdvancer ⟨"a"⟩ 2 ⟨"a"⟩, .unreachable ⟨"idle"⟩ ⟨"a"⟩,
      .unreachable ⟨"spare"⟩ ⟨"a"⟩, .missingResult] := by
    rw [warnings]
    decide +kernel
  refine ⟨built, designated, ?_, found, ?_⟩
  · rw [errors]
    decide +kernel
  · rw [reached, found] at shared
    exact shared

end Orchestration

end StepFlow
