/-
The findings of a validation, node by node.

`Node.issues` and `Orchestration.edgeIssues` say what is wrong with one node and with one advancer, without any search.
The survey of a validation visits the same nodes in the same order as the breadth-first search of the graph
(`Follows`), and notes exactly these findings on the way:
- `complete_report`, `mem_visited_complete_iff`: the report of a survey is the list of findings along the search, and it has
  visited what the search lists;
- `errors_validate`: the errors of a validation are those of the nodes that the search lists, then those of the
  contract. Nodes that are not visited only ever give warnings.
-/
import StepFlow.Proofs.Orchestration.Reached
import StepFlow.Validation.Survey

namespace StepFlow

/-! ## Reports as lists of findings -/

namespace Report

theorem addAll_append (report : Report) (xs ys : List Issue) :
    report.addAll (xs ++ ys) = (report.addAll xs).addAll ys := by
  simp [addAll, List.foldl_append]

/-- the section of a report for the issues of a severity -/
def listed (report : Report) : Severity → List Issue
  | .error => report.errors
  | .warning => report.warnings

theorem listed_add (report : Report) (issue : Issue) (severity : Severity) :
    (report.add issue).listed severity =
      report.listed severity ++ [issue].filter fun issue => issue.severity = severity := by
  unfold add
  cases severity <;> cases h : issue.severity <;> simp [listed, h]

theorem listed_addAll (report : Report) (issues : List Issue) (severity : Severity) :
    (report.addAll issues).listed severity =
      report.listed severity ++ issues.filter fun issue => issue.severity = severity := by
  induction issues generalizing report with
  | nil => simp [addAll]
  | cons issue rest ih =>
    rw [show report.addAll (issue :: rest) = (report.add issue).addAll rest from rfl, ih, listed_add,
      List.append_assoc, ← List.filter_append]
    rfl

theorem errors_addAll (report : Report) (issues : List Issue) :
    (report.addAll issues).errors = report.errors ++ issues.filter fun issue => issue.severity = .error :=
  report.listed_addAll issues .error

theorem warnings_addAll (report : Report) (issues : List Issue) :
    (report.addAll issues).warnings = report.warnings ++ issues.filter fun issue => issue.severity = .warning :=
  report.listed_addAll issues .warning

theorem mem_of_mem_listed {issues : List Issue} {issue : Issue} (severity : Severity)
    (h : issue ∈ (ofIssues issues).listed severity) : issue ∈ issues := by
  rw [ofIssues, listed_addAll] at h
  cases severity <;> exact (List.mem_filter.1 ((List.mem_append.1 h).resolve_left List.not_mem_nil)).1

end Report

/-- what is wrong with a node by itself -/
def Node.issues (node : Node) : List Issue :=
  (if !node.deadEnd && node.advancers.isEmpty then [.noAdvancers node.id] else [])
    ++ (if node.input.isUndeclared then [.missingType node.id .input] else [])
    ++ (if node.output.isUndeclared then [.missingType node.id .output] else [])

namespace Orchestration

def edgeIssues (graph : Orchestration) (node : Node) (index : Nat) (advancer : Advancer) : List Issue :=
  match graph.node? advancer.target with
  | none => [.missingTarget node.id index advancer.target]
  | some target =>
    (advancer.misfit node target).toList
      ++ if advancer.isGuarded then [] else [.unguardedAdvancer node.id index advancer.target]

/-- what is wrong with advancers in their order, counted from `index` -/
def edgesIssues (graph : Orchestration) (node : Node) : Nat → List Advancer → List Issue
  | _, [] => []
  | index, advancer :: rest => graph.edgeIssues node index advancer ++ graph.edgesIssues node (index + 1) rest

def findings (graph : Orchestration) (node : Node) : List Issue :=
  node.issues ++ graph.edgesIssues node 0 node.advancers

theorem mem_edgesIssues {graph : Orchestration} {node : Node} {index : Nat} {advancers : List Advancer}
    {issue : Issue} :
    issue ∈ graph.edgesIssues node index advancers ↔
      ∃ position advancer, advancers[position]? = some advancer ∧
        issue ∈ graph.edgeIssues node (index + position) advancer := by
  induction advancers generalizing index with
  | nil => simp [edgesIssues]
  | cons first rest ih =>
    simp only [edgesIssues, List.mem_append, ih]
    constructor
    · rintro (h | ⟨position, advancer, indexed, h⟩)
      · exact ⟨0, first, rfl, h⟩
      · exact ⟨position + 1, advancer, indexed, by rwa [Nat.add_assoc, Nat.add_comm 1] at h⟩
    · rintro ⟨position, advancer, indexed, h⟩
      cases position with
      | zero =>
        rw [← Option.some.inj indexed] at h
        exact Or.inl h
      | succ position => exact Or.inr ⟨position, advancer, indexed, by rwa [Nat.add_assoc, Nat.add_comm 1]⟩

end Orchestration

/-! ## Which findings there are -/

def Issue.isLocal : Issue → Bool
  | .noAdvancers _ => true
  | .missingType _ _ => true
  | .missingTarget _ _ _ => true
  | .directTypeMismatch _ _ _ _ => true
  | .converterTypeMismatch _ _ _ _ => true
  | .unguardedAdvancer _ _ _ => true
  | _ => false

/-- A misfit is about the types along a direct or a converting advancer. -/
theorem Advancer.misfit_eq_some {advancer : Advancer} {source target : Node} {issue : Issue}
    (h : advancer.misfit source target = some issue) :
    (∃ output input, issue = .directTypeMismatch source.id target.id output input) ∨
      ∃ returns input, issue = .converterTypeMismatch source.id target.id returns input := by
  unfold Advancer.misfit at h
  split at h
  · cases h
  · split at h <;> split at h <;> cases h
    · exact Or.inl ⟨_, _, rfl⟩
    · exact Or.inr ⟨_, _, rfl⟩

/-- A node by itself may be unable to go on or lack a type. -/
theorem Node.mem_issues {node : Node} {issue : Issue} (h : issue ∈ node.issues) :
    issue = .noAdvancers node.id ∨ (issue = .missingType node.id .input ∧ node.input.isUndeclared = true) ∨
      issue = .missingType node.id .output ∧ node.output.isUndeclared = true := by
  simp only [Node.issues, List.mem_append, List.mem_ite_nil_right, List.mem_singleton] at h
  rcases h with (⟨-, same⟩ | ⟨undeclared, same⟩) | ⟨undeclared, same⟩
  · exact Or.inl same
  · exact Or.inr (Or.inl ⟨same, undeclared⟩)
  · exact Or.inr (Or.inr ⟨same, undeclared⟩)

namespace Orchestration

/-- An advancer may lead nowhere, not fit its target or never fire. -/
theorem mem_edgeIssues {graph : Orchestration} {node : Node} {index : Nat} {advancer : Advancer} {issue : Issue}
    (h : issue ∈ graph.edgeIssues node index advancer) :
    issue = .missingTarget node.id index advancer.target ∨
      (∃ target, graph.node? advancer.target = some target ∧ advancer.misfit node target = some issue) ∨
      issue = .unguardedAdvancer node.id index advancer.target := by
  unfold edgeIssues at h
  split at h
  · exact Or.inl (List.mem_singleton.1 h)
  · rename_i target found
    rcases List.mem_append.1 h with h | h
    · exact Or.inr (Or.inl ⟨target, found, by simpa using h⟩)
    · split at h
      · cases h
      · exact Or.inr (Or.inr (List.mem_singleton.1 h))

/-- A contract may disagree with the entry or the result node, or miss the latter. -/
theorem mem_contractIssues {graph : Orchestration} {node : Node} {issue : Issue} (h : issue ∈ graph.contractIssues node) :
    (∃ declared input, issue = .entryContractMismatch node.id declared input) ∨ issue = .missingResult ∨
      ∃ result output declared, issue = .resultContractMismatch result output declared := by
  unfold contractIssues at h
  split at h
  · cases h
  · rcases List.mem_append.1 h with h | h
    · split at h
      · cases h
      · exact Or.inl ⟨_, _, List.mem_singleton.1 h⟩
    · unfold resultIssues at h
      split at h
      · exact Or.inr (Or.inl (List.mem_singleton.1 h))
      · split at h
        · cases h
        · exact Or.inr (Or.inr ⟨_, _, _, List.mem_singleton.1 h⟩)

theorem isLocal_of_mem_findings {graph : Orchestration} {node : Node} {issue : Issue} (h : issue ∈ graph.findings node) :
    issue.isLocal = true := by
  rcases List.mem_append.1 h with h | h
  · rcases Node.mem_issues h with rfl | ⟨rfl, -⟩ | ⟨rfl, -⟩ <;> rfl
  · obtain ⟨position, advancer, -, h⟩ := mem_edgesIssues.1 h
    rcases mem_edgeIssues h with rfl | ⟨target, -, misfits⟩ | rfl
    · rfl
    · rcases Advancer.misfit_eq_some misfits with ⟨_, _, rfl⟩ | ⟨_, _, rfl⟩ <;> rfl
    · rfl

end Orchestration

/-! ## The survey follows the search -/

namespace Survey

/-- the survey has queued what the search has met, and has the same nodes still to visit -/
structure Follows (graph : Orchestration) (survey : Survey) (frontier : Orchestration.Frontier) : Prop where
  visited : survey.visited = frontier.met
  queue : survey.queue = frontier.queue.map Node.id
  registered : ∀ node ∈ frontier.queue, graph.node? node.id = some node

theorem noteIf_report (survey : Survey) (condition : Bool) (issue : Issue) :
    survey.noteIf condition issue =
      { survey with report := survey.report.addAll (if condition then [issue] else []) } := by
  cases condition <;> rfl

theorem checkNode_report (survey : Survey) (node : Node) :
    survey.checkNode node = { survey with report := survey.report.addAll node.issues } := by
  simp only [checkNode, Node.issues, noteIf_report, Report.addAll_append]

theorem Follows.addAll {graph : Orchestration} {survey : Survey} {frontier : Orchestration.Frontier}
    (h : Follows graph survey frontier) (issues : List Issue) :
    Follows graph { survey with report := survey.report.addAll issues } frontier :=
  ⟨h.visited, h.queue, h.registered⟩

/-- A registered name is queued when its node is met. -/
theorem Follows.enqueue {graph : Orchestration} {survey : Survey} {frontier : Orchestration.Frontier}
    (h : Follows graph survey frontier) {id : NodeId} {node : Node} (found : graph.node? id = some node) :
    Follows graph (survey.enqueue id) (frontier.meet node) ∧ (survey.enqueue id).report = survey.report := by
  have named : node.id = id := Orchestration.id_of_node? found
  simp only [Survey.enqueue, Orchestration.Frontier.meet, named, h.visited]
  by_cases known : id ∈ frontier.met
  · simp only [known, if_true]
    exact ⟨h, trivial⟩
  · simp only [known, if_false]
    refine ⟨⟨rfl, by simp [h.queue, named], fun other mem => ?_⟩, trivial⟩
    rcases List.mem_append.1 mem with mem | mem
    · exact h.registered other mem
    · rw [List.mem_singleton.1 mem, named]
      exact found

/-- One advancer is checked: its target is met, and its issues are noted. -/
theorem checkAdvancer_spec {graph : Orchestration} {survey : Survey} {frontier : Orchestration.Frontier}
    (h : Follows graph survey frontier) (node : Node) (index : Nat) (advancer : Advancer) :
    Follows graph (survey.checkAdvancer graph node index advancer) (graph.follow frontier advancer) ∧
      (survey.checkAdvancer graph node index advancer).report =
        survey.report.addAll (graph.edgeIssues node index advancer) := by
  unfold checkAdvancer Orchestration.follow Orchestration.edgeIssues
  cases found : graph.node? advancer.target with
  | none => exact ⟨⟨h.visited, h.queue, h.registered⟩, rfl⟩
  | some target =>
    cases misfits : advancer.misfit node target with
    | none =>
      simp only [misfits, noteIf_report]
      refine ⟨((h.addAll _).enqueue found).1, ((h.addAll _).enqueue found).2.trans ?_⟩
      cases advancer.isGuarded <;> rfl
    | some issue =>
      have noted : Follows graph (survey.note issue) frontier := h.addAll [issue]
      simp only [misfits, noteIf_report]
      refine ⟨((noted.addAll _).enqueue found).1, ((noted.addAll _).enqueue found).2.trans ?_⟩
      cases advancer.isGuarded <;> rfl

theorem checkAdvancers_spec {graph : Orchestration} {survey : Survey} {frontier : Orchestration.Frontier}
    (h : Follows graph survey frontier) (node : Node) (index : Nat) (advancers : List Advancer) :
    Follows graph (checkAdvancers graph node survey index advancers) (graph.followAll advancers frontier) ∧
      (checkAdvancers graph node survey index advancers).report =
        survey.report.addAll (graph.edgesIssues node index advancers) := by
  induction advancers generalizing survey frontier index with
  | nil => exact ⟨h, rfl⟩
  | cons advancer rest ih =>
    obtain ⟨follows, report⟩ := checkAdvancer_spec h node index advancer
    obtain ⟨rests, reports⟩ := ih follows (index + 1)
    refine ⟨rests, ?_⟩
    rw [Orchestration.edgesIssues, Report.addAll_append, ← report]
    exact reports

theorem Follows.done {graph : Orchestration} {survey : Survey} {met : List NodeId}
    (h : Follows graph survey { met := met, queue := [] }) : complete graph survey = survey := by
  obtain ⟨visited, queued, report⟩ := survey
  obtain rfl : queued = [] := h.queue
  rw [complete]

/-- One visit of a survey is one of the search, and notes what is found at the node. -/
theorem Follows.visit {graph : Orchestration} {survey : Survey} {met : List NodeId} {node : Node} {rest : List Node}
    (h : Follows graph survey { met := met, queue := node :: rest }) : ∃ next : Survey,
      complete graph survey = complete graph next ∧
      Follows graph next (graph.followAll node.advancers { met := met, queue := rest }) ∧
      next.report = survey.report.addAll (graph.findings node) := by
  obtain ⟨visited, queued, report⟩ := survey
  obtain rfl : queued = node.id :: rest.map Node.id := h.queue
  have found : graph.node? node.id = some node := h.registered node List.mem_cons_self
  have shorter : Follows graph ((⟨visited, rest.map Node.id, report⟩ : Survey).checkNode node) ⟨met, rest⟩ := by
    rw [checkNode_report]
    exact ⟨h.visited, rfl, fun other mem => h.registered other (List.mem_cons_of_mem _ mem)⟩
  obtain ⟨follows, checked⟩ := checkAdvancers_spec shorter node 0 node.advancers
  refine ⟨_, ?_, follows, ?_⟩
  · rw [complete]
    simp only [found]
  · rw [checked, checkNode_report, Orchestration.findings, Report.addAll_append]

/-- **The report of a survey** lists the findings along the search. -/
theorem complete_report {graph : Orchestration} {survey : Survey} {frontier : Orchestration.Frontier}
    (h : Follows graph survey frontier) :
    (complete graph survey).report = survey.report.addAll ((graph.explore frontier).flatMap graph.findings) := by
  induction frontier using Orchestration.frontier_induction graph generalizing survey with
  | done met =>
    rw [h.done, Orchestration.explore_nil]
    rfl
  | visit met node rest ih =>
    obtain ⟨next, same, follows, report⟩ := h.visit
    rw [same, ih follows, report, Orchestration.explore_cons, List.flatMap_cons, Report.addAll_append]

/-- **A survey visits what the search lists**, and apart from that only what had been met. -/
theorem mem_visited_complete_iff {graph : Orchestration} {survey : Survey} {frontier : Orchestration.Frontier}
    (h : Follows graph survey frontier) (lawful : frontier.Lawful) {id : NodeId} :
    id ∈ (complete graph survey).visited ↔ id ∈ frontier.met ∨ ∃ node ∈ graph.explore frontier, node.id = id := by
  induction frontier using Orchestration.frontier_induction graph generalizing survey with
  | done met =>
    rw [h.done, h.visited, Orchestration.explore_nil]
    simp
  | visit met node rest ih =>
    obtain ⟨next, same, follows, -⟩ := h.visit
    obtain ⟨after, grows⟩ := lawful.tail.followAll graph node.advancers
    rw [same, ih follows after, Orchestration.explore_cons]
    constructor
    · rintro (known | ⟨other, mem, named⟩)
      · rcases (graph.followAll_expands node.advancers ⟨met, rest⟩).met id known with old | ⟨target, queued, found⟩
        · exact Or.inl old
        · exact Or.inr ⟨target, List.mem_cons_of_mem _ (Orchestration.mem_explore_of_queue queued),
            Orchestration.id_of_node? found⟩
      · exact Or.inr ⟨other, List.mem_cons_of_mem _ mem, named⟩
    · rintro (known | ⟨other, mem, named⟩)
      · exact Or.inl (grows.met known)
      · rcases List.mem_cons.1 mem with rfl | mem
        · exact Or.inl (grows.met (named ▸ lawful.met other List.mem_cons_self))
        · exact Or.inr ⟨other, mem, named⟩

end Survey

/-! ## The errors of a validation -/

namespace Orchestration

theorem surveyed {graph : Orchestration} {entry : NodeId} {node : Node} (found : graph.node? entry = some node) :
    Survey.Follows graph { visited := [entry], queue := [entry] } { met := [node.id], queue := [node] } := by
  rw [id_of_node? found]
  refine ⟨rfl, by simp [id_of_node? found], fun other mem => ?_⟩
  rw [List.mem_singleton.1 mem]
  exact node?_id found

/-- **The report of a validation**: what is found along the search from the entry, then the nodes that were not visited,
then what the contract asks. -/
theorem validate_eq_ofIssues {graph : Orchestration} {entry : NodeId} {node : Node} (designated : graph.entry = some entry)
    (found : graph.node? entry = some node) :
    graph.validate = .ofIssues ((graph.reachableFrom entry).flatMap graph.findings ++
      graph.unvisited entry (Survey.complete graph { visited := [entry], queue := [entry] }).visited ++
      graph.contractIssues node) := by
  simp only [validate, designated, found, Survey.complete_report (surveyed found), reachableFrom, Report.ofIssues,
    Report.addAll_append]

theorem filter_errors_unvisited (graph : Orchestration) (entry : NodeId) (visited : List NodeId) :
    ((graph.unvisited entry visited).filter fun issue => issue.severity = .error) = [] := by
  refine List.filter_eq_nil_iff.2 fun issue mem => ?_
  obtain ⟨id, -, rfl⟩ := List.mem_map.1 mem
  simp [Issue.severity]

/-- The errors of a validation: what is found along the search from the entry, then what the contract asks. -/
theorem errors_validate {graph : Orchestration} {entry : NodeId} {node : Node} (designated : graph.entry = some entry)
    (found : graph.node? entry = some node) :
    graph.validate.errors =
      ((graph.reachableFrom entry).flatMap graph.findings ++ graph.contractIssues node).filter
        fun issue => issue.severity = .error := by
  rw [validate_eq_ofIssues designated found, Report.ofIssues, Report.errors_addAll, List.filter_append, List.filter_append,
    List.filter_append, filter_errors_unvisited, List.append_nil]
  rfl

/-- Without an entry there is one finding. -/
theorem validate_of_entry_none {graph : Orchestration} (missing : graph.entry = none) :
    graph.validate = { errors := [.missingEntry], warnings := [] } := by
  rw [validate, missing]
  rfl

end Orchestration

end StepFlow
