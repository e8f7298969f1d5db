/-
When a checked graph is accepted.

`Coherent` is what validation asks of a graph, said without any search: something about every node that is reached from
the entry, about every advancer of such a node, and about the contract. For a graph that was assembled call by call:
- `errors_validate_eq_nil_iff`: validation finds no error exactly when the graph has an entry and is coherent from it;
- `compile_checked_iff`: only then is the graph itself handed out, unchanged. Guards, steps, nodes that are not reached
  and the mere lack of a result node play no part (`Alike`), and without an entry there is one finding.
-/
import StepFlow.Proofs.Build.Assembled
import StepFlow.Proofs.Validation.Findings

namespace StepFlow

/-! ## One advancer, one node -/

theorem Advancer.misfit_eq_none_iff {advancer : Advancer} {source target : Node}
    (output : source.output.isUndeclared = false) (input : target.input.isUndeclared = false) :
    advancer.misfit source target = none ↔
      (advancer.converter = none → source.output.satisfies target.input = true) ∧
        ∀ converter, advancer.converter = some converter → converter.returns.satisfies target.input = true := by
  unfold Advancer.misfit
  cases advancer.converter <;> simp [output, input]

theorem Advancer.severity_of_misfit {advancer : Advancer} {source target : Node} {issue : Issue}
    (h : advancer.misfit source target = some issue) : issue.severity = .error := by
  rcases misfit_eq_some h with ⟨_, _, rfl⟩ | ⟨_, _, rfl⟩ <;> rfl

theorem Node.severity_of_mem_issues {node : Node} {issue : Issue} (h : issue ∈ node.issues) :
    issue.severity = .error := by
  rcases mem_issues h with rfl | ⟨rfl, -⟩ | ⟨rfl, -⟩ <;> rfl

theorem Node.issues_eq_nil_iff {node : Node} (input : node.input.isUndeclared = false)
    (output : node.output.isUndeclared = false) :
    node.issues = [] ↔ node.advancers ≠ [] ∨ node.deadEnd = true := by
  simp only [Node.issues, input, output]
  cases node.deadEnd <;> simp

namespace Orchestration

/-- no error is found for an advancer exactly when its target is registered and it fits -/
theorem edgeIssues_clean_iff {graph : Orchestration} {node : Node} {index : Nat} {advancer : Advancer} :
    (∀ issue ∈ graph.edgeIssues node index advancer, issue.severity ≠ .error) ↔
      ∃ target, graph.node? advancer.target = some target ∧ advancer.misfit node target = none := by
  unfold edgeIssues
  cases graph.node? advancer.target with
  | none => simp [Issue.severity]
  | some target =>
    cases misfits : advancer.misfit node target with
    | none => cases advancer.isGuarded <;> simp [Issue.severity, misfits]
    | some issue => simp [Advancer.severity_of_misfit misfits, misfits]

theorem findings_clean_iff {graph : Orchestration} {node : Node} (input : node.input.isUndeclared = false)
    (output : node.output.isUndeclared = false) :
    (∀ issue ∈ graph.findings node, issue.severity ≠ .error) ↔
      (node.advancers ≠ [] ∨ node.deadEnd = true) ∧ ∀ advancer ∈ node.advancers,
        ∃ target, graph.node? advancer.target = some target ∧ advancer.misfit node target = none := by
  rw [← Node.issues_eq_nil_iff input output]
  constructor
  · intro clean
    refine ⟨List.eq_nil_iff_forall_not_mem.2 fun issue mem => ?_, fun advancer mem => ?_⟩
    · exact clean issue (List.mem_append_left _ mem) (Node.severity_of_mem_issues mem)
    · obtain ⟨position, lt, rfl⟩ := List.mem_iff_getElem.1 mem
      refine (@edgeIssues_clean_iff graph node (0 + position) _).1 fun issue found => clean issue (List.mem_append_right _ ?_)
      exact mem_edgesIssues.2 ⟨position, _, List.getElem?_eq_getElem lt, found⟩
  · rintro ⟨none, fits⟩ issue mem
    rcases List.mem_append.1 mem with mem | mem
    · rw [none] at mem
      simp at mem
    · obtain ⟨position, advancer, indexed, found⟩ := mem_edgesIssues.1 mem
      exact edgeIssues_clean_iff.2 (fits advancer (List.mem_of_getElem? indexed)) issue found

/-! ## The whole graph -/

/-- what validation asks of a graph: of every node reached from the entry, of every advancer of such a node, and of
the entry and the result node if the contract declares types -/
structure Coherent (graph : Orchestration) (entry : NodeId) : Prop where
  goesOn : ∀ id, graph.Reached entry id →
    ∃ node, graph.node? id = some node ∧ (node.advancers ≠ [] ∨ node.deadEnd = true)
  targets : ∀ id node, graph.Reached entry id → graph.node? id = some node → ∀ advancer ∈ node.advancers,
    graph.contains advancer.target = true
  direct : ∀ id node, graph.Reached entry id → graph.node? id = some node → ∀ advancer ∈ node.advancers,
    advancer.converter = none → ∀ target, graph.node? advancer.target = some target →
      node.output.satisfies target.input = true
  converting : ∀ id node, graph.Reached entry id → graph.node? id = some node → ∀ advancer ∈ node.advancers,
    ∀ converter, advancer.converter = some converter → ∀ target, graph.node? advancer.target = some target →
      converter.returns.satisfies target.input = true
  input : ∀ input output, graph.contract = .typed input output →
    ∃ node, graph.node? entry = some node ∧ input.satisfies node.input = true
  output : ∀ input output, graph.contract = .typed input output → ∀ result, graph.result = some result →
    ∃ node, graph.node? result = some node ∧ node.output.satisfies output = true

theorem contractIssues_clean_iff {graph : Orchestration} (h : Assembled graph) {entry : NodeId} {node : Node}
    (found : graph.node? entry = some node) :
    (∀ issue ∈ graph.contractIssues node, issue.severity ≠ .error) ↔
      (∀ input output, graph.contract = .typed input output →
        ∃ node, graph.node? entry = some node ∧ input.satisfies node.input = true) ∧
      ∀ input output, graph.contract = .typed input output → ∀ result, graph.result = some result →
        ∃ node, graph.node? result = some node ∧ node.output.satisfies output = true := by
  unfold contractIssues
  cases graph.contract with
  | untyped => simp
  | typed input output =>
    have entryDeclared := (h.declared node (mem_nodes_of_node? found)).1
    have resultClean : (∀ issue ∈ graph.resultIssues output, issue.severity ≠ .error) ↔
        ∀ result, graph.result = some result →
          ∃ node, graph.node? result = some node ∧ node.output.satisfies output = true := by
      unfold resultIssues
      cases designated : graph.result with
      | none => simp [Issue.severity]
      | some id =>
        obtain ⟨result, there⟩ := contains_iff.1 (h.result id designated)
        have declared := (h.declared result (mem_nodes_of_node? there)).2
        by_cases fits : result.output.satisfies output = true <;> simp [there, declared, fits, Issue.severity]
    simp only [List.mem_append, or_imp, forall_and, Contract.typed.injEq, and_imp, found]
    rw [resultClean]
    by_cases fits : input.satisfies node.input = true <;> simp [entryDeclared, fits, Issue.severity]

/-- a node goes on, and each of its advancers has a registered target that it fits -/
def Passes (graph : Orchestration) (node : Node) : Prop :=
  (node.advancers ≠ [] ∨ node.deadEnd = true) ∧ ∀ advancer ∈ node.advancers,
    ∃ target, graph.node? advancer.target = some target ∧ advancer.misfit node target = none

theorem findings_reachable_clean_iff {graph : Orchestration} (h : Assembled graph) {entry : NodeId}
    (registered : graph.contains entry = true) :
    (∀ issue ∈ (graph.reachableFrom entry).flatMap graph.findings, issue.severity ≠ .error) ↔
      ∀ id, graph.Reached entry id → ∃ node, graph.node? id = some node ∧ graph.Passes node := by
  have clean_iff : ∀ {id node}, graph.node? id = some node →
      ((∀ issue ∈ graph.findings node, issue.severity ≠ .error) ↔ graph.Passes node) := fun there =>
    have declared := h.declared _ (mem_nodes_of_node? there)
    findings_clean_iff declared.1 declared.2
  constructor
  · intro clean id reached
    obtain ⟨node, there⟩ := contains_iff.1 (reached.contains registered)
    have listed : node ∈ graph.reachableFrom entry :=
      (mem_reachableFrom_iff registered).2 ⟨id_of_node? there ▸ reached, node?_id there⟩
    exact ⟨node, there, (clean_iff there).1 fun issue mem => clean issue (List.mem_flatMap.2 ⟨node, listed, mem⟩)⟩
  · intro passes issue mem
    obtain ⟨node, listed, mem⟩ := List.mem_flatMap.1 mem
    obtain ⟨reached, there⟩ := (mem_reachableFrom_iff registered).1 listed
    obtain ⟨same, indexed, pass⟩ := passes _ reached
    obtain rfl : same = node := Option.some.inj (indexed.symm.trans there)
    exact (clean_iff there).2 pass issue mem

theorem passes_reached_iff {graph : Orchestration} (h : Assembled graph) {entry : NodeId} :
    (∀ id, graph.Reached entry id → ∃ node, graph.node? id = some node ∧ graph.Passes node) ∧
        (∀ input output, graph.contract = .typed input output →
          ∃ node, graph.node? entry = some node ∧ input.satisfies node.input = true) ∧
        (∀ input output, graph.contract = .typed input output → ∀ result, graph.result = some result →
          ∃ node, graph.node? result = some node ∧ node.output.satisfies output = true) ↔
      graph.Coherent entry := by
  have fits_iff : ∀ {id target : NodeId} {node other : Node} {advancer : Advancer}, graph.node? id = some node →
      graph.node? target = some other → (advancer.misfit node other = none ↔ _) := fun there ht =>
    Advancer.misfit_eq_none_iff (h.declared _ (mem_nodes_of_node? there)).2 (h.declared _ (mem_nodes_of_node? ht)).1
  constructor
  · rintro ⟨passes, input, output⟩
    have pass : ∀ id node, graph.Reached entry id → graph.node? id = some node → graph.Passes node := by
      intro id node reached there
      obtain ⟨same, indexed, pass⟩ := passes id reached
      rwa [Option.some.inj (indexed.symm.trans there)] at pass
    have fits : ∀ id node, graph.Reached entry id → graph.node? id = some node → ∀ advancer ∈ node.advancers,
        ∀ target, graph.node? advancer.target = some target → advancer.misfit node target = none := by
      intro id node reached there advancer mem target ht
      obtain ⟨other, ho, fit⟩ := (pass id node reached there).2 advancer mem
      rwa [Option.some.inj (ho.symm.trans ht)] at fit
    refine ⟨fun id reached => ?_, fun id node reached there advancer mem => ?_,
      fun id node reached there advancer mem direct target ht =>
        ((fits_iff there ht).1 (fits id node reached there advancer mem target ht)).1 direct,
      fun id node reached there advancer mem converter converts target ht =>
        ((fits_iff there ht).1 (fits id node reached there advancer mem target ht)).2 converter converts, input, output⟩
    · obtain ⟨node, there, goesOn, -⟩ := passes id reached
      exact ⟨node, there, goesOn⟩
    · obtain ⟨target, ht, -⟩ := (pass id node reached there).2 advancer mem
      exact contains_iff.2 ⟨target, ht⟩
  · intro coherent
    refine ⟨fun id reached => ?_, coherent.input, coherent.output⟩
    obtain ⟨node, there, goesOn⟩ := coherent.goesOn id reached
    refine ⟨node, there, goesOn, fun advancer mem => ?_⟩
    obtain ⟨target, ht⟩ := contains_iff.1 (coherent.targets id node reached there advancer mem)
    exact ⟨target, ht, (fits_iff there ht).2
      ⟨fun direct => coherent.direct id node reached there advancer mem direct target ht,
        fun converter converts => coherent.converting id node reached there advancer mem converter converts target ht⟩⟩

/-- Validation finds no error exactly in a graph that has an entry and is coherent from it. -/
theorem errors_validate_eq_nil_iff {graph : Orchestration} (h : Assembled graph) :
    graph.validate.errors = [] ↔ ∃ entry, graph.entry = some entry ∧ graph.Coherent entry := by
  cases designated : graph.entry with
  | none => simp [validate_of_entry_none designated]
  | some entry =>
    have registered := h.entry entry designated
    obtain ⟨node, found⟩ := contains_iff.1 registered
    rw [errors_validate designated found, List.filter_eq_nil_iff]
    simp only [List.mem_append, or_imp, forall_and, decide_eq_true_eq, Option.some.injEq, exists_eq_left']
    rw [← passes_reached_iff h, ← contractIssues_clean_iff h found, ← findings_reachable_clean_iff h registered]

theorem compile_true_iff {graph returned : Orchestration} :
    graph.compile true = .ok returned ↔ returned = graph ∧ graph.validate.errors = [] := by
  cases found : graph.validate.errors with
  | nil => simp [compile, Report.verdict, Report.isValid, found, Except.map, eq_comm]
  | cons issue rest => simp [compile, Report.verdict, Report.isValid, found, Except.map]

/-! ## What plays no part -/

/-- the types, the flag and the transitions of a node, without its step, its guards and what its converters do -/
structure Outline where
  input : TypeDesc
  output : TypeDesc
  deadEnd : Bool
  transitions : List (NodeId × Option TypeDesc)

def outline (node : Node) : Outline :=
  { input := node.input, output := node.output, deadEnd := node.deadEnd,
    transitions := node.advancers.map fun advancer => (advancer.target, advancer.converter.map Converter.returns) }

/-- the names that matter to validation -/
inductive Matters (graph : Orchestration) : NodeId → Prop where
  | reached {entry id : NodeId} : graph.entry = some entry → graph.Reached entry id → Matters graph id
  | target {entry id : NodeId} {node : Node} {advancer : Advancer} : graph.entry = some entry →
      graph.Reached entry id → graph.node? id = some node → advancer ∈ node.advancers → Matters graph advancer.target
  | result {id : NodeId} : graph.result = some id → Matters graph id

/-- two graphs with the same designations and contract, in which the names that matter stand for alike nodes or for
none -/
structure Alike (graph other : Orchestration) : Prop where
  entry : other.entry = graph.entry
  result : other.result = graph.result
  contract : other.contract = graph.contract
  nodes : ∀ id, graph.Matters id → (other.node? id).map outline = (graph.node? id).map outline

/-- an advancer with the target and the declared type of another one -/
theorem exists_advancer_of_outline {node other : Node} (same : outline other = outline node) {advancer : Advancer}
    (mem : advancer ∈ other.advancers) : ∃ twin ∈ node.advancers,
      twin.target = advancer.target ∧ twin.converter.map Converter.returns = advancer.converter.map Converter.returns := by
  have listed : (advancer.target, advancer.converter.map Converter.returns) ∈ (outline other).transitions :=
    List.mem_map.2 ⟨advancer, mem, rfl⟩
  rw [same] at listed
  obtain ⟨twin, ht, eq⟩ := List.mem_map.1 listed
  exact ⟨twin, ht, congrArg Prod.fst eq, congrArg Prod.snd eq⟩

theorem Alike.node? {graph other : Orchestration} (h : Alike graph other) {id : NodeId} (matters : graph.Matters id)
    {node : Node} (found : other.node? id = some node) :
    ∃ twin, graph.node? id = some twin ∧ outline node = outline twin := by
  have same := h.nodes id matters
  rw [found, Option.map_some] at same
  obtain ⟨twin, there, eq⟩ := Option.map_eq_some_iff.1 same.symm
  exact ⟨twin, there, eq.symm⟩

theorem Alike.contains {graph other : Orchestration} (h : Alike graph other) {id : NodeId} (matters : graph.Matters id) :
    other.contains id = graph.contains id := by
  have same := congrArg Option.isSome (h.nodes id matters)
  simpa [Orchestration.contains] using same

theorem Alike.reached {graph other : Orchestration} (h : Alike graph other) {entry id : NodeId}
    (designated : graph.entry = some entry) (reached : other.Reached entry id) : graph.Reached entry id := by
  induction reached with
  | start => exact .start
  | follow _ found mem target ih =>
    obtain ⟨twin, there, same⟩ := h.node? (.reached designated ih) found
    obtain ⟨advancer, ha, leads, -⟩ := exists_advancer_of_outline same mem
    have matters : graph.Matters advancer.target := .target designated ih there ha
    rw [← leads] at target ⊢
    exact .follow ih there ha (h.contains matters ▸ target)

theorem Alike.matters {graph other : Orchestration} (h : Alike graph other) {id : NodeId} (matters : other.Matters id) :
    graph.Matters id := by
  cases matters with
  | reached designated reached =>
    rw [h.entry] at designated
    exact .reached designated (h.reached designated reached)
  | target designated reached found mem =>
    rw [h.entry] at designated
    have before := h.reached designated reached
    obtain ⟨twin, there, same⟩ := h.node? (.reached designated before) found
    obtain ⟨advancer, ha, leads, -⟩ := exists_advancer_of_outline same mem
    exact leads ▸ .target designated before there ha
  | result designated => exact .result (h.result ▸ designated)

theorem Alike.symm {graph other : Orchestration} (h : Alike graph other) : Alike other graph :=
  ⟨h.entry.symm, h.result.symm, h.contract.symm, fun id matters => (h.nodes id (h.matters matters)).symm⟩

/-- what an advancer of one graph has in common with one that it stands for in another -/
structure Twins (graph : Orchestration) (entry id : NodeId) (node twin : Node) (advancer one : Advancer) : Prop where
  reached : graph.Reached entry id
  found : graph.node? id = some twin
  same : outline node = outline twin
  mem : one ∈ twin.advancers
  leads : one.target = advancer.target
  returns : one.converter.map Converter.returns = advancer.converter.map Converter.returns

theorem Alike.twins {graph other : Orchestration} (h : Alike graph other) {entry id : NodeId}
    (designated : graph.entry = some entry) (reached : other.Reached entry id) {node : Node}
    (there : other.node? id = some node) {advancer : Advancer} (mem : advancer ∈ node.advancers) :
    ∃ twin one, Twins graph entry id node twin advancer one := by
  have before := h.reached designated reached
  obtain ⟨twin, found, same⟩ := h.node? (.reached designated before) there
  obtain ⟨one, among, leads, returns⟩ := exists_advancer_of_outline same mem
  exact ⟨twin, one, before, found, same, among, leads, returns⟩

/-- Twins lead to nodes that take values of the same type. -/
theorem Twins.exists_target {graph other : Orchestration} {entry id : NodeId} {node twin goal : Node}
    {advancer one : Advancer} (twins : Twins graph entry id node twin advancer one) (h : Alike graph other)
    (designated : graph.entry = some entry) (ht : other.node? advancer.target = some goal) :
    ∃ aim, graph.node? one.target = some aim ∧ goal.input = aim.input := by
  rw [← twins.leads] at ht
  obtain ⟨aim, there, same⟩ := h.node? (.target designated twins.reached twins.found twins.mem) ht
  exact ⟨aim, there, congrArg Outline.input same⟩

theorem Coherent.alike {graph other : Orchestration} {entry : NodeId} (coherent : graph.Coherent entry)
    (designated : graph.entry = some entry) (h : Alike graph other) : other.Coherent entry := by
  have designated' : other.entry = some entry := h.entry.trans designated
  refine ⟨fun id reached => ?_, fun id node reached there advancer mem => ?_,
    fun id node reached there advancer mem direct goal ht => ?_,
    fun id node reached there advancer mem converter converts goal ht => ?_, fun input output typed => ?_,
    fun input output typed result hr => ?_⟩
  · obtain ⟨node, there, goesOn⟩ := coherent.goesOn id (h.reached designated reached)
    obtain ⟨twin, found, same⟩ := h.symm.node? (.reached designated' reached) there
    refine ⟨twin, found, goesOn.imp (fun some none => some ?_) fun flag =>
      (congrArg Outline.deadEnd same).symm.trans flag⟩
    have nothing := congrArg Outline.transitions same
    simpa [outline, none] using nothing
  · obtain ⟨twin, one, twins⟩ := h.twins designated reached there mem
    rw [← twins.leads, h.contains (.target designated twins.reached twins.found twins.mem)]
    exact coherent.targets id twin twins.reached twins.found one twins.mem
  · obtain ⟨twin, one, twins⟩ := h.twins designated reached there mem
    obtain ⟨aim, ha, input⟩ := twins.exists_target h designated ht
    have returns := twins.returns
    have output : node.output = twin.output := congrArg Outline.output twins.same
    rw [input, output]
    exact coherent.direct id twin twins.reached twins.found one twins.mem (by simpa [direct] using returns) aim ha
  · obtain ⟨twin, one, twins⟩ := h.twins designated reached there mem
    obtain ⟨aim, ha, input⟩ := twins.exists_target h designated ht
    have returns := twins.returns
    rw [converts, Option.map_some] at returns
    obtain ⟨conversion, hc, declared⟩ := Option.map_eq_some_iff.1 returns
    rw [input, ← declared]
    exact coherent.converting id twin twins.reached twins.found one twins.mem conversion hc aim ha
  · obtain ⟨node, there, fits⟩ := coherent.input input output (h.contract ▸ typed)
    obtain ⟨twin, found, same⟩ := h.symm.node? (.reached designated' .start) there
    have input : node.input = twin.input := congrArg Outline.input same
    exact ⟨twin, found, input ▸ fits⟩
  · obtain ⟨node, there, fits⟩ := coherent.output input output (h.contract ▸ typed) result (h.result ▸ hr)
    obtain ⟨twin, found, same⟩ := h.symm.node? (.result hr) there
    have output : node.output = twin.output := congrArg Outline.output same
    exact ⟨twin, found, output ▸ fits⟩

theorem Alike.errors_eq_nil {graph other : Orchestration} (h : Alike graph other) (assembled : Assembled graph)
    (otherAssembled : Assembled other) (valid : graph.validate.errors = []) : other.validate.errors = [] := by
  obtain ⟨entry, designated, coherent⟩ := (errors_validate_eq_nil_iff assembled).1 valid
  exact (errors_validate_eq_nil_iff otherAssembled).2
    ⟨entry, h.entry.trans designated, coherent.alike designated h⟩

/-! ## The verdict -/

/-- **Checked compilation.** A built graph is handed out, as it is, exactly when it has an entry and is coherent from
it. Two built graphs that are alike in what matters are accepted or refused together. A graph without an entry has one
error and no warning. -/
theorem compile_checked_iff {calls : List Call} {graph : Orchestration} (built : build calls = .ok graph) :
    (∀ returned, graph.compile true = .ok returned ↔
      returned = graph ∧ ∃ entry, graph.entry = some entry ∧ graph.Coherent entry) ∧
    (∀ otherCalls other, build otherCalls = .ok other → Alike graph other →
      (other.compile true = .ok other ↔ graph.compile true = .ok graph)) ∧
    (graph.entry = none → graph.validate = { errors := [.missingEntry], warnings := [] }) := by
  have assembled := build_assembled built
  refine ⟨fun returned => ?_, fun otherCalls other otherBuilt alike => ?_, validate_of_entry_none⟩
  · rw [compile_true_iff, errors_validate_eq_nil_iff assembled]
  · have otherAssembled := build_assembled otherBuilt
    simp only [compile_true_iff, true_and]
    exact ⟨alike.symm.errors_eq_nil otherAssembled assembled, alike.errors_eq_nil assembled otherAssembled⟩

/-- two nodes that lead to each other, the second one registered after the first one leads to it -/
def loopCalls : List Call :=
  [.addNode { id := ⟨"a"⟩, step := .identity .int64 }, .addAdvancer ⟨"a"⟩ (.always (.direct ⟨"b"⟩)),
    .addNode { id := ⟨"b"⟩, step := .identity .int64 }, .addAdvancer ⟨"b"⟩ (.always (.direct ⟨"a"⟩)), .setEntry ⟨"a"⟩]

def loopGraph : Orchestration :=
  { nodes := [{ id := ⟨"a"⟩, step := .identity .int64, advancers := [.always (.direct ⟨"b"⟩)] },
      { id := ⟨"b"⟩, step := .identity .int64, advancers := [.always (.direct ⟨"a"⟩)] }],
    entry := some ⟨"a"⟩ }

theorem compile_checked_iff_loop :
    build loopCalls = .ok loopGraph ∧ loopGraph.compile true = .ok loopGraph ∧
      loopGraph.Coherent ⟨"a"⟩ := by
  have built : build loopCalls = .ok loopGraph := by rfl
  have compiled : loopGraph.compile true = .ok loopGraph := compile_true_iff.2 ⟨rfl, by decide +kernel⟩
  obtain ⟨-, entry, designated, coherent⟩ := ((compile_checked_iff built).1 loopGraph).1 compiled
  exact ⟨built, compiled, Option.some.inj designated ▸ coherent⟩

end Orchestration

end StepFlow
