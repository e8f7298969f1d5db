/-
Strict attachment and validation apply the same rule.

A script that never touches the attachment rule is run twice, as it is and with strict attachment set from the start. The
two builds go in lockstep as long as every advancer between two registered nodes fits. An advancer is looked at when it
is attached, if its target is there, and otherwise when its target is registered; so the strict build stops at the call
that brings the first misfit, and the lenient one keeps that misfit to its end. Results:
- `apply_carries`: which misfits a call brings, and that none goes away;
- `applyAll_strictly`: a whole script, from any graph in which every advancer fits;
- `strict_build_agrees`: the strict build accepts a script exactly if the lenient one does and leaves no misfit, reached
  from the entry or not, and otherwise it is refused for a misfit that validation reports if the entry reaches it.
-/
import StepFlow.Proofs.Validation.Coherent

namespace StepFlow

/-- a call that neither changes the attachment rule nor registers a node that carries advancers already -/
def Call.IsPlain : Call → Prop
  | .addNode node => node.advancers = []
  | .setStrict _ => False
  | _ => True

/-- Whether an advancer fits depends on the names and the declared types of the nodes alone. -/
theorem Advancer.misfit_congr (advancer : Advancer) {source target otherSource otherTarget : Node}
    (sourceId : otherSource.id = source.id) (sourceStep : otherSource.step = source.step)
    (targetId : otherTarget.id = target.id) (targetStep : otherTarget.step = target.step) :
    advancer.misfit otherSource otherTarget = advancer.misfit source target := by
  unfold Advancer.misfit Node.input Node.output
  rw [sourceId, sourceStep, targetId, targetStep]

namespace Orchestration

/-! ## Misfits of a graph -/

/-- an advancer of a registered node whose target is registered -/
structure Joins (graph : Orchestration) (source : Node) (advancer : Advancer) (target : Node) : Prop where
  registered : source ∈ graph.nodes
  attached : advancer ∈ source.advancers
  leads : graph.node? advancer.target = some target

/-- the issue is that of an advancer between two registered nodes, reached from the entry or not -/
def Faults (graph : Orchestration) (issue : Issue) : Prop :=
  ∃ source advancer target, graph.Joins source advancer target ∧ advancer.misfit source target = some issue

/-- no advancer between two registered nodes, reached from the entry or not, has an issue -/
def Fitting (graph : Orchestration) : Prop :=
  ∀ source advancer target, graph.Joins source advancer target → advancer.misfit source target = none

theorem fitting_iff {graph : Orchestration} : graph.Fitting ↔ ∀ issue, ¬graph.Faults issue := by
  constructor
  · rintro fitting issue ⟨source, advancer, target, joins, misfits⟩
    rw [fitting source advancer target joins] at misfits
    cases misfits
  · intro clean source advancer target joins
    cases misfits : advancer.misfit source target with
    | none => rfl
    | some issue => exact absurd ⟨source, advancer, target, joins, misfits⟩ (clean issue)

theorem Faults.of_nodes {graph other : Orchestration} {issue : Issue} (h : graph.Faults issue)
    (nodes : other.nodes = graph.nodes) : other.Faults issue := by
  obtain ⟨source, advancer, target, ⟨registered, attached, leads⟩, misfits⟩ := h
  refine ⟨source, advancer, target, ⟨nodes ▸ registered, attached, ?_⟩, misfits⟩
  rw [node?, nodes]
  exact leads

/-! ## The misfits that a call brings -/

theorem node?_append (graph : Orchestration) (node : Node) (id : NodeId) :
    ({ graph with nodes := graph.nodes ++ [node] } : Orchestration).node? id =
      (graph.node? id).or (if node.id = id then some node else none) := by
  simp only [node?, List.find?_append, List.find?_singleton, beq_iff_eq]

/-- What a new node joins: the advancers that have waited for it, and those that it carries already. -/
theorem joins_addNode_iff {graph : Orchestration} {node : Node} (fresh : graph.contains node.id = false)
    {source target : Node} {advancer : Advancer} :
    ({ graph with nodes := graph.nodes ++ [node] } : Orchestration).Joins source advancer target ↔
      graph.Joins source advancer target ∨
        (source ∈ graph.nodes ∧ advancer ∈ source.advancers ∧ advancer.target = node.id ∧ target = node) ∨
        source = node ∧ advancer ∈ node.advancers ∧
          (graph.node? advancer.target = some target ∨ advancer.target = node.id ∧ target = node) := by
  have missing : graph.node? node.id = none := by simpa [contains] using fresh
  have leads_iff : ({ graph with nodes := graph.nodes ++ [node] } : Orchestration).node? advancer.target = some target ↔
      graph.node? advancer.target = some target ∨ advancer.target = node.id ∧ target = node := by
    rw [node?_append]
    by_cases named : advancer.target = node.id
    · simp [named, missing, eq_comm]
    · simp [named, Ne.symm named]
  constructor
  · rintro ⟨registered, attached, leads⟩
    rcases List.mem_append.1 registered with registered | new
    · rcases leads_iff.1 leads with leads | ⟨waits, same⟩
      · exact Or.inl ⟨registered, attached, leads⟩
      · exact Or.inr (Or.inl ⟨registered, attached, waits, same⟩)
    · obtain rfl := List.mem_singleton.1 new
      exact Or.inr (Or.inr ⟨rfl, attached, leads_iff.1 leads⟩)
  · rintro (⟨registered, attached, leads⟩ | ⟨registered, attached, waits⟩ | ⟨rfl, attached, leads⟩)
    · exact ⟨List.mem_append_left _ registered, attached, leads_iff.2 (Or.inl leads)⟩
    · exact ⟨List.mem_append_left _ registered, attached, leads_iff.2 (Or.inr waits)⟩
    · exact ⟨List.mem_append_right _ List.mem_cons_self, attached, leads_iff.2 leads⟩

theorem faults_addNode_iff {graph : Orchestration} {node : Node} (fresh : graph.contains node.id = false)
    (bare : node.advancers = []) {issue : Issue} :
    ({ graph with nodes := graph.nodes ++ [node] } : Orchestration).Faults issue ↔
      graph.Faults issue ∨ ∃ source ∈ graph.nodes, ∃ advancer ∈ source.advancers,
        advancer.target = node.id ∧ advancer.misfit source node = some issue := by
  constructor
  · rintro ⟨source, advancer, target, joins, misfits⟩
    rcases (joins_addNode_iff fresh).1 joins with joins | ⟨registered, attached, waits, rfl⟩ | ⟨-, attached, -⟩
    · exact Or.inl ⟨source, advancer, target, joins, misfits⟩
    · exact Or.inr ⟨source, registered, advancer, attached, waits, misfits⟩
    · rw [bare] at attached
      cases attached
  · rintro (⟨source, advancer, target, joins, misfits⟩ | ⟨source, registered, advancer, attached, waits, misfits⟩)
    · exact ⟨source, advancer, target, (joins_addNode_iff fresh).2 (Or.inl joins), misfits⟩
    · exact ⟨source, advancer, node,
        (joins_addNode_iff fresh).2 (Or.inr (Or.inl ⟨registered, attached, waits, rfl⟩)), misfits⟩

def attachIf (source : NodeId) (advancer : Advancer) (node : Node) : Node :=
  if node.id = source then node.attach advancer else node

@[simp] theorem id_attachIf (source : NodeId) (advancer : Advancer) (node : Node) :
    (attachIf source advancer node).id = node.id := by
  unfold attachIf
  split <;> rfl

@[simp] theorem step_attachIf (source : NodeId) (advancer : Advancer) (node : Node) :
    (attachIf source advancer node).step = node.step := by
  unfold attachIf
  split <;> rfl

theorem mem_advancers_attachIf {source : NodeId} {advancer other : Advancer} {node : Node} :
    other ∈ (attachIf source advancer node).advancers ↔ other ∈ node.advancers ∨ node.id = source ∧ other = advancer := by
  unfold attachIf
  split
  · rename_i named
    simp [Node.attach, named]
  · rename_i named
    simp [named]

theorem node?_attached (graph : Orchestration) (source : NodeId) (advancer : Advancer) (id : NodeId) :
    (graph.attached source advancer).node? id = (graph.node? id).map (attachIf source advancer) := by
  have kept : ((fun node : Node => node.id == id) ∘ attachIf source advancer) = fun node => node.id == id := by
    funext node
    simp
  rw [node?, attached, node?, ← kept, ← List.find?_map]
  simp only [kept]
  rfl

@[simp] theorem misfit_attachIf (source : NodeId) (advancer one : Advancer) (first second : Node) :
    one.misfit (attachIf source advancer first) (attachIf source advancer second) = one.misfit first second :=
  one.misfit_congr (by simp) (by simp) (by simp) (by simp)

/-- What an advancer that is attached joins: what was joined before, and its own source and target. -/
theorem joins_attached {graph : Orchestration} {source : NodeId} {advancer one : Advancer} {first second : Node}
    (h : (graph.attached source advancer).Joins first one second) :
    ∃ before target, first = attachIf source advancer before ∧ second = attachIf source advancer target ∧
      (graph.Joins before one target ∨
        before ∈ graph.nodes ∧ before.id = source ∧ one = advancer ∧ graph.node? advancer.target = some target) := by
  obtain ⟨before, there, rfl⟩ := List.mem_map.1 h.registered
  have leads := h.leads
  rw [node?_attached] at leads
  obtain ⟨target, found, rfl⟩ := Option.map_eq_some_iff.1 leads
  refine ⟨before, target, rfl, rfl, ?_⟩
  rcases mem_advancers_attachIf.1 h.attached with attached | ⟨named, rfl⟩
  · exact Or.inl ⟨there, attached, found⟩
  · exact Or.inr ⟨there, named, rfl, found⟩

theorem attachmentMisfit_of_found {graph : Orchestration} (distinct : graph.ids.Nodup) {source target : Node}
    {advancer : Advancer} (registered : source ∈ graph.nodes) (leads : graph.node? advancer.target = some target) :
    graph.attachmentMisfit source.id advancer = advancer.misfit source target := by
  simp only [attachmentMisfit, node?_of_mem distinct registered, leads, Option.bind_eq_bind, Option.bind_some]

theorem faults_attached_iff {graph : Orchestration} (distinct : graph.ids.Nodup) {source : NodeId} {advancer : Advancer}
    {issue : Issue} :
    (graph.attached source advancer).Faults issue ↔
      graph.Faults issue ∨ graph.attachmentMisfit source advancer = some issue := by
  constructor
  · rintro ⟨_, one, _, joins, misfits⟩
    obtain ⟨before, target, rfl, rfl, joins | ⟨there, rfl, rfl, found⟩⟩ := joins_attached joins
    · rw [misfit_attachIf] at misfits
      exact Or.inl ⟨before, one, target, joins, misfits⟩
    · rw [misfit_attachIf] at misfits
      exact Or.inr ((attachmentMisfit_of_found distinct there found).trans misfits)
  · rintro (⟨before, one, target, joins, misfits⟩ | misfits)
    · refine ⟨attachIf source advancer before, one, attachIf source advancer target,
        ⟨List.mem_map_of_mem joins.registered, mem_advancers_attachIf.2 (Or.inl joins.attached), ?_⟩, ?_⟩
      · rw [node?_attached, joins.leads, Option.map_some]
      · rw [misfit_attachIf, misfits]
    · simp only [attachmentMisfit, Option.bind_eq_bind, Option.bind_eq_some_iff] at misfits
      obtain ⟨before, found, target, there, misfits⟩ := misfits
      refine ⟨attachIf source advancer before, advancer, attachIf source advancer target,
        ⟨List.mem_map_of_mem (mem_nodes_of_node? found),
          mem_advancers_attachIf.2 (Or.inr ⟨id_of_node? found, rfl⟩), ?_⟩, ?_⟩
      · rw [node?_attached, there, Option.map_some]
      · rw [misfit_attachIf, misfits]

theorem pendingMisfit_eq_some {graph : Orchestration} {node : Node} {issue : Issue}
    (h : graph.pendingMisfit node = some issue) : ∃ source ∈ graph.nodes, ∃ advancer ∈ source.advancers,
      advancer.target = node.id ∧ advancer.misfit source node = some issue := by
  obtain ⟨source, mem, found⟩ := List.exists_of_findSome?_eq_some h
  obtain ⟨advancer, attached, misfits⟩ := List.exists_of_findSome?_eq_some found
  rw [Option.ite_none_right_eq_some] at misfits
  exact ⟨source, mem, advancer, attached, misfits⟩

theorem pendingMisfit_eq_none {graph : Orchestration} {node : Node} (h : graph.pendingMisfit node = none) {source : Node}
    (mem : source ∈ graph.nodes) {advancer : Advancer} (attached : advancer ∈ source.advancers)
    (waits : advancer.target = node.id) : advancer.misfit source node = none := by
  have clean := List.findSome?_eq_none_iff.1 (List.findSome?_eq_none_iff.1 h source mem) advancer attached
  rwa [if_pos waits] at clean

/-! ## One call, twice -/

def strictly (graph : Orchestration) : Orchestration := { graph with strict := true }

@[simp] theorem strict_strictly (graph : Orchestration) : graph.strictly.strict = true := rfl

@[simp] theorem contains_strictly (graph : Orchestration) (id : NodeId) :
    graph.strictly.contains id = graph.contains id := rfl

@[simp] theorem pendingMisfit_strictly (graph : Orchestration) (node : Node) :
    graph.strictly.pendingMisfit node = graph.pendingMisfit node := rfl

@[simp] theorem attachmentMisfit_strictly (graph : Orchestration) (source : NodeId) (advancer : Advancer) :
    graph.strictly.attachmentMisfit source advancer = graph.attachmentMisfit source advancer := rfl

/-- the issue for which strict attachment refuses a call -/
def newMisfit (graph : Orchestration) : Call → Option Issue
  | .addNode node => graph.pendingMisfit node
  | .addAdvancer source advancer => graph.attachmentMisfit source advancer
  | _ => none

/-- the second graph has the misfits of the first, the new one if there is one, and otherwise no others -/
structure Carries (graph after : Orchestration) (new : Option Issue) : Prop where
  kept : ∀ issue, graph.Faults issue → after.Faults issue
  brought : ∀ issue, new = some issue → after.Faults issue
  clean : new = none → ∀ issue, after.Faults issue → graph.Faults issue

theorem Carries.of_nodes {graph after : Orchestration} (nodes : after.nodes = graph.nodes) : Carries graph after none :=
  ⟨fun _ faults => faults.of_nodes nodes, by simp, fun _ _ faults => faults.of_nodes nodes.symm⟩

section

variable {graph after : Orchestration} {call : Call}

/-- A call that the lenient build accepts is refused by the strict one exactly for the misfit that it brings. -/
theorem apply_strictly (plain : call.IsPlain) (accepted : graph.apply call = .ok after) :
    graph.strictly.apply call =
      match graph.newMisfit call with
      | some issue => .error (.incompatibleAdvancer issue)
      | none => .ok after.strictly := by
  cases call with
  | addNode node =>
    obtain ⟨fresh, input, output, -, rfl⟩ := addNode_ok accepted
    simp only [apply, addNode, newMisfit, contains_strictly, pendingMisfit_strictly, strict_strictly, fresh, input,
      output, Bool.false_eq_true, if_false, if_true]
    rfl
  | addAdvancer source advancer =>
    obtain ⟨registered, -, rfl⟩ := addAdvancer_ok accepted
    simp only [apply, addAdvancer, newMisfit, contains_strictly, attachmentMisfit_strictly, strict_strictly, registered,
      if_true]
    rfl
  | setEntry id =>
    obtain ⟨registered, rfl⟩ := designate_ok accepted
    exact if_pos registered
  | setResult id =>
    obtain ⟨registered, rfl⟩ := designate_ok accepted
    exact if_pos registered
  | setContract contract =>
    cases accepted
    rfl
  | setStrict strict => exact absurd plain id

theorem apply_of_strictly (lenient : graph.strict = false) {strict : Orchestration}
    (accepted : graph.strictly.apply call = .ok strict) : ∃ after, graph.apply call = .ok after := by
  cases call with
  | addNode node =>
    obtain ⟨fresh, input, output, -, -⟩ := addNode_ok accepted
    rw [contains_strictly] at fresh
    exact ⟨_, by simp only [apply, addNode, fresh, input, output, lenient, Bool.false_eq_true, if_false]; rfl⟩
  | addAdvancer source advancer =>
    obtain ⟨registered, -, -⟩ := addAdvancer_ok accepted
    rw [contains_strictly] at registered
    exact ⟨_, by simp only [apply, addAdvancer, registered, lenient, Bool.false_eq_true, if_false, if_true]; rfl⟩
  | setEntry id => exact ⟨_, if_pos (designate_ok accepted).1⟩
  | setResult id => exact ⟨_, if_pos (designate_ok accepted).1⟩
  | setContract contract => exact ⟨_, rfl⟩
  | setStrict strict => exact ⟨_, rfl⟩

theorem strict_apply (plain : call.IsPlain) (accepted : graph.apply call = .ok after) : after.strict = graph.strict := by
  cases call with
  | addNode node =>
    obtain ⟨-, -, -, -, rfl⟩ := addNode_ok accepted
    rfl
  | addAdvancer source advancer =>
    obtain ⟨-, -, rfl⟩ := addAdvancer_ok accepted
    rfl
  | setEntry id =>
    obtain ⟨-, rfl⟩ := designate_ok accepted
    rfl
  | setResult id =>
    obtain ⟨-, rfl⟩ := designate_ok accepted
    rfl
  | setContract contract =>
    cases accepted
    rfl
  | setStrict strict => exact absurd plain id

/-- **What a call carries over.** The misfits of a graph stay, and the only new ones come with the issue for which
strict attachment refuses the call. -/
theorem apply_carries (plain : call.IsPlain) (assembled : Assembled graph) (accepted : graph.apply call = .ok after) :
    Carries graph after (graph.newMisfit call) := by
  cases call with
  | addNode node =>
    obtain ⟨fresh, -, -, -, rfl⟩ := addNode_ok accepted
    refine ⟨fun issue faults => ?_, fun issue new => ?_, fun fits issue faults => ?_⟩
    · exact (faults_addNode_iff fresh plain).2 (Or.inl faults)
    · exact (faults_addNode_iff fresh plain).2 (Or.inr (pendingMisfit_eq_some new))
    · refine ((faults_addNode_iff fresh plain).1 faults).resolve_right ?_
      rintro ⟨source, mem, advancer, attached, waits, misfits⟩
      rw [pendingMisfit_eq_none fits mem attached waits] at misfits
      cases misfits
  | addAdvancer source advancer =>
    obtain ⟨-, -, rfl⟩ := addAdvancer_ok accepted
    have faults_iff : ∀ issue, (graph.attached source advancer).Faults issue ↔
        graph.Faults issue ∨ graph.attachmentMisfit source advancer = some issue :=
      fun _ => faults_attached_iff assembled.distinct
    refine ⟨fun issue faults => (faults_iff issue).2 (Or.inl faults), fun issue new => (faults_iff issue).2 (Or.inr new), ?_⟩
    intro fits issue faults
    refine ((faults_iff issue).1 faults).resolve_right fun misfits => ?_
    cases misfits.symm.trans fits
  | setEntry id =>
    obtain ⟨-, rfl⟩ := designate_ok accepted
    exact .of_nodes rfl
  | setResult id =>
    obtain ⟨-, rfl⟩ := designate_ok accepted
    exact .of_nodes rfl
  | setContract contract =>
    cases accepted
    exact .of_nodes rfl
  | setStrict strict => exact absurd plain id

end

/-! ## A script, twice -/

theorem faults_applyAll {graph after : Orchestration} {calls : List Call} (plain : ∀ call ∈ calls, call.IsPlain)
    (assembled : Assembled graph) (accepted : graph.applyAll calls = .ok after) {issue : Issue}
    (faults : graph.Faults issue) : after.Faults issue := by
  induction calls generalizing graph with
  | nil =>
    cases accepted
    exact faults
  | cons call rest ih =>
    obtain ⟨next, step, accepted⟩ := applyAll_cons_ok accepted
    have carries := apply_carries (plain call List.mem_cons_self) assembled step
    exact ih (fun other mem => plain other (List.mem_cons_of_mem _ mem)) (assembled.apply step) accepted
      (carries.kept issue faults)

/-- **In lockstep.** From a graph in which every advancer fits, the strict build of a script that the lenient one accepts
either ends with the same graph, in which every advancer fits, or it is refused for a misfit that the graph has. -/
theorem applyAll_strictly {graph after : Orchestration} {calls : List Call} (plain : ∀ call ∈ calls, call.IsPlain)
    (assembled : Assembled graph) (fitting : graph.Fitting) (accepted : graph.applyAll calls = .ok after) :
    (after.Fitting ∧ graph.strictly.applyAll calls = .ok after.strictly) ∨
      ∃ issue, after.Faults issue ∧ graph.strictly.applyAll calls = .error (.incompatibleAdvancer issue) := by
  induction calls generalizing graph with
  | nil =>
    cases accepted
    exact Or.inl ⟨fitting, rfl⟩
  | cons call rest ih =>
    have first := plain call List.mem_cons_self
    have others : ∀ other ∈ rest, other.IsPlain := fun other mem => plain other (List.mem_cons_of_mem _ mem)
    obtain ⟨next, step, accepted⟩ := applyAll_cons_ok accepted
    have carries := apply_carries first assembled step
    rw [applyAll_cons, apply_strictly first step]
    cases new : graph.newMisfit call with
    | some issue =>
      have faults : next.Faults issue := carries.brought issue new
      exact Or.inr ⟨issue, faults_applyAll others (assembled.apply step) accepted faults, rfl⟩
    | none =>
      have clean : next.Fitting :=
        fitting_iff.2 fun issue faults => fitting_iff.1 fitting issue (carries.clean new issue faults)
      exact ih others (assembled.apply step) clean accepted

theorem applyAll_of_strictly {graph strict : Orchestration} {calls : List Call} (plain : ∀ call ∈ calls, call.IsPlain)
    (lenient : graph.strict = false) (accepted : graph.strictly.applyAll calls = .ok strict) :
    ∃ after, graph.applyAll calls = .ok after := by
  induction calls generalizing graph with
  | nil => exact ⟨graph, rfl⟩
  | cons call rest ih =>
    have first := plain call List.mem_cons_self
    obtain ⟨next, step, accepted⟩ := applyAll_cons_ok accepted
    obtain ⟨after, same⟩ := apply_of_strictly lenient step
    rw [apply_strictly first same] at step
    cases new : graph.newMisfit call with
    | some issue => rw [new] at step; cases step
    | none =>
      rw [new] at step
      obtain rfl := Except.ok.inj step
      rw [applyAll_cons, same]
      exact ih (fun other mem => plain other (List.mem_cons_of_mem _ mem)) ((strict_apply first same).trans lenient)
        accepted

/-! ## The same rule -/

/-- Validation reports every misfit of an advancer whose source is reached from the entry. -/
theorem mem_errors_of_joins {graph : Orchestration} (assembled : Assembled graph) {entry : NodeId}
    (designated : graph.entry = some entry) {source target : Node} {advancer : Advancer}
    (joins : graph.Joins source advancer target) (reached : graph.Reached entry source.id) {issue : Issue}
    (misfits : advancer.misfit source target = some issue) : issue ∈ graph.validate.errors := by
  have registered := assembled.entry entry designated
  obtain ⟨node, found⟩ := contains_iff.1 registered
  obtain ⟨position, indexed⟩ := List.mem_iff_getElem?.1 joins.attached
  have listed : source ∈ graph.reachableFrom entry :=
    (mem_reachableFrom_iff registered).2 ⟨reached, node?_of_mem assembled.distinct joins.registered⟩
  have noted : issue ∈ graph.edgeIssues source (0 + position) advancer := by
    simp [edgeIssues, joins.leads, misfits]
  have finding : issue ∈ graph.findings source :=
    List.mem_append_right _ (mem_edgesIssues.2 ⟨position, advancer, indexed, noted⟩)
  rw [errors_validate designated found]
  refine List.mem_filter.2 ⟨List.mem_append_left _ (List.mem_flatMap.2 ⟨source, listed, finding⟩), ?_⟩
  simpa using Advancer.severity_of_misfit misfits

/-- **Strict attachment and validation apply the same rule.** A plain script is accepted with strict attachment set from
the start exactly if it is accepted without and leaves no misfit between registered nodes, whether the entry reaches them
or not; the two graphs are then the same but for the setting. If only the strict build is refused, it is for a misfit of
the graph that the lenient one builds, and validation reports that misfit there if the entry reaches its source. -/
theorem strict_build_agrees {calls : List Call} (plain : ∀ call ∈ calls, call.IsPlain) :
    ((∃ strict, build (.setStrict true :: calls) = .ok strict) ↔ ∃ lenient, build calls = .ok lenient ∧ lenient.Fitting) ∧
    (∀ strict lenient, build (.setStrict true :: calls) = .ok strict → build calls = .ok lenient →
      strict = { lenient with strict := true }) ∧
    ∀ lenient refusal, build calls = .ok lenient → build (.setStrict true :: calls) = .error refusal →
      ∃ issue source advancer target, refusal = .incompatibleAdvancer issue ∧ lenient.Joins source advancer target ∧
        advancer.misfit source target = some issue ∧
        ∀ entry, lenient.entry = some entry → lenient.Reached entry source.id → issue ∈ lenient.validate.errors := by
  have strictBuild : build (.setStrict true :: calls) = ({} : Orchestration).strictly.applyAll calls := rfl
  have fitting : ({} : Orchestration).Fitting := by
    rintro source advancer target ⟨registered, -, -⟩
    cases registered
  have lockstep : ∀ {lenient : Orchestration}, build calls = .ok lenient →
      (lenient.Fitting ∧ ({} : Orchestration).strictly.applyAll calls = .ok lenient.strictly) ∨ ∃ issue,
        lenient.Faults issue ∧ ({} : Orchestration).strictly.applyAll calls = .error (.incompatibleAdvancer issue) :=
    fun accepted => applyAll_strictly plain empty_assembled fitting accepted
  rw [strictBuild]
  refine ⟨⟨?_, ?_⟩, ?_, ?_⟩
  · rintro ⟨strict, accepted⟩
    obtain ⟨lenient, same⟩ := applyAll_of_strictly plain rfl accepted
    refine ⟨lenient, same, ?_⟩
    rcases lockstep same with ⟨fits, -⟩ | ⟨issue, -, refused⟩
    · exact fits
    · rw [refused] at accepted
      cases accepted
  · rintro ⟨lenient, accepted, fits⟩
    rcases lockstep accepted with ⟨-, same⟩ | ⟨issue, faults, -⟩
    · exact ⟨_, same⟩
    · exact absurd faults (fitting_iff.1 fits issue)
  · intro strict lenient accepted same
    rcases lockstep same with ⟨-, again⟩ | ⟨issue, -, refused⟩
    · rw [again] at accepted
      exact (Except.ok.inj accepted).symm
    · rw [refused] at accepted
      cases accepted
  · intro lenient refusal accepted refused
    rcases lockstep accepted with ⟨-, same⟩ | ⟨issue, ⟨source, advancer, target, joins, misfits⟩, again⟩
    · rw [same] at refused
      cases refused
    · rw [again] at refused
      refine ⟨issue, source, advancer, target, (Except.error.inj refused).symm, joins, misfits, ?_⟩
      exact fun entry designated reached => mem_errors_of_joins (build_assembled accepted) designated joins reached misfits

/-- an advancer that waits for its target, which turns out to take values of another type -/
def lateCalls : List Call :=
  [.addNode { id := ⟨"a"⟩, step := .identity .string }, .addAdvancer ⟨"a"⟩ (.always (.direct ⟨"b"⟩)),
    .addNode { id := ⟨"b"⟩, step := .identity .int32, deadEnd := true }, .setEntry ⟨"a"⟩]

def lateGraph : Orchestration :=
  { nodes := [{ id := ⟨"a"⟩, step := .identity .string, advancers := [.always (.direct ⟨"b"⟩)] },
      { id := ⟨"b"⟩, step := .identity .int32, deadEnd := true }],
    entry := some ⟨"a"⟩ }

theorem strict_build_agrees_late :
    (∀ call ∈ lateCalls, call.IsPlain) ∧ build lateCalls = .ok lateGraph ∧
    build (.setStrict true :: lateCalls) =
      .error (.incompatibleAdvancer (.directTypeMismatch ⟨"a"⟩ ⟨"b"⟩ "String" "Int32")) ∧
    .directTypeMismatch ⟨"a"⟩ ⟨"b"⟩ "String" "Int32" ∈ lateGraph.validate.errors := by
  have plain : ∀ call ∈ lateCalls, call.IsPlain := by simp [lateCalls, Call.IsPlain]
  have accepted : build lateCalls = .ok lateGraph := by rfl
  have refused : build (.setStrict true :: lateCalls) =
      .error (.incompatibleAdvancer (.directTypeMismatch ⟨"a"⟩ ⟨"b"⟩ "String" "Int32")) := by rfl
  obtain ⟨issue, source, advancer, target, same, joins, misfits, reports⟩ :=
    (strict_build_agrees plain).2.2 lateGraph _ accepted refused
  obtain rfl := BuildError.incompatibleAdvancer.inj same
  have later : lateGraph.Reached ⟨"a"⟩ (Advancer.always (.direct ⟨"b"⟩)).target :=
    .follow .start rfl List.mem_cons_self rfl
  have reached : ∀ node ∈ lateGraph.nodes, lateGraph.Reached ⟨"a"⟩ node.id := by
    intro node mem
    simp only [lateGraph, List.mem_cons, List.not_mem_nil, or_false] at mem
    rcases mem with rfl | rfl
    · exact .start
    · exact later
  exact ⟨plain, accepted, refused, reports ⟨"a"⟩ rfl (reached source joins.registered)⟩

end Orchestration

end StepFlow
