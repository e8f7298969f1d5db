/-
What strict attachment overlooks.

Strict attachment is there to refuse an advancer that does not fit as soon as both its nodes are registered. Attaching an
advancer checks it, and registering a node checks the advancers that have waited for it; but a node may be registered with
advancers that it carries already, and of these, the ones that lead to the node itself or to one that is registered are
checked nowhere. `CarriedIn` says which advancers came so. Results:
- `addNode_carrying`: no node is refused for the advancers that it carries;
- `Guarded.apply`: one call under strict attachment, whatever node it registers;
- `strict_build_misfits`: as long as strict attachment is never switched off, every misfit of the built graph, and every
  type mismatch that validation reports, is that of an advancer which was carried in;
- `strict_build_leaks`: misfits that are carried in, and the same misfits refused where they come another way.
-/
import StepFlow.Proofs.Build.Strict

namespace StepFlow

def Issue.isMismatch : Issue → Bool
  | .directTypeMismatch _ _ _ _ => true
  | .converterTypeMismatch _ _ _ _ => true
  | _ => false

/-- The advancer came with the node of that name, when the node was registered, and led to the node itself or to one
that had been registered before. -/
def CarriedIn (calls : List Call) (source : NodeId) (advancer : Advancer) : Prop :=
  ∃ before node rest, calls = before ++ Call.addNode node :: rest ∧ node.id = source ∧ advancer ∈ node.advancers ∧
    (advancer.target = node.id ∨ ∃ other, Call.addNode other ∈ before ∧ other.id = advancer.target)

theorem CarriedIn.append {calls : List Call} {source : NodeId} {advancer : Advancer} (h : CarriedIn calls source advancer)
    (more : List Call) : CarriedIn (calls ++ more) source advancer := by
  obtain ⟨before, node, rest, rfl, carries⟩ := h
  exact ⟨before, node, rest ++ more, by simp, carries⟩

theorem CarriedIn.advancers_ne_nil {calls : List Call} {source : NodeId} {advancer : Advancer}
    (h : CarriedIn calls source advancer) : ∃ node, Call.addNode node ∈ calls ∧ node.advancers ≠ [] := by
  obtain ⟨before, node, rest, rfl, -, carried, -⟩ := h
  exact ⟨node, List.mem_append_right _ List.mem_cons_self, List.ne_nil_of_mem carried⟩

namespace Orchestration

/-! ## Mismatches in a report -/

theorem not_isMismatch_of_mem_issues {node : Node} {issue : Issue} (h : issue ∈ node.issues) : issue.isMismatch = false := by
  rcases Node.mem_issues h with rfl | ⟨rfl, -⟩ | ⟨rfl, -⟩ <;> rfl

theorem not_isMismatch_of_mem_contractIssues {graph : Orchestration} {entry : Node} {issue : Issue}
    (h : issue ∈ graph.contractIssues entry) : issue.isMismatch = false := by
  rcases mem_contractIssues h with ⟨_, _, rfl⟩ | rfl | ⟨_, _, _, rfl⟩ <;> rfl

theorem misfit_of_mem_edgeIssues {graph : Orchestration} {source : Node} {index : Nat} {advancer : Advancer} {issue : Issue}
    (h : issue ∈ graph.edgeIssues source index advancer) (mismatch : issue.isMismatch = true) :
    ∃ target, graph.node? advancer.target = some target ∧ advancer.misfit source target = some issue := by
  rcases mem_edgeIssues h with rfl | misfits | rfl
  · cases mismatch
  · exact misfits
  · cases mismatch

theorem faults_of_mem_errors {graph : Orchestration} (assembled : Assembled graph) {issue : Issue}
    (reported : issue ∈ graph.validate.errors) (mismatch : issue.isMismatch = true) : graph.Faults issue := by
  cases designated : graph.entry with
  | none =>
    rw [validate_of_entry_none designated, List.mem_singleton] at reported
    rw [reported] at mismatch
    cases mismatch
  | some entry =>
    have registered := assembled.entry entry designated
    obtain ⟨node, found⟩ := contains_iff.1 registered
    rw [errors_validate designated found] at reported
    rcases List.mem_append.1 (List.mem_filter.1 reported).1 with finding | finding
    · obtain ⟨source, listed, finding⟩ := List.mem_flatMap.1 finding
      have there := mem_nodes_of_node? (node?_of_mem_reachableFrom listed)
      rcases List.mem_append.1 finding with finding | finding
      · rw [not_isMismatch_of_mem_issues finding] at mismatch
        cases mismatch
      · obtain ⟨position, advancer, indexed, finding⟩ := mem_edgesIssues.1 finding
        obtain ⟨target, leads, misfits⟩ := misfit_of_mem_edgeIssues finding mismatch
        exact ⟨source, advancer, target, ⟨there, List.mem_of_getElem? indexed, leads⟩, misfits⟩
    · rw [not_isMismatch_of_mem_contractIssues finding] at mismatch
      cases mismatch

/-! ## One call -/

/-- what a build under strict attachment has after some calls -/
structure Guarded (done : List Call) (graph : Orchestration) : Prop where
  assembled : Assembled graph
  strict : graph.strict = true
  registered : ∀ id, graph.contains id = true → ∃ node, Call.addNode node ∈ done ∧ node.id = id
  carried : ∀ source advancer target issue, graph.Joins source advancer target →
    advancer.misfit source target = some issue → CarriedIn done source.id advancer

theorem Guarded.of_nodes {done : List Call} {graph after : Orchestration} (h : Guarded done graph) (call : Call)
    (assembled : Assembled after) (strict : after.strict = true) (nodes : after.nodes = graph.nodes) :
    Guarded (done ++ [call]) after := by
  have same : ∀ id, after.node? id = graph.node? id := fun id => by rw [node?, nodes, node?]
  refine ⟨assembled, strict, ?_, ?_⟩
  · intro id there
    rw [contains, same] at there
    obtain ⟨node, mem, named⟩ := h.registered id there
    exact ⟨node, List.mem_append_left _ mem, named⟩
  · rintro source advancer target issue ⟨registered, attached, leads⟩ misfits
    rw [nodes] at registered
    rw [same] at leads
    exact (h.carried source advancer target issue ⟨registered, attached, leads⟩ misfits).append [call]

/-- **No node is refused for the advancers that it carries**, under strict attachment or not. -/
theorem addNode_carrying (graph : Orchestration) (node : Node) (advancers : List Advancer) :
    graph.addNode { node with advancers := advancers } =
      (graph.addNode node).map fun after =>
        { after with nodes := graph.nodes ++ [{ node with advancers := advancers }] } := by
  have named : ({ node with advancers := advancers } : Node).id = node.id := rfl
  have takes : ({ node with advancers := advancers } : Node).input = node.input := rfl
  have gives : ({ node with advancers := advancers } : Node).output = node.output := rfl
  have unseen : graph.pendingMisfit { node with advancers := advancers } = graph.pendingMisfit node := rfl
  unfold addNode
  rw [named, takes, gives, unseen]
  split_ifs
  · rfl
  · rfl
  · rfl
  · cases graph.pendingMisfit node <;> rfl
  · rfl

theorem Guarded.addNode {done : List Call} {graph after : Orchestration} (h : Guarded done graph) {node : Node}
    (accepted : graph.addNode node = .ok after) : Guarded (done ++ [Call.addNode node]) after := by
  have assembled := h.assembled.addNode accepted
  obtain ⟨fresh, -, -, fits, rfl⟩ := addNode_ok accepted
  refine ⟨assembled, h.strict, ?_, ?_⟩
  · intro id there
    rw [contains, node?_append, Option.isSome_or, Bool.or_eq_true] at there
    rcases there with there | new
    · obtain ⟨other, mem, named⟩ := h.registered id there
      exact ⟨other, List.mem_append_left _ mem, named⟩
    · exact ⟨node, by simp, by simpa using new⟩
  · intro source advancer target issue joins misfits
    rcases (joins_addNode_iff fresh).1 joins with joins | ⟨mem, attached, waits, rfl⟩ | ⟨rfl, carries, leads⟩
    · exact (h.carried source advancer target issue joins misfits).append _
    · rw [pendingMisfit_eq_none (fits h.strict) mem attached waits] at misfits
      cases misfits
    · refine ⟨done, source, [], rfl, rfl, carries, ?_⟩
      rcases leads with leads | ⟨itself, -⟩
      · exact Or.inr (h.registered advancer.target (contains_iff.2 ⟨target, leads⟩))
      · exact Or.inl itself

theorem Guarded.addAdvancer {done : List Call} {graph after : Orchestration} (h : Guarded done graph) {source : NodeId}
    {advancer : Advancer} (accepted : graph.addAdvancer source advancer = .ok after) :
    Guarded (done ++ [Call.addAdvancer source advancer]) after := by
  obtain ⟨-, fits, rfl⟩ := addAdvancer_ok accepted
  refine ⟨h.assembled.attached source advancer, h.strict, ?_, ?_⟩
  · intro id there
    rw [contains_iff_mem_ids, ids_attached, ← contains_iff_mem_ids] at there
    obtain ⟨node, mem, named⟩ := h.registered id there
    exact ⟨node, List.mem_append_left _ mem, named⟩
  · intro first one second issue joins misfits
    obtain ⟨before, target, rfl, rfl, joins | ⟨mem, rfl, rfl, leads⟩⟩ := joins_attached joins
    · rw [misfit_attachIf] at misfits
      rw [id_attachIf]
      exact (h.carried before one target issue joins misfits).append _
    · rw [misfit_attachIf, ← attachmentMisfit_of_found h.assembled.distinct mem leads, fits h.strict] at misfits
      cases misfits

/-- **One call under strict attachment.** Every misfit after it is that of an advancer that was carried in. -/
theorem Guarded.apply {done : List Call} {graph after : Orchestration} {call : Call} (h : Guarded done graph)
    (kept : call ≠ .setStrict false) (accepted : graph.apply call = .ok after) : Guarded (done ++ [call]) after := by
  have assembled := h.assembled.apply accepted
  cases call with
  | addNode node => exact h.addNode accepted
  | addAdvancer source advancer => exact h.addAdvancer accepted
  | setEntry id =>
    obtain ⟨-, rfl⟩ := designate_ok accepted
    exact h.of_nodes _ assembled h.strict rfl
  | setResult id =>
    obtain ⟨-, rfl⟩ := designate_ok accepted
    exact h.of_nodes _ assembled h.strict rfl
  | setContract contract =>
    cases accepted
    exact h.of_nodes _ assembled h.strict rfl
  | setStrict strict =>
    cases accepted
    cases strict with
    | true => exact h.of_nodes _ assembled rfl rfl
    | false => exact absurd rfl kept

/-! ## A script -/

theorem Guarded.applyAll {done calls : List Call} {graph after : Orchestration} (h : Guarded done graph)
    (kept : .setStrict false ∉ calls) (accepted : graph.applyAll calls = .ok after) : Guarded (done ++ calls) after := by
  induction calls generalizing done graph with
  | nil =>
    cases accepted
    rwa [List.append_nil]
  | cons call rest ih =>
    obtain ⟨next, step, accepted⟩ := applyAll_cons_ok accepted
    have first : call ≠ .setStrict false := fun same => kept (same ▸ List.mem_cons_self)
    rw [List.append_cons]
    exact ih (h.apply first step) (fun mem => kept (List.mem_cons_of_mem _ mem)) accepted

theorem guarded_strictly : Guarded [] ({} : Orchestration).strictly := by
  refine ⟨{ empty_assembled with }, rfl, ?_, ?_⟩
  · intro id there
    cases there
  · rintro source advancer target issue ⟨registered, -, -⟩
    cases registered

/-- **What strict attachment overlooks.** In a build that sets strict attachment first and never switches it off, with
whatever advancers its nodes carry, an advancer between two registered nodes fits unless it was carried in, and validation
reports a type mismatch only for an advancer that was. If every node is registered without advancers there is none. -/
theorem strict_build_misfits {calls : List Call} {graph : Orchestration} (kept : .setStrict false ∉ calls)
    (built : build (.setStrict true :: calls) = .ok graph) :
    (∀ source advancer target, graph.Joins source advancer target → ¬CarriedIn calls source.id advancer →
      advancer.misfit source target = none) ∧
    (∀ issue ∈ graph.validate.errors, issue.isMismatch = true → ∃ source advancer target,
      graph.Joins source advancer target ∧ advancer.misfit source target = some issue ∧
        CarriedIn calls source.id advancer) ∧
    ((∀ node, .addNode node ∈ calls → node.advancers = []) →
      graph.Fitting ∧ ∀ issue ∈ graph.validate.errors, issue.isMismatch = false) := by
  have guarded : Guarded calls graph := guarded_strictly.applyAll kept built
  have traced : ∀ issue ∈ graph.validate.errors, issue.isMismatch = true → ∃ source advancer target,
      graph.Joins source advancer target ∧ advancer.misfit source target = some issue ∧
        CarriedIn calls source.id advancer := by
    intro issue reported mismatch
    obtain ⟨source, advancer, target, joins, misfits⟩ := faults_of_mem_errors guarded.assembled reported mismatch
    exact ⟨source, advancer, target, joins, misfits, guarded.carried _ _ _ _ joins misfits⟩
  refine ⟨?_, traced, ?_⟩
  · intro source advancer target joins attached
    cases misfits : advancer.misfit source target with
    | none => rfl
    | some issue => exact absurd (guarded.carried _ _ _ _ joins misfits) attached
  · intro bare
    have uncarried : ∀ source advancer, ¬CarriedIn calls source advancer := by
      intro source advancer carried
      obtain ⟨node, mem, carries⟩ := carried.advancers_ne_nil
      exact carries (bare node mem)
    refine ⟨fitting_iff.2 ?_, ?_⟩
    · rintro issue ⟨source, advancer, target, joins, misfits⟩
      exact uncarried _ _ (guarded.carried _ _ _ _ joins misfits)
    · intro issue reported
      cases mismatch : issue.isMismatch with
      | false => rfl
      | true =>
        obtain ⟨source, advancer, -, -, -, carried⟩ := traced issue reported mismatch
        exact absurd carried (uncarried _ _)

/-- a node out of another graph, whose advancer passes texts on to `b` -/
def carrier : Node := { id := ⟨"a"⟩, step := .identity .string, advancers := [.always (.direct ⟨"b"⟩)] }

/-- the target of the carried advancer, with the type of the values that it takes -/
def carrierTarget (type : TypeDesc) : Node := { id := ⟨"b"⟩, step := .identity type, deadEnd := true }

def waitingCalls : List Call := [.addNode carrier, .addNode (carrierTarget .string), .setEntry ⟨"a"⟩]

def waitingGraph : Orchestration :=
  { nodes := [carrier, carrierTarget .string], entry := some ⟨"a"⟩, strict := true }

/-- An advancer that is carried in before its target is registered waits for it, and is looked at. -/
theorem strict_build_misfits_waiting :
    .setStrict false ∉ waitingCalls ∧ build (.setStrict true :: waitingCalls) = .ok waitingGraph ∧
      ¬CarriedIn waitingCalls ⟨"a"⟩ (.always (.direct ⟨"b"⟩)) ∧
      (Advancer.always (.direct ⟨"b"⟩)).misfit carrier (carrierTarget .string) = none := by
  have kept : .setStrict false ∉ waitingCalls := by simp [waitingCalls]
  have built : build (.setStrict true :: waitingCalls) = .ok waitingGraph := by rfl
  have joins : waitingGraph.Joins carrier (.always (.direct ⟨"b"⟩)) (carrierTarget .string) :=
    ⟨List.mem_cons_self, List.mem_cons_self, rfl⟩
  have waits : ¬CarriedIn waitingCalls carrier.id (.always (.direct ⟨"b"⟩)) := by
    rintro ⟨before, node, rest, split, -, carries, leads⟩
    rcases before with _ | ⟨first, _ | ⟨second, before⟩⟩
    · -- before the carrier nothing is registered, and its advancer does not lead back to it
      obtain rfl := Call.addNode.inj (List.cons.inj split).1
      rcases leads with itself | ⟨other, mem, -⟩
      · exact absurd itself (by decide)
      · cases mem
    · obtain rfl := Call.addNode.inj (List.cons.inj (List.cons.inj split).2).1
      cases carries
    · have last := (List.cons.inj (List.cons.inj split).2).2
      rcases before with _ | ⟨third, before⟩ <;> simp at last
  exact ⟨kept, built, waits, (strict_build_misfits kept built).1 _ _ _ joins waits⟩

/-- a node out of another graph whose values do not fit its own input, with an advancer back to itself -/
def looper : Node :=
  { id := ⟨"a"⟩, step := { input := .string, output := .int32, run := fun value _ => .done value },
    advancers := [.always (.direct ⟨"a"⟩)] }

/-- **Strict attachment is not airtight.** A node out of another graph brings a misfit to a registered node along, or one to
itself, and validation reports it. The same two nodes are refused if the one that carries the advancer is registered first,
and so are the same advancers if they are attached to the registered nodes. -/
theorem strict_build_leaks :
    (∃ donor, build [.addNode { id := ⟨"a"⟩, step := .identity .string },
        .addAdvancer ⟨"a"⟩ (.always (.direct ⟨"b"⟩))] = .ok donor ∧ donor.node? ⟨"a"⟩ = some carrier) ∧
    (∃ donor, build [.addNode { looper with advancers := [] },
        .addAdvancer ⟨"a"⟩ (.always (.direct ⟨"a"⟩))] = .ok donor ∧ donor.node? ⟨"a"⟩ = some looper) ∧
    (∃ graph, build [.setStrict true, .addNode (carrierTarget .int32), .addNode carrier, .setEntry ⟨"a"⟩] = .ok graph ∧
      .directTypeMismatch ⟨"a"⟩ ⟨"b"⟩ "String" "Int32" ∈ graph.validate.errors) ∧
    (∃ graph, build [.setStrict true, .addNode looper, .setEntry ⟨"a"⟩] = .ok graph ∧
      .directTypeMismatch ⟨"a"⟩ ⟨"a"⟩ "Int32" "String" ∈ graph.validate.errors) ∧
    build [.setStrict true, .addNode carrier, .addNode (carrierTarget .int32)] =
      .error (.incompatibleAdvancer (.directTypeMismatch ⟨"a"⟩ ⟨"b"⟩ "String" "Int32")) ∧
    build [.setStrict true, .addNode (carrierTarget .int32), .addNode { carrier with advancers := [] },
        .addAdvancer ⟨"a"⟩ (.always (.direct ⟨"b"⟩))] =
      .error (.incompatibleAdvancer (.directTypeMismatch ⟨"a"⟩ ⟨"b"⟩ "String" "Int32")) ∧
    build [.setStrict true, .addNode { looper with advancers := [] }, .addAdvancer ⟨"a"⟩ (.always (.direct ⟨"a"⟩))] =
      .error (.incompatibleAdvancer (.directTypeMismatch ⟨"a"⟩ ⟨"a"⟩ "Int32" "String")) := by
  refine ⟨⟨_, rfl, rfl⟩, ⟨_, rfl, rfl⟩, ⟨_, rfl, ?_⟩, ⟨_, rfl, ?_⟩, rfl, rfl, rfl⟩
  · decide +kernel
  · decide +kernel

end Orchestration

end StepFlow
