/-
A graph is a faithful record of the calls that built it.

What a graph holds can be read off its calls (`recorded`): the nodes that were registered, in their order, each with the
advancers that it carried and then those that were attached to it. While it is assembled the graph is kept as a table and a
list of names (`Registry`), which the calls change apart from each other. `Keeps` is what the two have to agree on for the
registry to be that graph. Results:
- `nodes_build`: a built graph has the recorded nodes;
- `Keeps.apply`: every call keeps a registry and its graph together, and refuses both for the same reason;
- `Registry.yields_nodes`, `Registry.yields_advancers`: going through a registry yields each node and each advancer once;
- `build_records`: all of it said of a script.
-/
import StepFlow.Build.Registry
import StepFlow.Proofs.Build.Carried
import StepFlow.Run.Moves

namespace StepFlow

/-! ## What calls say -/

def Call.node? : Call → Option Node
  | .addNode node => some node
  | _ => none

def Call.advancer? (source : NodeId) : Call → Option Advancer
  | .addAdvancer id advancer => if id = source then some advancer else none
  | _ => none

def Call.entry? : Call → Option NodeId
  | .setEntry id => some id
  | _ => none

def Call.result? : Call → Option NodeId
  | .setResult id => some id
  | _ => none

def registered (calls : List Call) : List Node :=
  calls.filterMap Call.node?

def attachedTo (source : NodeId) (calls : List Call) : List Advancer :=
  calls.filterMap (Call.advancer? source)

/-- a node with the advancers that calls attach to it behind its own -/
def Node.extended (calls : List Call) (node : Node) : Node :=
  { node with advancers := node.advancers ++ attachedTo node.id calls }

/-- the nodes that calls leave behind -/
def recorded (calls : List Call) : List Node :=
  (registered calls).map (Node.extended calls)

@[simp] theorem Node.id_extended (calls : List Call) (node : Node) : (node.extended calls).id = node.id := rfl

@[simp] theorem Node.extended_nil (node : Node) : node.extended [] = node := by
  simp [Node.extended, attachedTo]

theorem Node.extended_cons (call : Call) (rest : List Call) (node : Node) :
    node.extended (call :: rest) = (node.extended [call]).extended rest := by
  have split : attachedTo node.id (call :: rest) = attachedTo node.id [call] ++ attachedTo node.id rest := by
    rw [attachedTo, ← List.singleton_append, List.filterMap_append]
    rfl
  simp only [Node.extended, split, List.append_assoc]

theorem Node.extended_of_none {call : Call} {node : Node} (h : call.advancer? node.id = none) :
    node.extended [call] = node := by
  simp [Node.extended, attachedTo, h]

theorem Call.eq_addAdvancer {call : Call} {source : NodeId} {advancer : Advancer} (h : call.advancer? source = some advancer) :
    call = .addAdvancer source advancer := by
  cases call with
  | addAdvancer id other =>
    simp only [Call.advancer?, Option.ite_none_right_eq_some, Option.some.injEq] at h
    rw [h.1, h.2]
  | _ => cases h

namespace Orchestration

/-! ## Nodes and designations -/

/-- **What a call does to the nodes**: it puts the node that it registers behind them and extends the one to which it
attaches an advancer. -/
theorem nodes_apply {graph after : Orchestration} {call : Call} (accepted : graph.apply call = .ok after) :
    after.nodes = graph.nodes.map (Node.extended [call]) ++ call.node?.toList := by
  have same : (∀ id, call.advancer? id = none) → graph.nodes.map (Node.extended [call]) = graph.nodes := fun none =>
    (List.map_congr_left fun node _ => Node.extended_of_none (none node.id)).trans (List.map_id' _)
  cases call with
  | addNode node =>
    obtain ⟨-, -, -, -, rfl⟩ := addNode_ok accepted
    rw [same fun _ => rfl]
    rfl
  | addAdvancer source advancer =>
    obtain ⟨-, -, rfl⟩ := addAdvancer_ok accepted
    have nothing : (Call.addAdvancer source advancer).node?.toList = [] := rfl
    rw [nothing, List.append_nil]
    refine List.map_congr_left fun node _ => ?_
    split
    · rename_i named
      simp [Node.extended, attachedTo, Call.advancer?, Node.attach, named]
    · rename_i named
      exact (Node.extended_of_none (by simp [Call.advancer?, Ne.symm named])).symm
  | setEntry id =>
    obtain ⟨-, rfl⟩ := designate_ok accepted
    exact ((List.append_nil _).trans (same fun _ => rfl)).symm
  | setResult id =>
    obtain ⟨-, rfl⟩ := designate_ok accepted
    exact ((List.append_nil _).trans (same fun _ => rfl)).symm
  | setContract contract =>
    cases accepted
    exact ((List.append_nil _).trans (same fun _ => rfl)).symm
  | setStrict strict =>
    cases accepted
    exact ((List.append_nil _).trans (same fun _ => rfl)).symm

/-- **What calls do to the nodes.** The advancers that are attached to a node are all attached after it was registered, so
none of them is missed. -/
theorem nodes_applyAll {graph after : Orchestration} {calls : List Call} (assembled : Assembled graph)
    (accepted : graph.applyAll calls = .ok after) :
    after.nodes = (graph.nodes ++ registered calls).map (Node.extended calls) := by
  induction calls generalizing graph with
  | nil =>
    cases accepted
    have same : after.nodes.map (Node.extended []) = after.nodes :=
      (List.map_congr_left fun node _ => Node.extended_nil node).trans (List.map_id' _)
    rw [registered, List.filterMap_nil, List.append_nil, same]
  | cons call rest ih =>
    obtain ⟨next, step, accepted⟩ := applyAll_cons_ok accepted
    have later := ih (assembled.apply step) accepted
    have distinct := ((assembled.apply step).applyAll accepted).distinct
    have early : ∀ node ∈ call.node?.toList ++ registered rest, node.extended [call] = node := by
      intro node mem
      refine Node.extended_of_none (Option.eq_none_iff_forall_ne_some.2 fun advancer attaches => ?_)
      obtain rfl := Call.eq_addAdvancer attaches
      obtain ⟨there, -, rfl⟩ := addAdvancer_ok step
      -- the name would be given twice: to a node that is there already, and to one that is registered later
      have names : after.ids = graph.ids ++ (registered rest).map Node.id := by
        rw [← ids_attached graph node.id advancer, ids, later, List.map_map, List.map_append]
        rfl
      rw [names] at distinct
      exact (List.nodup_append.1 distinct).2.2 node.id (contains_iff_mem_ids.1 there) node.id (List.mem_map_of_mem mem) rfl
    have split : registered (call :: rest) = call.node?.toList ++ registered rest := by
      cases call <;> rfl
    calc after.nodes
      _ = ((graph.nodes.map (Node.extended [call]) ++ call.node?.toList) ++ registered rest).map (Node.extended rest) := by
        rw [later, nodes_apply step]
      _ = ((graph.nodes ++ registered (call :: rest)).map (Node.extended [call])).map (Node.extended rest) := by
        have same : (call.node?.toList ++ registered rest).map (Node.extended [call]) =
            call.node?.toList ++ registered rest := (List.map_congr_left early).trans (List.map_id' _)
        rw [split, List.append_assoc]
        refine congrArg (List.map (Node.extended rest)) ?_
        rw [List.map_append, same]
      _ = (graph.nodes ++ registered (call :: rest)).map (Node.extended (call :: rest)) := by
        rw [List.map_map]
        exact List.map_congr_left fun node _ => (Node.extended_cons call rest node).symm

theorem nodes_build {calls : List Call} {graph : Orchestration} (built : build calls = .ok graph) :
    graph.nodes = recorded calls :=
  nodes_applyAll empty_assembled built

theorem designations_apply {graph after : Orchestration} {call : Call} (accepted : graph.apply call = .ok after) :
    after.entry = call.entry?.or graph.entry ∧ after.result = call.result?.or graph.result := by
  cases call with
  | addNode node =>
    obtain ⟨-, -, -, -, rfl⟩ := addNode_ok accepted
    exact ⟨rfl, rfl⟩
  | addAdvancer source advancer =>
    obtain ⟨-, -, rfl⟩ := addAdvancer_ok accepted
    exact ⟨rfl, rfl⟩
  | setEntry id =>
    obtain ⟨-, rfl⟩ := designate_ok accepted
    exact ⟨rfl, rfl⟩
  | setResult id =>
    obtain ⟨-, rfl⟩ := designate_ok accepted
    exact ⟨rfl, rfl⟩
  | setContract contract =>
    cases accepted
    exact ⟨rfl, rfl⟩
  | setStrict strict =>
    cases accepted
    exact ⟨rfl, rfl⟩

/-- **What calls designate last** is what remains designated. -/
theorem designations_applyAll {graph after : Orchestration} {calls : List Call}
    (accepted : graph.applyAll calls = .ok after) :
    after.entry = (calls.filterMap Call.entry?).getLast?.or graph.entry ∧
      after.result = (calls.filterMap Call.result?).getLast?.or graph.result := by
  have last : ∀ (name? : Call → Option NodeId) (call : Call) (rest : List Call) (before : Option NodeId),
      (rest.filterMap name?).getLast?.or ((name? call).or before) = ((call :: rest).filterMap name?).getLast?.or before := by
    intro name? call rest before
    rw [List.filterMap_cons]
    cases name? call with
    | none => rfl
    | some id =>
      rw [List.getLast?_cons]
      cases (rest.filterMap name?).getLast? <;> rfl
  induction calls generalizing graph with
  | nil =>
    cases accepted
    exact ⟨rfl, rfl⟩
  | cons call rest ih =>
    obtain ⟨next, step, accepted⟩ := applyAll_cons_ok accepted
    obtain ⟨entry, result⟩ := designations_apply step
    rw [← last, ← last, ← entry, ← result]
    exact ih accepted

end Orchestration

/-! ## The registry -/

/-- a registry is kept as a graph says -/
structure Keeps (registry : Registry) (graph : Orchestration) : Prop where
  order : registry.order = graph.ids
  distinct : graph.ids.Nodup
  table : ∀ id, registry.node? id = graph.node? id
  entry : registry.entry = graph.entry
  result : registry.result = graph.result
  contract : registry.contract = graph.contract
  strict : registry.strict = graph.strict

/-- two answers to a call: both accept it and go on together, or both refuse it for the same reason -/
inductive Agree : Except BuildError Registry → Except BuildError Orchestration → Prop
  | accepted {registry : Registry} {graph : Orchestration} : Keeps registry graph → Agree (.ok registry) (.ok graph)
  | refused (refusal : BuildError) : Agree (.error refusal) (.error refusal)

namespace Keeps

open Orchestration (contains_iff contains_iff_mem_ids node?_of_mem id_of_node? node?_append node?_attached attachIf
  ids_attached)

variable {registry : Registry} {graph : Orchestration}

theorem empty : Keeps {} {} :=
  ⟨rfl, List.nodup_nil, fun _ => rfl, rfl, rfl, rfl, rfl⟩

theorem contains (h : Keeps registry graph) (id : NodeId) : registry.contains id = graph.contains id := by
  rw [Registry.contains, h.table, Orchestration.contains]

theorem listed (h : Keeps registry graph) : registry.order.filterMap registry.node? = graph.nodes := by
  have each : ∀ node ∈ graph.nodes, (registry.node? ∘ Node.id) node = some node := fun node mem =>
    (h.table node.id).trans (node?_of_mem h.distinct mem)
  rw [h.order, Orchestration.ids, List.filterMap_map, List.filterMap_congr each, List.filterMap_some]

theorem addNode (h : Keeps registry graph) (node : Node) : Agree (registry.addNode node) (graph.addNode node) := by
  have pending : (if registry.strict then registry.pendingMisfit node else none) =
      if graph.strict then graph.pendingMisfit node else none := by
    rw [h.strict, Registry.pendingMisfit, h.listed, Orchestration.pendingMisfit]
  unfold Registry.addNode Orchestration.addNode
  rw [h.contains, pending]
  generalize (if graph.strict then graph.pendingMisfit node else none) = misfit
  by_cases taken : graph.contains node.id = true
  · rw [if_pos taken, if_pos taken]
    exact .refused _
  rw [if_neg taken, if_neg taken]
  split
  · exact .refused _
  split
  · exact .refused _
  cases misfit with
  | some issue => exact .refused _
  | none =>
    have new : node.id ∉ graph.ids := fun mem => taken (contains_iff_mem_ids.2 mem)
    refine .accepted ⟨?_, ?_, fun id => ?_, h.entry, h.result, h.contract, h.strict⟩
    · simp only [h.order, Orchestration.ids, List.map_append, List.map_cons, List.map_nil]
    · simp only [Orchestration.ids, List.map_append, List.map_cons, List.map_nil]
      refine List.nodup_append.2 ⟨h.distinct, List.nodup_singleton _, fun id mem other same equal => ?_⟩
      exact new (List.mem_singleton.1 same ▸ equal ▸ mem)
    · rw [node?_append, Registry.node?]
      by_cases named : node.id = id
      · subst named
        have missing : graph.node? node.id = none := by simpa [Orchestration.contains] using taken
        rw [Finmap.lookup_insert, missing, if_pos rfl]
        rfl
      · rw [Finmap.lookup_insert_of_ne _ (Ne.symm named), if_neg named, Option.or_none]
        exact h.table id

theorem addAdvancer (h : Keeps registry graph) (source : NodeId) (advancer : Advancer) :
    Agree (registry.addAdvancer source advancer) (graph.addAdvancer source advancer) := by
  have waiting : (if registry.strict then registry.attachmentMisfit source advancer else none) =
      if graph.strict then graph.attachmentMisfit source advancer else none := by
    simp only [h.strict, Registry.attachmentMisfit, Orchestration.attachmentMisfit, h.table]
  unfold Registry.addAdvancer Orchestration.addAdvancer
  rw [waiting, h.table]
  generalize (if graph.strict then graph.attachmentMisfit source advancer else none) = misfit
  cases misfit with
  | some issue => exact .refused _
  | none =>
    cases found : graph.node? source with
    | none =>
      have missing : ¬graph.contains source = true := by simp [Orchestration.contains, found]
      simp only [if_neg missing]
      exact .refused _
    | some node =>
      simp only [if_pos (contains_iff.2 ⟨node, found⟩)]
      have kept : (graph.attached source advancer).ids = graph.ids := ids_attached graph source advancer
      have named : node.id = source := id_of_node? found
      have table : ∀ id, (registry.table.insert source (node.attach advancer)).lookup id =
          (graph.attached source advancer).node? id := by
        intro id
        rw [node?_attached]
        by_cases same : id = source
        · subst same
          rw [Finmap.lookup_insert, found, Option.map_some, attachIf, if_pos named]
        · rw [Finmap.lookup_insert_of_ne _ same]
          refine (h.table id).trans ?_
          cases there : graph.node? id with
          | none => rfl
          | some other =>
            have apart : other.id ≠ source := fun equal => same ((id_of_node? there).symm.trans equal)
            rw [Option.map_some, attachIf, if_neg apart]
      exact .accepted ⟨h.order.trans kept.symm, kept ▸ h.distinct, table, h.entry, h.result, h.contract, h.strict⟩

/-- **Every call keeps a registry and its graph together.** -/
theorem apply (h : Keeps registry graph) (call : Call) : Agree (registry.apply call) (graph.apply call) := by
  cases call with
  | addNode node => exact h.addNode node
  | addAdvancer source advancer => exact h.addAdvancer source advancer
  | setEntry id =>
    show Agree (registry.setEntry id) (graph.setEntry id)
    unfold Registry.setEntry Orchestration.setEntry
    rw [h.contains]
    split
    · exact .accepted { h with entry := rfl }
    · exact .refused _
  | setResult id =>
    show Agree (registry.setResult id) (graph.setResult id)
    unfold Registry.setResult Orchestration.setResult
    rw [h.contains]
    split
    · exact .accepted { h with result := rfl }
    · exact .refused _
  | setContract contract => exact .accepted { h with contract := rfl }
  | setStrict strict => exact .accepted { h with strict := rfl }

theorem applyAll (h : Keeps registry graph) (calls : List Call) :
    Agree (registry.applyAll calls) (graph.applyAll calls) := by
  induction calls generalizing registry graph with
  | nil => exact .accepted h
  | cons call rest ih =>
    have first : registry.applyAll (call :: rest) = (registry.apply call).bind fun next => next.applyAll rest := rfl
    rw [first, Orchestration.applyAll_cons]
    have both := h.apply call
    generalize registry.apply call = mine, graph.apply call = other at both ⊢
    cases both with
    | accepted next => exact ih next
    | refused refusal => exact .refused refusal

theorem mem_keys_iff (h : Keeps registry graph) {id : NodeId} : id ∈ registry.table.keys ↔ id ∈ registry.order := by
  rw [Finmap.mem_keys, ← Finmap.lookup_isSome, h.order, ← contains_iff_mem_ids, ← h.contains]
  rfl

end Keeps

/-! ## Going through a registry -/

/-- From a place on, exactly these are yielded, and then nothing more. -/
inductive Yields {Place Item : Type} (next : Place → Option (Item × Place)) : Place → List Item → Prop
  | done {place : Place} : next place = none → Yields next place []
  | next {place after : Place} {item : Item} {rest : List Item} : next place = some (item, after) →
      Yields next after rest → Yields next place (item :: rest)

theorem Yields.of_eq {Place Item : Type} {next : Place → Option (Item × Place)} {place other : Place} {items : List Item}
    (h : Yields next other items) (same : next place = next other) : Yields next place items := by
  cases h with
  | done nothing => exact .done (same.trans nothing)
  | next first rest => exact .next (same.trans first) rest

namespace Registry

variable (registry : Registry)

/-- The names that are left yield the nodes that are kept under them. -/
theorem yields_nodes (ids : List NodeId) : Yields registry.nextNode ids (ids.filterMap registry.node?) := by
  induction ids with
  | nil => exact .done rfl
  | cons id rest ih =>
    cases found : registry.node? id with
    | none =>
      rw [List.filterMap_cons_none found]
      exact ih.of_eq (by rw [nextNode, found])
    | some node =>
      rw [List.filterMap_cons_some found]
      exact .next (by rw [nextNode, found]) ih

theorem yields_current (source : NodeId) (advancers : List Advancer) {ids : List NodeId} {items : List (NodeId × Advancer)}
    (h : Yields registry.nextAdvancer { ids := ids } items) :
    Yields registry.nextAdvancer { ids := ids, current := some (source, advancers) }
      (advancers.map (fun advancer => (source, advancer)) ++ items) := by
  induction advancers with
  | nil => exact h.of_eq (by rw [nextAdvancer, nextAdvancer])
  | cons advancer rest ih => exact .next (by rw [nextAdvancer]) ih

/-- The names that are left yield the advancers of the nodes that are kept under them, node by node. -/
theorem yields_advancers (ids : List NodeId) :
    Yields registry.nextAdvancer { ids := ids }
      ((ids.filterMap registry.node?).flatMap fun node => node.advancers.map fun advancer => (node.id, advancer)) := by
  induction ids with
  | nil => exact .done (by rw [nextAdvancer]; rfl)
  | cons id rest ih =>
    cases found : registry.node? id with
    | none =>
      have skips : registry.nextNode (id :: rest) = registry.nextNode rest := by rw [nextNode, found]
      rw [List.filterMap_cons_none found]
      exact ih.of_eq (by rw [nextAdvancer, nextAdvancer, skips])
    | some node =>
      have visits : registry.nextNode (id :: rest) = some (node, rest) := by rw [nextNode, found]
      rw [List.filterMap_cons_some found, List.flatMap_cons]
      exact (registry.yields_current node.id node.advancers ih).of_eq (by rw [nextAdvancer, visits])

end Registry

/-! ## What validation and runs rely on -/

namespace Orchestration

theorem Assembled.not_missingType {graph : Orchestration} (assembled : Assembled graph) (id : NodeId) (port : Port) :
    .missingType id port ∉ graph.validate.errors ∧ .missingType id port ∉ graph.validate.warnings := by
  cases designated : graph.entry with
  | none => simp [validate_of_entry_none designated]
  | some entry =>
    obtain ⟨first, found⟩ := contains_iff.1 (assembled.entry entry designated)
    suffices clean : ∀ issue ∈ (graph.reachableFrom entry).flatMap graph.findings ++
        graph.unvisited entry (Survey.complete graph { visited := [entry], queue := [entry] }).visited ++
        graph.contractIssues first, issue ≠ .missingType id port by
      rw [validate_eq_ofIssues designated found]
      exact ⟨fun listed => clean _ (Report.mem_of_mem_listed .error listed) rfl,
        fun listed => clean _ (Report.mem_of_mem_listed .warning listed) rfl⟩
    rintro issue listed rfl
    simp only [List.mem_append] at listed
    rcases listed with (finding | missed) | asked
    · obtain ⟨node, reached, finding⟩ := List.mem_flatMap.1 finding
      have there := mem_nodes_of_node? (node?_of_mem_reachableFrom reached)
      obtain ⟨input, output⟩ := assembled.declared node there
      rcases List.mem_append.1 finding with finding | finding
      · rcases Node.mem_issues finding with other | ⟨-, undeclared⟩ | ⟨-, undeclared⟩
        · cases other
        · exact Bool.false_ne_true (input.symm.trans undeclared)
        · exact Bool.false_ne_true (output.symm.trans undeclared)
      · obtain ⟨position, advancer, -, finding⟩ := mem_edgesIssues.1 finding
        rcases mem_edgeIssues finding with other | ⟨target, -, misfits⟩ | other
        · cases other
        · rcases Advancer.misfit_eq_some misfits with ⟨_, _, other⟩ | ⟨_, _, other⟩ <;> cases other
        · cases other
    · obtain ⟨other, -, same⟩ := List.mem_map.1 missed
      cases same
    · rcases mem_contractIssues asked with ⟨_, _, other⟩ | other | ⟨_, _, _, other⟩ <;> cases other

end Orchestration

/-- A run of a graph whose entry is registered is admitted there, unless it was cancelled before. -/
theorem start_admitted {launch : Launch} {entry : NodeId} {node : Node} (designated : launch.graph.entry = some entry)
    (found : launch.graph.node? entry = some node) (shared : Shared) :
    (RunState.start launch).walk.act launch [] shared =
      some (if shared.isCancelled [] then Walk.fail [] shared (.cancelled node.id)
        else (shared, .admitted node launch.input)) := by
  simp only [RunState.start, designated, Walk.act, found]
  split <;> rfl

/-! ## The record -/

/-- what a registry and the graph that it is owe to the calls -/
structure BuildRecord (calls : List Call) (registry : Registry) (graph : Orchestration) : Prop where
  /-- the names are those of the registered nodes, in the order of the calls and without repetition -/
  order : registry.order = (registered calls).map Node.id
  distinct : registry.order.Nodup
  /-- the table has exactly these names, each with a node of that name -/
  keys : ∀ id, id ∈ registry.table.keys ↔ id ∈ registry.order
  named : ∀ id node, registry.node? id = some node → node.id = id
  /-- going through the nodes yields each of them, in that order -/
  nodes : Yields registry.nextNode registry.order (recorded calls)
  /-- going through the advancers yields, node by node, those it carried and then those that were attached to it -/
  advancers : Yields registry.nextAdvancer { ids := registry.order }
    ((registered calls).flatMap fun node =>
      (node.advancers ++ attachedTo node.id calls).map fun advancer => (node.id, advancer))
  /-- the designated nodes are those designated last, and are registered -/
  entry : registry.entry = (calls.filterMap Call.entry?).getLast?
  result : registry.result = (calls.filterMap Call.result?).getLast?
  designated : ∀ id, registry.entry = some id ∨ registry.result = some id → registry.contains id = true
  declared : ∀ id node, registry.node? id = some node → node.input.isUndeclared = false ∧ node.output.isUndeclared = false
  /-- the graph holds the same -/
  keeps : Keeps registry graph
  held : graph.nodes = recorded calls

/-- **A graph is a faithful record of its calls.** Whatever calls are accepted, in whatever order, the registry that they
leave holds just what they said: names, nodes, advancers and designations, nothing lost, repeated or regrouped. So
validation never reports a missing type, and finds the entry, as every run of the graph does. -/
theorem build_records {calls : List Call} {graph : Orchestration} (built : Orchestration.build calls = .ok graph) :
    ∃ registry, Registry.build calls = .ok registry ∧ BuildRecord calls registry graph ∧
      (∀ id port, .missingType id port ∉ graph.validate.errors ∧ .missingType id port ∉ graph.validate.warnings) ∧
      ∀ entry, registry.entry = some entry → ∃ node, graph.node? entry = some node ∧
        ∀ launch : Launch, launch.graph = graph → ∀ shared : Shared,
          (RunState.start launch).walk.act launch [] shared =
            some (if shared.isCancelled [] then Walk.fail [] shared (.cancelled node.id)
              else (shared, .admitted node launch.input)) := by
  have assembled := Orchestration.build_assembled built
  have nodes : graph.nodes = recorded calls := Orchestration.nodes_build built
  obtain ⟨entry, result⟩ := Orchestration.designations_applyAll built
  obtain ⟨registry, same, keeps⟩ : ∃ registry, Registry.build calls = .ok registry ∧ Keeps registry graph := by
    have both : Agree (Registry.build calls) (Orchestration.build calls) := Keeps.empty.applyAll calls
    rw [built] at both
    generalize Registry.build calls = mine at both ⊢
    cases both with
    | accepted keeps => exact ⟨_, rfl, keeps⟩
  have order : registry.order = (registered calls).map Node.id := by
    rw [keeps.order, Orchestration.ids, nodes, recorded, List.map_map]
    rfl
  refine ⟨registry, same, ?_, assembled.not_missingType, fun id designated => ?_⟩
  · refine
      { order, distinct := keeps.order ▸ keeps.distinct, keys := fun id => keeps.mem_keys_iff,
        named := fun id node found => Orchestration.id_of_node? ((keeps.table id).symm.trans found),
        nodes := ?_, advancers := ?_, entry := ?_, result := ?_, designated := ?_, declared := ?_, keeps, held := nodes }
    · have yields := registry.yields_nodes registry.order
      rwa [keeps.listed, nodes] at yields
    · have yields := registry.yields_advancers registry.order
      rwa [keeps.listed, nodes, recorded, List.flatMap_map] at yields
    · rw [keeps.entry, entry, Option.or_none]
    · rw [keeps.result, result, Option.or_none]
    · rintro id (designated | designated)
      · exact (keeps.contains id).trans (assembled.entry id (keeps.entry ▸ designated))
      · exact (keeps.contains id).trans (assembled.result id (keeps.result ▸ designated))
    · intro id node found
      exact assembled.declared node (Orchestration.mem_nodes_of_node? ((keeps.table id).symm.trans found))
  · have designated : graph.entry = some id := keeps.entry ▸ designated
    obtain ⟨node, found⟩ := Orchestration.contains_iff.1 (assembled.entry id designated)
    refine ⟨node, found, ?_⟩
    rintro launch rfl shared
    exact start_admitted designated found shared

/-- a node that brings an advancer along, one that has none, and advancers attached out of order -/
def wovenCalls : List Call :=
  [.addNode { id := ⟨"a"⟩, step := .identity .string, advancers := [.always (.direct ⟨"c"⟩)] },
    .addNode { id := ⟨"b"⟩, step := .identity .string, deadEnd := true }, .setEntry ⟨"b"⟩,
    .addNode { id := ⟨"c"⟩, step := .identity .string }, .addAdvancer ⟨"c"⟩ (.always (.direct ⟨"a"⟩)),
    .addAdvancer ⟨"a"⟩ (.always (.direct ⟨"b"⟩)), .setEntry ⟨"a"⟩]

def wovenGraph : Orchestration :=
  { nodes :=
      [{ id := ⟨"a"⟩, step := .identity .string, advancers := [.always (.direct ⟨"c"⟩), .always (.direct ⟨"b"⟩)] },
        { id := ⟨"b"⟩, step := .identity .string, deadEnd := true },
        { id := ⟨"c"⟩, step := .identity .string, advancers := [.always (.direct ⟨"a"⟩)] }],
    entry := some ⟨"a"⟩ }

theorem build_records_woven :
    Orchestration.build wovenCalls = .ok wovenGraph ∧ ∃ registry, Registry.build wovenCalls = .ok registry ∧
      registry.order = [⟨"a"⟩, ⟨"b"⟩, ⟨"c"⟩] ∧ registry.entry = some ⟨"a"⟩ ∧ registry.result = none ∧
      Yields registry.nextAdvancer { ids := registry.order }
        [(⟨"a"⟩, .always (.direct ⟨"c"⟩)), (⟨"a"⟩, .always (.direct ⟨"b"⟩)), (⟨"c"⟩, .always (.direct ⟨"a"⟩))] := by
  have built : Orchestration.build wovenCalls = .ok wovenGraph := by rfl
  obtain ⟨registry, same, records, -, -⟩ := build_records built
  exact ⟨built, registry, same, records.order, records.entry, records.result, records.advancers⟩

end StepFlow
