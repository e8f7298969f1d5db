/-
What every assembled graph has.

`Assembled` holds of the empty graph and is kept by every call that is not refused, so that it holds of every graph
that a list of calls builds (`build_assembled`): names are distinct, types are declared, and the designated entry and
result are registered. The inversion lemmas `addNode_ok` and `addAdvancer_ok` say all that an accepted call has
checked and done, and `applyAll_cons_ok` takes the first of the calls of a script apart.
-/
import StepFlow.Build.Call
import StepFlow.Proofs.Orchestration.Reached

namespace StepFlow.Orchestration

/-! ## Accepted calls -/

theorem addNode_ok {graph after : Orchestration} {node : Node} (h : graph.addNode node = .ok after) :
    graph.contains node.id = false ∧ node.input.isUndeclared = false ∧ node.output.isUndeclared = false ∧
      (graph.strict = true → graph.pendingMisfit node = none) ∧
      after = { graph with nodes := graph.nodes ++ [node] } := by
  unfold addNode at h
  split at h
  · cases h
  · rename_i taken
    split at h
    · cases h
    · rename_i input
      split at h
      · cases h
      · rename_i output
        split at h
        · cases h
        · rename_i fits
          refine ⟨by simpa using taken, by simpa using input, by simpa using output, fun strict => ?_, ?_⟩
          · simpa [strict] using fits
          · exact (Except.ok.inj h).symm

def attached (graph : Orchestration) (source : NodeId) (advancer : Advancer) : Orchestration :=
  { graph with nodes := graph.nodes.map fun node => if node.id = source then node.attach advancer else node }

theorem addAdvancer_ok {graph after : Orchestration} {source : NodeId} {advancer : Advancer}
    (h : graph.addAdvancer source advancer = .ok after) :
    graph.contains source = true ∧ (graph.strict = true → graph.attachmentMisfit source advancer = none) ∧
      after = graph.attached source advancer := by
  unfold addAdvancer at h
  split at h
  · cases h
  · rename_i fits
    split at h
    · rename_i registered
      exact ⟨registered, fun strict => by simpa [strict] using fits, (Except.ok.inj h).symm⟩
    · cases h

theorem designate_ok {graph after designated : Orchestration} {id : NodeId} {role : Role}
    (h : (if graph.contains id then .ok designated else .error (BuildError.unknownNode id role)) = Except.ok after) :
    graph.contains id = true ∧ after = designated := by
  split at h
  · rename_i registered
    exact ⟨registered, (Except.ok.inj h).symm⟩
  · cases h

theorem applyAll_cons (graph : Orchestration) (call : Call) (rest : List Call) :
    graph.applyAll (call :: rest) = (graph.apply call).bind fun next => next.applyAll rest := rfl

theorem applyAll_cons_ok {graph after : Orchestration} {call : Call} {rest : List Call}
    (h : graph.applyAll (call :: rest) = .ok after) :
    ∃ next, graph.apply call = .ok next ∧ next.applyAll rest = .ok after := by
  rw [applyAll_cons] at h
  cases step : graph.apply call with
  | error refusal => rw [step] at h; cases h
  | ok next => rw [step] at h; exact ⟨next, rfl, h⟩

/-! ## Names and types are kept -/

@[simp] theorem ids_attached (graph : Orchestration) (source : NodeId) (advancer : Advancer) :
    (graph.attached source advancer).ids = graph.ids := by
  simp only [attached, ids, List.map_map]
  refine List.map_congr_left fun node _ => ?_
  by_cases h : node.id = source <;> simp [h, Node.attach]

theorem mem_attached {graph : Orchestration} {source : NodeId} {advancer : Advancer} {node : Node}
    (h : node ∈ (graph.attached source advancer).nodes) :
    ∃ before ∈ graph.nodes, node.step = before.step := by
  obtain ⟨before, mem, rfl⟩ := List.mem_map.1 h
  refine ⟨before, mem, ?_⟩
  split <;> rfl

/-! ## The invariant -/

structure Assembled (graph : Orchestration) : Prop where
  distinct : graph.ids.Nodup
  declared : ∀ node ∈ graph.nodes, node.input.isUndeclared = false ∧ node.output.isUndeclared = false
  entry : ∀ id, graph.entry = some id → graph.contains id = true
  result : ∀ id, graph.result = some id → graph.contains id = true

theorem empty_assembled : Assembled {} := by
  constructor <;> simp [ids]

theorem Assembled.addNode {graph after : Orchestration} {node : Node} (h : Assembled graph)
    (added : graph.addNode node = .ok after) : Assembled after := by
  obtain ⟨fresh, input, output, -, rfl⟩ := addNode_ok added
  have grows : ∀ id, graph.contains id = true →
      ({ graph with nodes := graph.nodes ++ [node] } : Orchestration).contains id = true := by
    intro id hc
    rw [contains_iff_mem_ids] at hc ⊢
    simp only [ids, List.map_append]
    exact List.mem_append_left _ hc
  refine ⟨?_, fun other mem => ?_, fun id he => grows id (h.entry id he), fun id hr => grows id (h.result id hr)⟩
  · have new : node.id ∉ graph.ids := by
      rw [← contains_iff_mem_ids]
      simp [fresh]
    simp only [ids, List.map_append, List.map_cons, List.map_nil]
    refine List.nodup_append.2 ⟨h.distinct, by simp, fun id mem other ho same => ?_⟩
    rw [List.mem_singleton.1 ho] at same
    exact new (same ▸ mem)
  · rcases List.mem_append.1 mem with mem | mem
    · exact h.declared other mem
    · rw [List.mem_singleton.1 mem]
      exact ⟨input, output⟩

theorem Assembled.attached {graph : Orchestration} (h : Assembled graph) (source : NodeId) (advancer : Advancer) :
    Assembled (graph.attached source advancer) := by
  have same : ∀ id, (graph.attached source advancer).contains id = true ↔ graph.contains id = true := fun id => by
    rw [contains_iff_mem_ids, contains_iff_mem_ids, ids_attached]
  refine ⟨by rw [ids_attached]; exact h.distinct, fun node mem => ?_, fun id he => (same id).2 (h.entry id he),
    fun id hr => (same id).2 (h.result id hr)⟩
  obtain ⟨before, hb, step⟩ := mem_attached mem
  simp only [Node.input, Node.output, step]
  exact h.declared before hb

theorem Assembled.apply {graph after : Orchestration} {call : Call} (h : Assembled graph)
    (accepted : graph.apply call = .ok after) : Assembled after := by
  cases call with
  | addNode node => exact h.addNode accepted
  | addAdvancer source advancer =>
    obtain ⟨-, -, rfl⟩ := addAdvancer_ok accepted
    exact h.attached source advancer
  | setEntry id =>
    obtain ⟨registered, rfl⟩ := designate_ok accepted
    exact { h with entry := fun other he => Option.some.inj he ▸ registered }
  | setResult id =>
    obtain ⟨registered, rfl⟩ := designate_ok accepted
    exact { h with result := fun other hr => Option.some.inj hr ▸ registered }
  | setContract contract =>
    cases accepted
    exact { h with }
  | setStrict strict =>
    cases accepted
    exact { h with }

theorem Assembled.applyAll {graph after : Orchestration} {calls : List Call} (h : Assembled graph)
    (accepted : graph.applyAll calls = .ok after) : Assembled after := by
  induction calls generalizing graph with
  | nil =>
    cases accepted
    exact h
  | cons call rest ih =>
    obtain ⟨next, step, accepted⟩ := applyAll_cons_ok accepted
    exact ih (h.apply step) accepted

theorem build_assembled {calls : List Call} {graph : Orchestration} (built : build calls = .ok graph) :
    Assembled graph :=
  empty_assembled.applyAll built

end StepFlow.Orchestration
