/-
The order of registration.

A graph keeps its nodes in the order in which they were registered. Two graphs with the same nodes in different orders
(`Rearranges`) answer alike for every name, and that is all that a walk, the search and the survey ask for. The order itself
shows in two places: in the warnings about nodes that are not reached, which come in that order, and in the numbers of
vertices, which the test for circles does not depend on. Results:
- `Rearranges.mirrors`: each of the two graphs looks like the other from everywhere;
- `Rearranges.phases`: the issues of a validation are the same up to the order of those warnings;
- `Rearranges.isCyclic`: a circle is found in both or in neither;
- `registration_order_irrelevant`: all of it for a built graph, with runs and their conclusions.
-/
import StepFlow.Proofs.Orchestration.Ranked
import StepFlow.Proofs.Run.Mirrored
import StepFlow.Proofs.Validation.Phases

namespace StepFlow

namespace Orchestration

/-- another graph has the same nodes in any order, the same designations and the same contract -/
structure Rearranges (graph other : Orchestration) : Prop where
  nodes : other.nodes.Perm graph.nodes
  entry : other.entry = graph.entry
  result : other.result = graph.result
  contract : other.contract = graph.contract

section

variable {graph other : Orchestration}

theorem Rearranges.ids (h : graph.Rearranges other) : other.ids.Perm graph.ids :=
  h.nodes.map Node.id

theorem Rearranges.node? (h : graph.Rearranges other) (distinct : graph.ids.Nodup) (id : NodeId) :
    other.node? id = graph.node? id := by
  refine Option.ext fun node => ?_
  rw [node?_eq_some_iff distinct, node?_eq_some_iff (h.ids.nodup_iff.2 distinct), h.nodes.mem_iff]

theorem Rearranges.mirrors (h : graph.Rearranges other) (distinct : graph.ids.Nodup) (entry : NodeId) :
    graph.Mirrors other entry :=
  ⟨fun id _ => h.node? distinct id, h.result⟩

theorem Rearranges.asked (h : graph.Rearranges other) (distinct : graph.ids.Nodup) (entry : NodeId) :
    other.asked entry = graph.asked entry := by
  have same : other.node? = graph.node? := funext (h.node? distinct)
  simp only [Orchestration.asked, contractIssues, resultIssues, h.contract, h.result, same]

/-! ## Validation -/

/-- Issues about nodes that are not reached aside, the phases of both graphs are the same. -/
theorem Rearranges.filter_phases (h : graph.Rearranges other) (distinct : graph.ids.Nodup) (entry : NodeId)
    {keeps : Issue → Bool} (blind : ∀ id, keeps (.unreachable id entry) = false) :
    (other.phases entry).filter keeps = (graph.phases entry).filter keeps := by
  rw [other.filter_phases blind, graph.filter_phases blind, (h.mirrors distinct entry).searched, h.asked distinct]

/-- **The phases of both graphs are the same** up to the order of the issues. -/
theorem Rearranges.phases (h : graph.Rearranges other) (distinct : graph.ids.Nodup) (entry : NodeId) :
    (other.phases entry).Perm (graph.phases entry) := by
  have reached : other.reachedIds entry = graph.reachedIds entry := by
    rw [reachedIds, reachedIds, (h.mirrors distinct entry).reachableFrom]
  rw [Orchestration.phases, Orchestration.phases, (h.mirrors distinct entry).searched, h.asked distinct, reached]
  exact (((h.ids.filter _).map _).append_left _).append_right _

/-- Both graphs have an entry, or both have the report of a graph without one. -/
theorem Rearranges.designated (h : graph.Rearranges other) :
    other.validate = graph.validate ∨ ∃ entry, other.entry = some entry ∧ graph.entry = some entry := by
  cases designated : graph.entry with
  | none =>
    rw [validate_of_entry_none designated, validate_of_entry_none (h.entry.trans designated)]
    exact Or.inl rfl
  | some entry => exact Or.inr ⟨entry, h.entry.trans designated, rfl⟩

theorem Rearranges.errors (h : graph.Rearranges other) (distinct : graph.ids.Nodup) :
    other.validate.errors = graph.validate.errors := by
  rcases h.designated with same | ⟨entry, one, two⟩
  · rw [same]
  · rw [errors_eq_phases one, errors_eq_phases two]
    exact h.filter_phases distinct entry fun _ => rfl

/-- Warnings about nodes that are not reached aside, the warnings are the same. -/
theorem Rearranges.other_warnings (h : graph.Rearranges other) (distinct : graph.ids.Nodup) :
    other.validate.warnings.filter (fun issue => issue.missed?.isNone) =
      graph.validate.warnings.filter (fun issue => issue.missed?.isNone) := by
  rcases h.designated with same | ⟨entry, one, two⟩
  · rw [same]
  · rw [warnings_eq_phases one, warnings_eq_phases two, List.filter_filter, List.filter_filter]
    exact h.filter_phases distinct entry fun _ => rfl

theorem Rearranges.warnings (h : graph.Rearranges other) (distinct : graph.ids.Nodup) :
    other.validate.warnings.Perm graph.validate.warnings := by
  rcases h.designated with same | ⟨entry, one, two⟩
  · rw [same]
  · rw [warnings_eq_phases one, warnings_eq_phases two]
    exact (h.phases distinct entry).filter _

/-! ## Circles -/

theorem Rearranges.ranks (h : graph.Rearranges other) (distinct : graph.ids.Nodup) {rank : NodeId → Nat} :
    other.Ranks rank ↔ graph.Ranks rank := by
  simp only [Ranks, h.node? distinct]

/-- **A circle is found in both graphs or in neither.** -/
theorem Rearranges.isCyclic (h : graph.Rearranges other) (distinct : graph.ids.Nodup) :
    other.isCyclic = graph.isCyclic := by
  have acyclic : other.isCyclic = false ↔ graph.isCyclic = false := by
    simp only [isCyclic_eq_false_iff distinct, isCyclic_eq_false_iff (h.ids.nodup_iff.2 distinct), h.ranks distinct]
  exact Bool.eq_iff_iff.2 (by simpa only [Bool.not_eq_false] using not_congr acyclic)

end

end Orchestration

/-! ## Runs -/

theorem start_on {launch : Launch} {other : Orchestration} (entry : other.entry = launch.graph.entry) :
    RunState.start (launch.on other) = RunState.start launch := by
  unfold RunState.start Launch.on
  rw [entry]

/-- **Graphs that look alike from every entry run alike** under every schedule. -/
theorem moves_mirrored {launch : Launch} {other : Orchestration} (entry : other.entry = launch.graph.entry)
    (mirrors : ∀ entry, launch.graph.Mirrors other entry) (schedule : List Move) :
    (RunState.start (launch.on other)).moves (launch.on other) schedule =
      (RunState.start launch).moves launch schedule := by
  rw [start_on entry]
  cases designated : launch.graph.entry with
  | some entry => exact moves_on (mirrors entry) (start_standing designated)
  | none =>
    -- the walk has ended before it starts, so that it stands anywhere
    refine moves_on (mirrors ⟨""⟩) ?_
    simp only [RunState.start, designated]
    exact Walk.every_ended trivial

theorem moves_rearranged {launch : Launch} {other : Orchestration} (h : launch.graph.Rearranges other)
    (distinct : launch.graph.ids.Nodup) (schedule : List Move) :
    (RunState.start (launch.on other)).moves (launch.on other) schedule =
      (RunState.start launch).moves launch schedule :=
  moves_mirrored h.entry (h.mirrors distinct) schedule

/-- **The order of registration plays no part.** Take a built graph and one with the same nodes, designations and contract in
which the nodes are registered in another order. Validation finds the same errors in the same order, the same warnings in the
same order but for those about nodes that are not reached, and these in some order. A circle is found in both or in neither.
Whatever a run is given, every schedule leads to the same state and the same conclusion. -/
theorem registration_order_irrelevant {calls : List Call} {launch : Launch} {other : Orchestration}
    (built : Orchestration.build calls = .ok launch.graph) (rearranges : launch.graph.Rearranges other) :
    other.validate.errors = launch.graph.validate.errors ∧
    other.validate.warnings.filter (fun issue => issue.missed?.isNone) =
      launch.graph.validate.warnings.filter (fun issue => issue.missed?.isNone) ∧
    (other.validate.warnings.filter fun issue => issue.missed?.isSome).Perm
      (launch.graph.validate.warnings.filter fun issue => issue.missed?.isSome) ∧
    other.isCyclic = launch.graph.isCyclic ∧
    (∀ schedule, (RunState.start (launch.on other)).moves (launch.on other) schedule =
      (RunState.start launch).moves launch schedule) ∧
    ∀ state : RunState, state.conclusion? (launch.on other) = state.conclusion? launch := by
  have distinct := (Orchestration.build_assembled built).distinct
  refine ⟨rearranges.errors distinct, rearranges.other_warnings distinct, (rearranges.warnings distinct).filter _,
    rearranges.isCyclic distinct, moves_rearranged rearranges distinct, fun state => ?_⟩
  simp only [RunState.conclusion?, Launch.on, rearranges.result]

/-- the patchy graph with its nodes registered the other way round -/
def reversedGraph : Orchestration :=
  { Orchestration.patchyGraph with nodes := Orchestration.patchyGraph.nodes.reverse }

def patchyLaunch : Launch :=
  { graph := Orchestration.patchyGraph, input := .str "x" }

theorem registration_order_irrelevant_reversed :
    Orchestration.build Orchestration.patchyCalls = .ok patchyLaunch.graph ∧
    patchyLaunch.graph.Rearranges reversedGraph ∧
    reversedGraph.validate.errors = [.directTypeMismatch ⟨"a"⟩ ⟨"b"⟩ "String" "Int32", .missingTarget ⟨"a"⟩ 1 ⟨"ghost"⟩,
      .noAdvancers ⟨"b"⟩] ∧
    reversedGraph.validate.warnings = [.unguardedAdvancer ⟨"a"⟩ 2 ⟨"a"⟩, .unreachable ⟨"spare"⟩ ⟨"a"⟩,
      .unreachable ⟨"idle"⟩ ⟨"a"⟩, .missingResult] ∧
    reversedGraph.isCyclic = true ∧
    ∀ schedule, (RunState.start (patchyLaunch.on reversedGraph)).moves (patchyLaunch.on reversedGraph) schedule =
      (RunState.start patchyLaunch).moves patchyLaunch schedule := by
  have built : Orchestration.build Orchestration.patchyCalls = .ok patchyLaunch.graph := by rfl
  have rearranges : patchyLaunch.graph.Rearranges reversedGraph := ⟨List.reverse_perm _, rfl, rfl, rfl⟩
  obtain ⟨errors, -, -, cyclic, runs, -⟩ := registration_order_irrelevant built rearranges
  refine ⟨built, rearranges, ?_, by decide +kernel, ?_, runs⟩
  · rw [errors]
    decide +kernel
  · rw [cyclic]
    decide +kernel

end StepFlow
