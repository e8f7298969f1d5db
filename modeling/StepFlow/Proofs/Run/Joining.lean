/-
Fan-outs while their branches come in.

`Joining` says how a fan-out, the tasks that it waits for and its slots belong together. It holds when the tasks have
just been started, it is kept by whatever a branch does and by receiving a branch, in any order, and when no task is
left it tells what the fan-out ends with:
- `Joining.ending`: the merge of what the branches ended with, in the order of firing;
- `moves_tidy`: every fan-out of every run is in such a state, and every node that a walk is at is registered.
-/
import StepFlow.Proofs.Orchestration.Reached
import StepFlow.Proofs.Run.Gathering
import StepFlow.Proofs.Run.Turning

namespace StepFlow

/-! ## The state of a fan-out -/

/-- how the branches of a fan-out, the tasks that are still pending and the slots belong together -/
structure Joining (graph : Orchestration) (branches : List (Branch Walk)) (pending : List TaskId) (gather : Gather) :
    Prop where
  /-- each branch was started on an advancer of the node that has split -/
  source : ∃ node : Node, graph.node? gather.source = some node ∧
    ∀ (slot : Nat) (branch : Branch Walk), branches[slot]? = some branch →
      ∃ advancer : Advancer, node.advancers[branch.index]? = some advancer ∧
        gather.targets[slot]? = some advancer.target
  several : 2 ≤ branches.length
  ordered : (branches.map Branch.index).Pairwise (· < ·)
  distinct : (branches.map Branch.id).Nodup
  table : gather.table = (branches.map Branch.id).zipIdx
  slots : gather.slots.length = branches.length
  once : pending.Nodup
  known : ∀ id ∈ pending, id ∈ branches.map Branch.id
  empty : ∀ (slot : Nat) (branch : Branch Walk), branches[slot]? = some branch → branch.id ∈ pending →
    gather.slots[slot]? = some none
  received : ∀ (slot : Nat) (branch : Branch Walk), branches[slot]? = some branch → branch.id ∉ pending →
    ∃ ending, branch.walk = .ended ending ∧ gather.slots[slot]? = some (some (gather.resultOf branch.id ending))

namespace Joining

variable {graph : Orchestration} {branches : List (Branch Walk)} {pending : List TaskId} {gather : Gather}
  {slot : Nat} {branch : Branch Walk}

theorem gathering (h : Joining graph branches pending gather) : Gathering branches pending gather :=
  ⟨h.distinct, h.table, h.slots, h.once, h.known, h.empty, h.received⟩

theorem of_gathering (h : Gathering branches pending gather)
    (source : ∃ node : Node, graph.node? gather.source = some node ∧
      ∀ (slot : Nat) (branch : Branch Walk), branches[slot]? = some branch →
        ∃ advancer : Advancer, node.advancers[branch.index]? = some advancer ∧
          gather.targets[slot]? = some advancer.target)
    (several : 2 ≤ branches.length) (ordered : (branches.map Branch.index).Pairwise (· < ·)) :
    Joining graph branches pending gather :=
  ⟨source, several, ordered, h.distinct, h.table, h.slots, h.once, h.known, h.empty, h.received⟩

theorem receive (h : Joining graph branches pending gather) {id : TaskId} {index : Nat} {ending : Ending}
    (there : branches[slot]? = some ⟨id, index, .ended ending⟩) :
    Joining graph branches (pending.erase id) (gather.receive id ending) := by
  apply of_gathering (h.gathering.receive there)
  · rw [Gather.source_receive, Gather.targets_receive]
    exact h.source
  · exact h.several
  · exact h.ordered

theorem within (h : Joining graph branches pending gather) (there : branches[slot]? = some branch)
    (goesOn : ∀ ending, branch.walk ≠ .ended ending) (walk : Walk) :
    Joining graph (branches.set slot { branch with walk := walk }) pending gather := by
  have indices : (branches.set slot { branch with walk := walk }).map Branch.index = branches.map Branch.index :=
    map_set_of_eq there rfl
  apply of_gathering (h.gathering.within there goesOn walk)
  · obtain ⟨node, found, advancers⟩ := h.source
    refine ⟨node, found, ?_⟩
    intro other one indexed
    obtain ⟨before, indexed, same⟩ := exists_of_map_eq indices.symm indexed
    exact same ▸ advancers other before indexed
  · simpa using h.several
  · rw [indices]
    exact h.ordered

/-- **A fan-out without pending tasks ends with the merge of its branches**, in the order of firing. -/
theorem ending (h : Joining graph branches [] gather) {results : List BranchResult}
    (length : results.length = branches.length)
    (handed : ∀ (slot : Nat) (branch : Branch Walk) (target : NodeId) (ending : Ending),
      branches[slot]? = some branch → branch.walk = .ended ending → gather.targets[slot]? = some target →
      results[slot]? = some (Sequential.branchResult target ending)) :
    gather.ending = Gather.merge gather.source results := by
  obtain ⟨node, -, advancers⟩ := h.source
  have filled : gather.slots = results.map some := by
    refine h.gathering.slots_eq length ?_
    intro slot branch ending there ended
    obtain ⟨advancer, -, leads⟩ := advancers slot branch there
    rw [h.gathering.resultOf_eq there leads]
    exact handed slot branch advancer.target ending there ended leads
  simp [Gather.ending, filled]

theorem length_targets (h : Joining graph branches pending gather) : branches.length ≤ gather.targets.length := by
  obtain ⟨node, -, advancers⟩ := h.source
  refine Nat.le_of_not_lt fun lt => ?_
  obtain ⟨advancer, -, leads⟩ := advancers gather.targets.length _ (List.getElem?_eq_getElem lt)
  simp at leads

theorem exists_branch (h : Joining graph branches pending gather) {id : TaskId} (mem : id ∈ pending) :
    ∃ (slot : Nat) (branch : Branch Walk), branches[slot]? = some branch ∧ branch.id = id := by
  obtain ⟨branch, among, same⟩ := List.mem_map.1 (h.known id mem)
  obtain ⟨slot, there⟩ := List.mem_iff_getElem?.1 among
  exact ⟨slot, branch, there, same⟩

/-- A fan-out is never stuck unless one of its branches is. -/
theorem exists_turn {launch : Launch} {path : Path} {shared : Shared} (h : Joining graph branches pending gather)
    (inside : ∀ branch ∈ branches, (∀ ending, branch.walk ≠ .ended ending) →
      ∃ turn after, branch.walk.turn launch turn (path ++ [branch.index]) shared = some after) :
    ∃ turn after, (Walk.joining branches pending gather).turn launch turn path shared = some after := by
  cases pending with
  | nil =>
    cases cancelled : shared.isCancelled path with
    | true => exact ⟨.act, _, by simp [Walk.turn, Walk.act, cancelled]; rfl⟩
    | false => exact ⟨.act, _, by simp [Walk.turn, Walk.act, cancelled]; rfl⟩
  | cons id rest =>
    have waiting : id ∈ id :: rest := List.mem_cons_self
    obtain ⟨slot, branch, there, rfl⟩ := h.exists_branch waiting
    by_cases finished : ∃ ending, branch.walk = .ended ending
    · obtain ⟨id, index, walk⟩ := branch
      obtain ⟨ending, rfl⟩ := finished
      exact ⟨.receive slot, _, by simp [Walk.turn, there]; rfl⟩
    · obtain ⟨turn, after, taken⟩ := inside branch (List.mem_of_getElem? there) fun ending same => finished ⟨ending, same⟩
      exact ⟨.within slot turn, _, by simp [Walk.turn, there, taken]; rfl⟩

end Joining

/-! ## Every fan-out of a run -/

/-- The nodes that walks are at are registered, and fan-outs are in order. -/
def Tidy (graph : Orchestration) : Walk → Prop
  | .admitted node _ => graph.node? node.id = some node
  | .ready node _ _ => graph.node? node.id = some node
  | .busy node _ => graph.node? node.id = some node
  | .suspended node _ => graph.node? node.id = some node
  | .joining branches pending gather => Joining graph branches pending gather
  | _ => True

theorem fanOut_tidy {graph : Orchestration} {node : Node} {value : Value} {fired : List (Nat × Advancer)}
    (found : graph.node? node.id = some node) (fires : node.fired value = .ok fired) (several : 2 ≤ fired.length)
    (path : Path) (shared : Shared) : Tidy graph (Walk.fanOut path shared node.id value fired).2 := by
  have opened := Walk.getElem?_branches_fanOut path shared node.id value fired
  generalize listed : (Walk.fanOut path shared node.id value fired).2.branches = branches at opened
  have walk : (Walk.fanOut path shared node.id value fired).2 =
      .joining branches (List.range' shared.spawned fired.length)
        (Gather.start node.id (fired.map fun one => one.2.target) (List.range' shared.spawned fired.length)) := by
    rw [← listed]
    rfl
  have firing := (Node.fired_spec fires).1
  have length : branches.length = fired.length := by
    rw [← listed]
    simp [Walk.fanOut, Walk.branches]
  have ids : branches.map Branch.id = List.range' shared.spawned fired.length := by
    refine List.ext_getElem? fun slot => ?_
    rw [List.getElem?_map, opened slot]
    by_cases lt : slot < fired.length
    · simp [lt]
    · simp [lt]
  have indices : branches.map Branch.index = fired.map Prod.fst := by
    rw [← listed]
    exact Walk.map_index_branches_fanOut path shared node.id value fired
  have distinct : (branches.map Branch.id).Nodup := ids ▸ List.nodup_range'
  have start := Gathering.start distinct node.id (fired.map fun one => one.2.target)
  rw [ids] at start
  rw [walk]
  refine Joining.of_gathering start ⟨node, found, ?_⟩ (length ▸ several) ?_
  · intro slot branch there
    rw [opened slot] at there
    obtain ⟨one, indexed, rfl⟩ := Option.map_eq_some_iff.1 there
    obtain ⟨-, accepted, -⟩ := firing.accepts one (List.mem_of_getElem? indexed)
    refine ⟨one.2, accepted, ?_⟩
    simp [Gather.start, indexed]
  · rw [indices]
    exact List.pairwise_map.2 firing.ordered

section

variable {launch : Launch}

theorem follow_tidy {source : NodeId} {route : Route}
    (splits : ∀ value fired, route = .split value fired → ∃ node : Node, node.id = source ∧
      launch.graph.node? node.id = some node ∧ node.fired value = .ok fired ∧ 2 ≤ fired.length)
    (path : Path) (shared : Shared) :
    Walk.Every (fun _ => Tidy launch.graph) path (Walk.follow path shared source route).2 := by
  refine Walk.Every.follow (fun _ _ => trivial) (fun _ _ _ => trivial) fun value fired same => ?_
  obtain ⟨node, rfl, found, fires, several⟩ := splits value fired same
  exact ⟨fanOut_tidy found fires several path shared, fun _ _ => trivial⟩

theorem acts_tidy {path : Path} {shared : Shared} {walk : Walk} {after : Shared × Walk}
    (h : Walk.Acts launch path shared walk after) (before : Tidy launch.graph walk) :
    Walk.Every (fun _ => Tidy launch.graph) path after.2 := by
  cases h with
  | cross along => exact follow_tidy (fun value fired same => absurd same (along.ne_split value fired)) path shared
  | @finish node completion route responds =>
    refine follow_tidy (fun value fired same => ?_) path _
    obtain ⟨fires, several⟩ := responds.splits value fired same
    exact ⟨node, rfl, before, fires, several⟩
  | pass found _ => exact Walk.every_whole rfl (Orchestration.node?_id found)
  | number _ _ | begin _ | pause | cancel | observe | hang | resume _ _ => exact Walk.every_whole rfl before
  | _ => exact Walk.every_ended trivial

/-- **A tree of walks is stuck before its end only by a step** that is suspended for good under a live token. -/
theorem exists_turn_of_tidy {path : Path} {shared : Shared} {walk : Walk}
    (tidy : Walk.Every (fun _ => Tidy launch.graph) path walk)
    (wakes : Walk.Every (fun path walk => ∀ node, walk = .suspended node .hang → shared.isCancelled path = true) path walk)
    (going : ∀ ending, walk ≠ .ended ending) : ∃ turn after, walk.turn launch turn path shared = some after := by
  induction tidy with
  | @intro path walk root inside ih =>
    cases walk with
    | crossing source advancer value => exact ⟨.act, _, rfl⟩
    | arriving target value =>
      cases there : launch.graph.node? target with
      | none => exact ⟨.act, _, by simp [Walk.turn, Walk.act, there]; rfl⟩
      | some node =>
        cases token : shared.isCancelled path <;> exact ⟨.act, _, by simp [Walk.turn, Walk.act, there, token]; rfl⟩
    | admitted node value => exact ⟨.act, _, rfl⟩
    | ready node step value =>
      cases token : shared.isCancelled path <;> exact ⟨.act, _, by simp [Walk.turn, Walk.act, token]; rfl⟩
    | busy node activity => exact ⟨.act, _, rfl⟩
    | suspended node activity =>
      cases token : shared.isCancelled path with
      | true => exact ⟨.act, _, by simp [Walk.turn, Walk.act, token]; rfl⟩
      | false =>
        cases activity with
        | hang => exact absurd (wakes.root node rfl) (by simp [token])
        | _ => exact ⟨.act, _, by simp [Walk.turn, Walk.act, token]; rfl⟩
    | joining branches pending gather =>
      exact Joining.exists_turn root fun branch mem unended => ih branch mem (wakes.inside branch mem) unended
    | ended ending => exact absurd rfl (going ending)

theorem turns_tidy {path : Path} {shared : Shared} {walk : Walk} {after : Shared × Walk}
    (h : Walk.Turns launch path shared walk after) (before : Walk.Every (fun _ => Tidy launch.graph) path walk) :
    Walk.Every (fun _ => Tidy launch.graph) path after.2 :=
  Walk.Every.turns (P := fun _ _ => Tidy launch.graph) (fun _ tidy => tidy) acts_tidy
    (fun there _ joining _ => joining.receive there) (fun walk there goesOn joining => joining.within there goesOn walk)
    h before

/-- **Every fan-out of every run is in order**, and the nodes that walks are at are registered. -/
theorem moves_tidy {schedule : List Move} {state : RunState}
    (h : (RunState.start launch).moves launch schedule = some state) :
    Walk.Every (fun _ => Tidy launch.graph) [] state.walk := by
  exact RunState.moves_induction (fun turns before => turns_tidy turns before) (fun branch before => before) h
    (RunState.every_start trivial fun _ _ => trivial)

/-- What every turn of a tidy tree and every cancellation keeps holds throughout a run. -/
theorem moves_induction_tidy {P : RunState → Prop}
    (turn : ∀ {state : RunState} {after : Shared × Walk}, Walk.Every (fun _ => Tidy launch.graph) [] state.walk →
      Walk.Turns launch [] state.shared state.walk after → P state → P ⟨after.1, after.2⟩)
    (cancel : ∀ {state : RunState} (branch : Path), P state → P { state with shared := state.shared.cancel branch })
    {schedule : List Move} {state : RunState} (h : (RunState.start launch).moves launch schedule = some state)
    (begins : P (RunState.start launch)) : P state :=
  RunState.moves_induction_reached (fun reached turns before => turn (moves_tidy reached) turns before) cancel h begins

end

end StepFlow
