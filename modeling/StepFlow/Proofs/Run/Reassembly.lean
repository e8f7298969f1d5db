/-
Branch results put together again.

The tasks of a fan-out end in any order, and the fan-out finds the slot of each by its identity. Whatever the order, the
slots are filled as if the branches had been run one after another in the order of firing. Results:
- `Gather.merge_eq`: merging is handling one result after another;
- `fan_out_reassembles`: the slots and the ending of a fan-out for every order in which its tasks are received;
- `moves_reassembled`: in every run, at every time, each slot is empty or holds what its own branch has handed in.
-/
import Mathlib.Data.List.Perm.Basic
import StepFlow.Proofs.Run.Joining

namespace StepFlow

/-! ## One result after another -/

namespace Gather

/-- Goes on with the result of one more branch: the outputs and the failures so far, with those of the branch behind. -/
def handle (sofar : List Output × List Failure) : BranchResult → List Output × List Failure
  | .ok outputs => (sofar.1 ++ outputs, sofar.2)
  | .error failure => (sofar.1 ++ failure.partialOutputs, sofar.2 ++ [failure])

/-- the ending of a fan-out that handles these results one after another -/
def handleAll (source : NodeId) (results : List BranchResult) : Ending :=
  let handled := results.foldl handle ([], [])
  if handled.2.isEmpty then .outputs handled.1 else .failed (.parallelBranches source handled.2 handled.1)

theorem foldl_handle (results : List BranchResult) (sofar : List Output × List Failure) :
    results.foldl handle sofar =
      (sofar.1 ++ results.flatMap contributed, sofar.2 ++ results.filterMap failure?) := by
  induction results generalizing sofar with
  | nil => simp
  | cons result rest ih =>
    rw [List.foldl_cons, ih]
    cases result with
    | ok outputs => simp [handle, contributed, failure?, List.filterMap_cons]
    | error failure => simp [handle, contributed, failure?]

theorem merge_eq (source : NodeId) (results : List BranchResult) : merge source results = handleAll source results := by
  simp only [handleAll, foldl_handle, List.nil_append]
  rfl

end Gather

/-! ## The fan-out -/

/-- a task of a fan-out that has ended: its identity, the advancer that it was started on, and how it ended -/
structure EndedTask where
  id : TaskId
  index : Nat
  advancer : Advancer
  ending : Ending

namespace EndedTask

def branch (task : EndedTask) : Branch Walk :=
  ⟨task.id, task.index, .ended task.ending⟩

/-- what the branch hands to its fan-out, a panic as a failure of the node that its own advancer targets -/
def result (task : EndedTask) : BranchResult :=
  Sequential.branchResult task.advancer.target task.ending

end EndedTask

/-- the gather of a fan-out from `source` as these tasks were started -/
def Gather.ofTasks (source : NodeId) (tasks : List EndedTask) : Gather :=
  Gather.start source (tasks.map fun task => task.advancer.target) (tasks.map EndedTask.id)

/-- A fan-out waits for one task for each advancer that fired, and their identities are distinct. -/
theorem fanOut_tasks (path : Path) (shared : Shared) (source : NodeId) (value : Value) {tasks : List EndedTask}
    (ids : tasks.map EndedTask.id = List.range' shared.spawned tasks.length) :
    (Walk.fanOut path shared source value (tasks.map fun task => (task.index, task.advancer))).2 =
        .joining (tasks.map fun task => ⟨task.id, task.index, .crossing source task.advancer value⟩)
          (tasks.map EndedTask.id) (Gather.ofTasks source tasks) ∧
      (tasks.map EndedTask.id).Nodup := by
  constructor
  · simp only [Walk.fanOut, List.length_map, ← ids, List.zipWith_map, List.zipWith_self, List.map_map]
    rfl
  · rw [ids]
    exact List.nodup_range'

section

variable {tasks : List EndedTask} {gather : Gather}

theorem map_id_branch (tasks : List EndedTask) : (tasks.map EndedTask.branch).map Branch.id = tasks.map EndedTask.id := by
  simp [EndedTask.branch]

theorem slots_of_tasks (h : Gathering (tasks.map EndedTask.branch) [] gather)
    (targets : gather.targets = tasks.map fun task => task.advancer.target) :
    gather.slots = (tasks.map EndedTask.result).map some := by
  apply h.slots_eq
  · simp
  · intro slot branch ending there ended
    rw [List.getElem?_map] at there
    obtain ⟨task, indexed, rfl⟩ := Option.map_eq_some_iff.1 there
    obtain rfl : task.ending = ending := Walk.ended.inj ended
    have leads : gather.targets[slot]? = some task.advancer.target := by rw [targets, List.getElem?_map, indexed]; rfl
    have back : (tasks.map EndedTask.branch)[slot]? = some task.branch := by rw [List.getElem?_map, indexed]; rfl
    rw [h.resultOf_eq back leads, List.getElem?_map, indexed]
    rfl

/-- **Tasks that have ended can all be received in every order**, and then each slot is filled by its own branch. -/
theorem receives_tasks (distinct : (tasks.map EndedTask.id).Nodup) {order : List Nat}
    (once : order.Perm (List.range tasks.length)) (source : NodeId) (launch : Launch) (path : Path) (shared : Shared) :
    ∃ gather,
      Walk.receives launch path order
        (shared, .joining (tasks.map EndedTask.branch) (tasks.map EndedTask.id) (Gather.ofTasks source tasks)) =
          some (shared, .joining (tasks.map EndedTask.branch) [] gather) ∧
      gather.source = source ∧ gather.slots = (tasks.map EndedTask.result).map some := by
  have ids := map_id_branch tasks
  have start : Gathering (tasks.map EndedTask.branch) (tasks.map EndedTask.id) (Gather.ofTasks source tasks) := by
    rw [← ids, Gather.ofTasks, ← ids]
    exact Gathering.start (ids ▸ distinct) source _
  have ready : ∀ slot ∈ order, ∃ id index ending,
      (tasks.map EndedTask.branch)[slot]? = some ⟨id, index, .ended ending⟩ ∧ id ∈ tasks.map EndedTask.id := by
    intro slot mem
    have lt : slot < tasks.length := List.mem_range.1 (once.mem_iff.1 mem)
    refine ⟨tasks[slot].id, tasks[slot].index, tasks[slot].ending, ?_, ?_⟩
    · rw [List.getElem?_map, List.getElem?_eq_getElem lt]
      rfl
    · exact List.mem_map_of_mem (List.getElem_mem lt)
  obtain ⟨left, gather, received, after⟩ :=
    start.receives (once.nodup_iff.2 List.nodup_range) ready launch path shared
  -- every task has its turn in the order, so none is left
  have nothing : left = [] := by
    rw [List.eq_nil_iff_forall_not_mem]
    intro id mem
    obtain ⟨branch, among, same⟩ := List.mem_map.1 (after.gathering.known id mem)
    obtain ⟨slot, there⟩ := List.mem_iff_getElem?.1 among
    have lt : slot < tasks.length := by simpa using (List.getElem?_eq_some_iff.1 there).1
    exact after.gone slot (once.mem_iff.2 (List.mem_range.2 lt)) branch there (same ▸ mem)
  subst nothing
  exact ⟨gather, received, after.source, slots_of_tasks after.gathering after.targets⟩

/-- **Results are put together in the order of firing, whatever the order in which they come in.** Let the tasks of a
fan-out have distinct identities, and let them end in any way. Then they can be received in every order. After that,
each slot holds what its own branch has handed in, where a panic is a failure of the node that the branch's own advancer
targets, and no slot is empty. Unless its token has been cancelled, the fan-out ends with the outputs and the failures
that come of handling the branches one after another in the order of firing. -/
theorem fan_out_reassembles (distinct : (tasks.map EndedTask.id).Nodup) {order : List Nat}
    (once : order.Perm (List.range tasks.length)) (source : NodeId) (launch : Launch) (path : Path) (shared : Shared) :
    let branches := tasks.map EndedTask.branch
    let results := tasks.map EndedTask.result
    ∃ gather,
      Walk.receives launch path order
        (shared, .joining branches (tasks.map EndedTask.id) (Gather.ofTasks source tasks)) =
          some (shared, .joining branches [] gather) ∧
      gather.slots = results.map some ∧
      gather.slots.filterMap id = results ∧
      Walk.act launch path shared (.joining branches [] gather) = some
        (if shared.isCancelled path then Walk.fail path shared (.cancelled source)
        else Walk.close path shared (Gather.handleAll source results)) := by
  intro branches results
  obtain ⟨gather, received, same, slots⟩ := receives_tasks distinct once source launch path shared
  have dense : gather.slots.filterMap id = results := by
    rw [slots, List.filterMap_map]
    exact List.filterMap_some
  have ending : gather.ending = Gather.handleAll source results := by
    rw [Gather.ending, dense, same, Gather.merge_eq]
  refine ⟨gather, received, slots, dense, ?_⟩
  rw [← ending, ← same]
  by_cases cancelled : shared.isCancelled path = true
  · simp [Walk.act, cancelled]
  · simp [Walk.act, cancelled]

end

/-- three branches, of which the second panics and the third splits again and fails in part -/
def scatteredTasks : List EndedTask :=
  [⟨7, 0, .always (.direct ⟨"b"⟩), .outputs [⟨⟨"b"⟩, .int 1, [0]⟩]⟩,
    ⟨3, 2, .always (.direct ⟨"c"⟩), .panicked ⟨some "broken"⟩⟩,
    ⟨9, 3, .always (.direct ⟨"d"⟩),
      .failed (.parallelBranches ⟨"d"⟩ [.deadEnd ⟨"e"⟩] [⟨⟨"b"⟩, .int 2, [3, 1]⟩])⟩]

/-- the launch of a node that splits along three of its four advancers -/
def scatteredLaunch : Launch :=
  { graph :=
      { nodes := [
          { id := ⟨"a"⟩, step := .identity .int64, parallel := true,
            advancers := [.always (.direct ⟨"b"⟩), .direct ⟨"b"⟩, .always (.direct ⟨"c"⟩), .always (.direct ⟨"d"⟩)] }],
        entry := some ⟨"a"⟩ }
    input := .int 1 }

theorem fan_out_reassembles_scattered :
    (scatteredTasks.map EndedTask.id).Nodup ∧ [2, 0, 1].Perm (List.range scatteredTasks.length) ∧
    ∃ gather,
      Walk.receives scatteredLaunch [] [2, 0, 1]
        ({}, .joining (scatteredTasks.map EndedTask.branch) (scatteredTasks.map EndedTask.id)
          (Gather.ofTasks ⟨"a"⟩ scatteredTasks)) =
          some ({}, .joining (scatteredTasks.map EndedTask.branch) [] gather) ∧
      Walk.act scatteredLaunch [] {} (.joining (scatteredTasks.map EndedTask.branch) [] gather) = some
        (Walk.close [] {} (.failed (.parallelBranches ⟨"a"⟩
          [.panicked ⟨"c"⟩ "broken",
            .parallelBranches ⟨"d"⟩ [.deadEnd ⟨"e"⟩] [⟨⟨"b"⟩, .int 2, [3, 1]⟩]]
          [⟨⟨"b"⟩, .int 1, [0]⟩, ⟨⟨"b"⟩, .int 2, [3, 1]⟩]))) := by
  have distinct : (scatteredTasks.map EndedTask.id).Nodup := by decide
  have once : [2, 0, 1].Perm (List.range scatteredTasks.length) := by decide
  obtain ⟨gather, received, -, -, acted⟩ := fan_out_reassembles distinct once ⟨"a"⟩ scatteredLaunch [] {}
  exact ⟨distinct, once, gather, received, acted⟩

/-! ## Every run -/

/-- The slot of a pending task is empty; every other slot holds what the branch that was started for it has handed in,
where a panic is a failure of the node that the branch's own advancer targets. -/
def Walk.InPlace (graph : Orchestration) : Walk → Prop
  | .joining branches pending gather =>
    gather.slots.length = branches.length ∧
    ∀ (slot : Nat) (branch : Branch Walk), branches[slot]? = some branch →
      (branch.id ∈ pending → gather.slots[slot]? = some none) ∧
      (branch.id ∉ pending → ∃ node advancer ending, graph.node? gather.source = some node ∧
        node.advancers[branch.index]? = some advancer ∧ branch.walk = .ended ending ∧
        gather.slots[slot]? = some (some (Sequential.branchResult advancer.target ending)))
  | _ => True

theorem Joining.inPlace {graph : Orchestration} {branches : List (Branch Walk)} {pending : List TaskId} {gather : Gather}
    (h : Joining graph branches pending gather) : Walk.InPlace graph (.joining branches pending gather) := by
  obtain ⟨node, found, advancers⟩ := h.source
  refine ⟨h.slots, ?_⟩
  intro slot branch there
  constructor
  · exact h.empty slot branch there
  · intro gone
    obtain ⟨ending, ended, result⟩ := h.received slot branch there gone
    obtain ⟨advancer, starts, leads⟩ := advancers slot branch there
    rw [h.gathering.resultOf_eq there leads] at result
    exact ⟨node, advancer, ending, found, starts, ended, result⟩

/-- **In every run, at every time, each slot of each fan-out is in place**, however branches are interleaved and whatever
the order in which their tasks are received. -/
theorem moves_reassembled {launch : Launch} {schedule : List Move} {state : RunState}
    (h : (RunState.start launch).moves launch schedule = some state) :
    Walk.Every (fun _ => Walk.InPlace launch.graph) [] state.walk := by
  refine (moves_tidy h).mono ?_
  intro path walk tidy
  cases walk with
  | joining branches pending gather => exact tidy.inPlace
  | _ => trivial

end StepFlow
