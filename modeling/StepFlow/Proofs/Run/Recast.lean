/-
Nodes recast.

A `Recast` puts another node in the place of each node of a graph, with the same name and the same step; what it changes is
where a walk may go from there. A run of the recast graph does at every turn what the run of the graph does, with its nodes
recast, as long as recast nodes respond to what their steps return as the nodes themselves do (`Recast.Unseen`). Results:
- `turn_recast`, `moves_recast`: both runs take the same turns, share the same journal and count the same steps;
- `seen_recast`: so nobody sees a difference between them (`RunState.seen`), their conclusions included.
-/
import StepFlow.Proofs.Run.Joining
import StepFlow.Proofs.Run.Mirrored

namespace StepFlow

/-- a change of nodes that keeps their names and their steps -/
structure Recast where
  node : Node → Node
  id : ∀ one, (node one).id = one.id
  step : ∀ one, (node one).step = one.step

namespace Orchestration

def recast (graph : Orchestration) (cast : Recast) : Orchestration :=
  { graph with nodes := graph.nodes.map cast.node }

variable {graph : Orchestration} {cast : Recast}

@[simp] theorem node?_recast (id : NodeId) : (graph.recast cast).node? id = (graph.node? id).map cast.node := by
  have same : (fun node : Node => node.id == id) ∘ cast.node = fun node => node.id == id :=
    funext fun node => congrArg (· == id) (cast.id node)
  rw [node?, node?, recast, List.find?_map, same]

@[simp] theorem contains_recast (id : NodeId) : (graph.recast cast).contains id = graph.contains id := by
  rw [contains, contains, node?_recast, Option.isSome_map]

theorem along_recast (source : NodeId) (advancer : Advancer) (value : Value) :
    (graph.recast cast).along source advancer value = graph.along source advancer value := by
  rw [along, along, contains_recast]

end Orchestration

theorem Config.violation_recast (config : Config) (cast : Recast) (node : Node) (port : Port) (value : Value) :
    config.violation (cast.node node) port value = config.violation node port value := by
  have input : (cast.node node).input = node.input := congrArg Step.input (cast.step node)
  have output : (cast.node node).output = node.output := congrArg Step.output (cast.step node)
  cases port with
  | input => simp only [violation, cast.id, input]
  | output => simp only [violation, cast.id, output]

mutual

def Walk.recast (cast : Recast) : Walk → Walk
  | .crossing source advancer value => .crossing source advancer value
  | .arriving target value => .arriving target value
  | .admitted node value => .admitted (cast.node node) value
  | .ready node step value => .ready (cast.node node) step value
  | .busy node activity => .busy (cast.node node) activity
  | .suspended node activity => .suspended (cast.node node) activity
  | .joining branches pending gather => .joining (recastAll cast branches) pending gather
  | .ended ending => .ended ending

def recastAll (cast : Recast) : List (Branch Walk) → List (Branch Walk)
  | [] => []
  | ⟨id, index, walk⟩ :: rest => ⟨id, index, walk.recast cast⟩ :: recastAll cast rest

end

def Branch.recast (cast : Recast) (branch : Branch Walk) : Branch Walk :=
  { branch with walk := branch.walk.recast cast }

theorem recastAll_eq (cast : Recast) (branches : List (Branch Walk)) :
    recastAll cast branches = branches.map (Branch.recast cast) := by
  induction branches with
  | nil => rfl
  | cons branch rest ih =>
    rw [recastAll, ih]
    rfl

def RunState.recast (cast : Recast) (state : RunState) : RunState :=
  { state with walk := state.walk.recast cast }

def Launch.recast (launch : Launch) (cast : Recast) : Launch :=
  launch.on (launch.graph.recast cast)

/-- A recast node responds as the node does if the same advancers fire and it may come to rest alike; that has to hold only of
values which the node passes on. -/
theorem respond_recast {launch : Launch} {cast : Recast} {node : Node} {path : Path} {completion : Completion}
    (alike : ∀ output, completion = .value output → launch.config.violation node .output output = none →
      launch.graph.result ≠ some node.id →
      (cast.node node).fired output = node.fired output ∧ (cast.node node).deadEnd = node.deadEnd) :
    (launch.recast cast).respond (cast.node node) path completion = launch.respond node path completion := by
  cases completion with
  | value output =>
    simp only [Launch.respond, Launch.recast, Launch.on, Config.violation_recast]
    cases violates : launch.config.violation node .output output with
    | some failure => rfl
    | none =>
      have designated : (launch.graph.recast cast).result = launch.graph.result := rfl
      simp only [Orchestration.route, designated, cast.id]
      by_cases result : launch.graph.result = some node.id
      · simp only [if_pos result]
      · obtain ⟨fires, rests⟩ := alike output rfl violates result
        simp only [if_neg result, fires, rests, Orchestration.along_recast]
  | failed error => simp only [Launch.respond, cast.id]
  | panicked panic => simp only [Launch.respond, cast.id]

/-- To what steps have returned, recast nodes respond as the nodes themselves do. -/
def Recast.Unseen (cast : Recast) (launch : Launch) (journal : List Event) : Prop :=
  ∀ path node completion, launch.graph.node? node.id = some node → .returned path node.id completion ∈ journal →
    (launch.recast cast).respond (cast.node node) path completion = launch.respond node path completion

section

variable {launch : Launch} {cast : Recast} {path : Path} {shared : Shared} {walk : Walk}

/-- What a route leads to is at no node yet. -/
theorem recast_follow (source : NodeId) (route : Route) :
    (Walk.follow path shared source route).2.recast cast = (Walk.follow path shared source route).2 := by
  cases route with
  | split value fired =>
    simp only [Walk.follow, Walk.fanOut, Walk.recast, recastAll_eq]
    congr 1
    rw [List.map_zipWith]
    rfl
  | _ => rfl

theorem draw_recast (node : Node) (value : Value) :
    Walk.draw (launch.recast cast) path shared (cast.node node) value =
      ((Walk.draw launch path shared node value).1, (Walk.draw launch path shared node value).2.recast cast) := by
  simp only [Walk.draw, Config.violation_recast, cast.id, Launch.recast, Launch.on]
  cases launch.config.limitBefore (shared.drawn + 1) with
  | some limit => rfl
  | none => cases launch.config.violation node .input value <;> rfl

/-- **An action of the recast walk is the action of the walk, recast.** -/
theorem act_recast (tidy : Tidy launch.graph walk)
    (unseen : ∀ after, walk.act launch path shared = some after → cast.Unseen launch after.1.journal) :
    (walk.recast cast).act (launch.recast cast) path shared =
      (walk.act launch path shared).map fun after => (after.1, after.2.recast cast) := by
  cases walk with
  | crossing source advancer value =>
    simp only [Walk.recast, Walk.act, Launch.recast, Launch.on, Orchestration.along_recast, Option.map_some, recast_follow]
  | arriving target value =>
    simp only [Walk.recast, Walk.act, Launch.recast, Launch.on, Orchestration.node?_recast]
    cases launch.graph.node? target with
    | none => rfl
    | some node =>
      simp only [Option.map_some, cast.id]
      cases shared.isCancelled path <;> rfl
  | admitted node value => simp only [Walk.recast, Walk.act, draw_recast, Option.map_some]
  | ready node step value =>
    simp only [Walk.recast, Walk.act, cast.id, cast.step]
    cases shared.isCancelled path <;> rfl
  | busy node activity =>
    cases activity with
    | finish completion =>
      have returned : .returned path node.id completion ∈
          (Walk.complete launch path shared node completion).1.journal := by
        rw [Walk.complete, Walk.journal_follow]
        exact List.mem_cons_of_mem _ List.mem_cons_self
      have same := unseen _ rfl path node completion tidy returned
      simp only [Walk.recast, Walk.act, Walk.work, Walk.complete, cast.id, same, Option.map_some, recast_follow]
    | _ => rfl
  | suspended node activity =>
    simp only [Walk.recast, Walk.act, cast.id]
    cases shared.isCancelled path with
    | true => rfl
    | false => cases activity <;> rfl
  | joining branches pending gather =>
    simp only [Walk.recast, Walk.act]
    cases pending.isEmpty with
    | true => cases shared.isCancelled path <;> rfl
    | false => rfl
  | ended ending => rfl

/-- **A turn of the recast tree is the turn of the tree, recast.** -/
theorem turn_recast {turn : Turn} (tidy : Walk.Every (fun _ => Tidy launch.graph) path walk)
    (unseen : ∀ after, walk.turn launch turn path shared = some after → cast.Unseen launch after.1.journal) :
    (walk.recast cast).turn (launch.recast cast) turn path shared =
      (walk.turn launch turn path shared).map fun after => (after.1, after.2.recast cast) := by
  induction turn generalizing path walk with
  | act => exact act_recast tidy.root unseen
  | receive slot =>
    cases walk with
    | joining branches pending gather =>
      simp only [Walk.recast, Walk.turn, recastAll_eq, List.getElem?_map]
      cases branches[slot]? with
      | none => rfl
      | some branch =>
        obtain ⟨id, index, inner⟩ := branch
        cases inner with
        | ended ending =>
          simp only [Option.map_some, Branch.recast, Walk.recast]
          split
          · simp only [Option.map_some, Walk.recast, recastAll_eq]
          · rfl
        | _ => rfl
    | _ => rfl
  | within slot inner ih =>
    cases walk with
    | joining branches pending gather =>
      simp only [Walk.recast, Walk.turn, recastAll_eq, List.getElem?_map]
      cases there : branches[slot]? with
      | none => rfl
      | some branch =>
        have mem := List.mem_of_getElem? there
        have same := ih (tidy.inside branch mem) fun after taken => by
          refine unseen (after.1, .joining (branches.set slot { branch with walk := after.2 }) pending gather) ?_
          simp only [Walk.turn, there, taken, Option.map_some]
        simp only [Option.map_some, Branch.recast, same, Option.map_map]
        congr 1
        funext after
        simp only [Function.comp, Walk.recast, recastAll_eq, List.map_set, Branch.recast]
    | _ => rfl

end

/-! ## Runs -/

section

variable {launch : Launch} {cast : Recast}

theorem start_recast (launch : Launch) (cast : Recast) :
    RunState.start (launch.recast cast) = (RunState.start launch).recast cast := by
  simp only [RunState.start, RunState.recast, Launch.recast, Launch.on, Orchestration.recast]
  cases launch.graph.entry <;> rfl

theorem conclusion?_recast (state : RunState) :
    (state.recast cast).conclusion? (launch.recast cast) = state.conclusion? launch := by
  obtain ⟨shared, walk⟩ := state
  cases walk with
  | ended ending => cases ending <;> rfl
  | _ => rfl

/-- **A run on the recast graph is the run on the graph, recast**, under every schedule. It is enough that the recast is not
seen by what this run notes. -/
theorem moves_recast {schedule : List Move} (unseen : ∀ earlier, earlier <+: schedule → ∀ state,
      (RunState.start launch).moves launch earlier = some state → cast.Unseen launch state.shared.journal) :
    (RunState.start (launch.recast cast)).moves (launch.recast cast) schedule =
      ((RunState.start launch).moves launch schedule).map (RunState.recast cast) := by
  induction schedule using List.reverseRecOn with
  | nil => exact congrArg some (start_recast launch cast)
  | append_singleton rest move ih =>
    rw [RunState.moves_snoc, RunState.moves_snoc,
      ih fun earlier before => unseen earlier (before.trans (List.prefix_append rest [move]))]
    cases moved : (RunState.start launch).moves launch rest with
    | none => rfl
    | some state =>
      simp only [Option.map_some, Option.bind_some]
      cases move with
      | cancel branch => rfl
      | turn turn =>
        have later : ∀ after, state.walk.turn launch turn [] state.shared = some after →
            cast.Unseen launch after.1.journal := by
          intro after taken
          refine unseen (rest ++ [.turn turn]) (List.prefix_refl _) ⟨after.1, after.2⟩ ?_
          rw [RunState.moves_snoc, moved]
          simp only [Option.bind_some, RunState.move, taken, Option.map_some]
        simp only [RunState.move, RunState.recast, turn_recast (moves_tidy moved) later, Option.map_map]
        rfl

end

/-- what can be seen of a run: what its walks share, the journal among it, and its conclusion -/
def RunState.seen (launch : Launch) (state : RunState) : Shared × Option Conclusion :=
  (state.shared, state.conclusion? launch)

/-- **Nobody sees a difference** between a run and the run on a recast graph, as long as the recast is not seen by what the
run itself notes. -/
theorem seen_recast {launch : Launch} {cast : Recast} {schedule : List Move}
    (unseen : ∀ earlier, earlier <+: schedule → ∀ state,
      (RunState.start launch).moves launch earlier = some state → cast.Unseen launch state.shared.journal) :
    ((RunState.start (launch.recast cast)).moves (launch.recast cast) schedule).map (RunState.seen (launch.recast cast)) =
      ((RunState.start launch).moves launch schedule).map (RunState.seen launch) := by
  rw [moves_recast unseen, Option.map_map]
  congr 1
  funext state
  exact Prod.ext rfl (conclusion?_recast state)

end StepFlow
