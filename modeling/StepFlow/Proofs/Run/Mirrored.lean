/-
Graphs that look the same from where a walk may stand.

A walk asks its graph for nothing but the node of a name, and for the name of the result. `Mirrors` holds of two graphs in
which both agree: every name that is reached from the entry, and every name that is not registered, is looked up alike. So
nothing that goes along the advancers can tell the two apart, whatever else they hold and however that is kept. Results:
- `turn_on`, `moves_on`: runs do the same, turn by turn and under every schedule;
- `Mirrors.reachableFrom`, `Mirrors.findings`: so do the search from the entry, and what is found at the nodes it lists.
-/
import StepFlow.Proofs.Run.Standing

namespace StepFlow

namespace Orchestration

/-- another graph answers alike for every name that is reached from the entry or that stands for no node -/
structure Mirrors (graph other : Orchestration) (entry : NodeId) : Prop where
  node? : ∀ id, (graph.contains id = true → graph.Reached entry id) → other.node? id = graph.node? id
  result : other.result = graph.result

section

variable {graph other : Orchestration} {entry : NodeId} {node : Node} {advancer : Advancer}

theorem Mirrors.target (mirrors : graph.Mirrors other entry) (hosts : graph.Hosts entry node)
    (mem : advancer ∈ node.advancers) : other.node? advancer.target = graph.node? advancer.target :=
  mirrors.node? _ (hosts.reached mem)

theorem Mirrors.along (mirrors : graph.Mirrors other entry) (hosts : graph.Hosts entry node)
    (mem : advancer ∈ node.advancers) (value : Value) :
    other.along node.id advancer value = graph.along node.id advancer value := by
  have same : other.contains advancer.target = graph.contains advancer.target := by
    rw [contains, contains, mirrors.target hosts mem]
  unfold Orchestration.along
  rw [same]

theorem Mirrors.route (mirrors : graph.Mirrors other entry) (hosts : graph.Hosts entry node) (path : Path)
    (output : Value) : other.route node path output = graph.route node path output := by
  simp only [Orchestration.route, mirrors.result]
  cases fires : node.fired output with
  | error panic => rfl
  | ok fired =>
    rcases fired with - | ⟨first, - | ⟨second, rest⟩⟩
    · rfl
    · have accepts := (Node.fired_spec fires).1.accepts first List.mem_cons_self
      simp only [mirrors.along hosts (List.mem_of_getElem? accepts.2.1)]
    · rfl

end

end Orchestration

/-! ## Runs -/

def Launch.on (launch : Launch) (other : Orchestration) : Launch :=
  { launch with graph := other }

section

variable {launch : Launch} {other : Orchestration} {entry : NodeId}

theorem respond_on (mirrors : launch.graph.Mirrors other entry) {node : Node} (hosts : launch.graph.Hosts entry node)
    (path : Path) (completion : Completion) :
    (launch.on other).respond node path completion = launch.respond node path completion := by
  cases completion with
  | value output => simp only [Launch.respond, Launch.on, mirrors.route hosts]
  | _ => rfl

theorem act_on (mirrors : launch.graph.Mirrors other entry) {walk : Walk} (stands : Stands launch.graph entry walk)
    (path : Path) (shared : Shared) : walk.act (launch.on other) path shared = walk.act launch path shared := by
  cases walk with
  | crossing source advancer value =>
    obtain ⟨node, hosts, rfl, mem⟩ := stands
    simp only [Walk.act, Launch.on, mirrors.along hosts mem]
  | arriving target value =>
    have same : other.node? target = launch.graph.node? target := mirrors.node? target fun _ => stands
    simp only [Walk.act, Launch.on, same]
  | busy node activity =>
    cases activity with
    | finish completion => simp only [Walk.act, Walk.work, Walk.complete, respond_on mirrors stands]
    | _ => rfl
  | _ => rfl

/-- **A turn cannot tell the two graphs apart.** -/
theorem turn_on (mirrors : launch.graph.Mirrors other entry) {turn : Turn} {path : Path} {shared : Shared} {walk : Walk}
    (stands : Walk.Every (fun _ => Stands launch.graph entry) path walk) :
    walk.turn (launch.on other) turn path shared = walk.turn launch turn path shared := by
  induction turn generalizing path walk with
  | act => exact act_on mirrors stands.root path shared
  | receive slot => cases walk <;> rfl
  | within slot inner ih =>
    cases walk with
    | joining branches pending gather =>
      simp only [Walk.turn]
      cases there : branches[slot]? with
      | none => rfl
      | some branch => simp only [ih (stands.inside branch (List.mem_of_getElem? there))]
    | _ => rfl

/-- **Every schedule does the same in both graphs.** -/
theorem moves_on (mirrors : launch.graph.Mirrors other entry) {schedule : List Move} {state : RunState}
    (stands : Walk.Every (fun _ => Stands launch.graph entry) [] state.walk) :
    state.moves (launch.on other) schedule = state.moves launch schedule := by
  induction schedule generalizing state with
  | nil => rfl
  | cons move rest ih =>
    rw [RunState.moves_cons, RunState.moves_cons]
    cases move with
    | cancel branch => exact ih stands
    | turn turn =>
      simp only [RunState.move, turn_on mirrors stands]
      cases taken : state.walk.turn launch turn [] state.shared with
      | none => rfl
      | some after => exact ih (turns_stands (Walk.turns_of_turn taken) stands)

end

/-! ## The search and its findings -/

namespace Orchestration

section

variable {graph other : Orchestration} {entry : NodeId}

theorem Mirrors.follow (mirrors : graph.Mirrors other entry) {node : Node} (hosts : graph.Hosts entry node)
    {advancers : List Advancer} (among : advancers ⊆ node.advancers) (frontier : Frontier) :
    other.followAll advancers frontier = graph.followAll advancers frontier := by
  induction advancers generalizing frontier with
  | nil => rfl
  | cons advancer rest ih =>
    have first : other.follow frontier advancer = graph.follow frontier advancer := by
      simp only [Orchestration.follow, mirrors.target hosts (among List.mem_cons_self)]
    have others := ih (fun later mem => among (List.mem_cons_of_mem _ mem)) (graph.follow frontier advancer)
    rw [followAll, followAll, List.foldl_cons, List.foldl_cons, first]
    exact others

theorem Mirrors.explore (mirrors : graph.Mirrors other entry) {frontier : Frontier}
    (queued : ∀ node ∈ frontier.queue, graph.Hosts entry node) : other.explore frontier = graph.explore frontier := by
  induction frontier using frontier_induction graph with
  | done met => rw [explore_nil, explore_nil]
  | visit met node rest ih =>
    have hosts : graph.Hosts entry node := queued node List.mem_cons_self
    rw [explore_cons, explore_cons, mirrors.follow hosts (List.Subset.refl _), ih]
    intro later mem
    rcases (graph.followAll_expands node.advancers _).comes later mem with mem | ⟨advancer, among, found⟩
    · exact queued later (List.mem_cons_of_mem _ mem)
    · have there : graph.contains advancer.target = true := contains_iff.2 ⟨later, found⟩
      exact ⟨node?_id found, id_of_node? found ▸ hosts.reached among there⟩

theorem Mirrors.reachableFrom (mirrors : graph.Mirrors other entry) :
    other.reachableFrom entry = graph.reachableFrom entry := by
  have same : other.node? entry = graph.node? entry := mirrors.node? entry fun _ => .start
  simp only [Orchestration.reachableFrom, same]
  cases found : graph.node? entry with
  | none => rfl
  | some node =>
    refine mirrors.explore fun later mem => ?_
    obtain rfl := List.mem_singleton.1 mem
    exact ⟨node?_id found, id_of_node? found ▸ .start⟩

theorem Mirrors.findings (mirrors : graph.Mirrors other entry) {node : Node} (hosts : graph.Hosts entry node) :
    other.findings node = graph.findings node := by
  have edges : ∀ (index : Nat) (advancers : List Advancer), advancers ⊆ node.advancers →
      other.edgesIssues node index advancers = graph.edgesIssues node index advancers := by
    intro index advancers among
    induction advancers generalizing index with
    | nil => rfl
    | cons advancer rest ih =>
      have first : advancer ∈ node.advancers := among List.mem_cons_self
      have others : rest ⊆ node.advancers := fun later mem => among (List.mem_cons_of_mem _ mem)
      simp only [edgesIssues, edgeIssues, mirrors.target hosts first, ih _ others]
  rw [Orchestration.findings, Orchestration.findings, edges 0 node.advancers (List.Subset.refl _)]

/-- **What is found along the search is the same.** -/
theorem Mirrors.searched (mirrors : graph.Mirrors other entry) :
    (other.reachableFrom entry).flatMap other.findings = (graph.reachableFrom entry).flatMap graph.findings := by
  rw [mirrors.reachableFrom]
  exact List.flatMap_congr fun node mem => mirrors.findings (hosts_of_mem_reachableFrom mem)

end

end Orchestration

end StepFlow
