/-
Where the walks of a run stand.

Whatever graph is run, accepted by validation or not, a walk only ever stands at a registered node that is reached from
the entry, on an advancer of such a node, or on its way to the target of one. Results:
- `acts_begun`: the one action that starts a step is that of a walk which is ready for it;
- `moves_standing`: every walk of every run stands where the entry leads;
- `moves_begun`: so every step that is started is that of a registered node which is reached.
-/
import StepFlow.Proofs.Run.Checked

namespace StepFlow

/-- where a walk may stand in a graph that is walked from `entry` -/
def Stands (graph : Orchestration) (entry : NodeId) : Walk → Prop
  | .crossing source advancer _ => ∃ node, graph.Hosts entry node ∧ node.id = source ∧ advancer ∈ node.advancers
  | .arriving target _ => graph.Reached entry target
  | .admitted node _ => graph.Hosts entry node
  | .ready node _ _ => graph.Hosts entry node
  | .busy node _ => graph.Hosts entry node
  | .suspended node _ => graph.Hosts entry node
  | .joining _ _ _ => True
  | .ended _ => True

namespace Orchestration

theorem Reached.registered {graph : Orchestration} {start id : NodeId} (h : graph.Reached start id)
    (there : graph.contains id = true) : graph.contains start = true := by
  induction h with
  | start => exact there
  | follow _ found _ _ ih => exact ih (contains_iff.2 ⟨_, found⟩)

theorem Hosts.mem_reachableFrom {graph : Orchestration} {entry : NodeId} {node : Node} (h : graph.Hosts entry node) :
    node ∈ graph.reachableFrom entry :=
  (mem_reachableFrom_iff (h.2.registered (contains_iff.2 ⟨node, h.1⟩))).2 ⟨h.2, h.1⟩

theorem hosts_of_mem_reachableFrom {graph : Orchestration} {entry : NodeId} {node : Node}
    (h : node ∈ graph.reachableFrom entry) : graph.Hosts entry node := by
  cases there : graph.contains entry with
  | true =>
    obtain ⟨reached, found⟩ := (mem_reachableFrom_iff there).1 h
    exact ⟨found, reached⟩
  | false =>
    have missing : graph.node? entry = none := by simpa [contains] using there
    rw [reachableFrom, missing] at h
    cases h

theorem Hosts.reached {graph : Orchestration} {entry : NodeId} {node : Node} (h : graph.Hosts entry node)
    {advancer : Advancer} (mem : advancer ∈ node.advancers) (there : graph.contains advancer.target = true) :
    graph.Reached entry advancer.target :=
  .follow h.2 h.1 mem there

end Orchestration

section

variable {launch : Launch} {entry : NodeId} {path : Path} {shared : Shared} {walk : Walk} {after : Shared × Walk}

/-- An advancer leads to its target only if that is registered. -/
theorem along_stands {node : Node} {advancer : Advancer} {value : Value} {route : Route}
    (h : Along launch.graph node.id advancer value route) (hosts : launch.graph.Hosts entry node)
    (mem : advancer ∈ node.advancers) (shared : Shared) :
    Walk.Every (fun _ => Stands launch.graph entry) path (Walk.follow path shared node.id route).2 := by
  cases h with
  | delivered there _ => exact Walk.every_whole rfl (hosts.reached mem there)
  | _ => exact Walk.every_ended trivial

/-- What a step leads to stands at the advancers that fire on its output. -/
theorem responds_stands {node : Node} {completion : Completion} {route : Route}
    (h : Responds launch node path completion route) (hosts : launch.graph.Hosts entry node) (shared : Shared) :
    Walk.Every (fun _ => Stands launch.graph entry) path (Walk.follow path shared node.id route).2 := by
  cases h with
  | @along output index advancer route _ _ one along =>
    have fires := (Node.fired_spec one).1.accepts (index, advancer) List.mem_cons_self
    exact along_stands along hosts (List.mem_of_getElem? fires.2.1) shared
  | @split output fired _ _ several _ =>
    refine Walk.Every.follow (by simp) (by simp) fun value others same => ?_
    cases same
    refine ⟨trivial, fun one mem => ?_⟩
    have fires := (Node.fired_spec several).1.accepts one mem
    exact ⟨node, hosts, rfl, List.mem_of_getElem? fires.2.1⟩
  | _ => exact Walk.every_ended trivial

/-- **Every action leads on along the graph.** -/
theorem acts_stands (h : Walk.Acts launch path shared walk after) (before : Stands launch.graph entry walk) :
    Walk.Every (fun _ => Stands launch.graph entry) path after.2 := by
  cases h with
  | cross along =>
    obtain ⟨node, hosts, rfl, mem⟩ := before
    exact along_stands along hosts mem shared
  | @pass target value node found _ =>
    have named : node.id = target := Orchestration.id_of_node? found
    exact Walk.every_whole rfl ⟨Orchestration.node?_id found, named ▸ before⟩
  | finish responds => exact responds_stands responds before _
  | number _ _ | begin _ | pause | cancel | observe | hang | resume _ _ => exact Walk.every_whole rfl before
  | stray _ | stopped _ _ | exceed _ | refuse _ _ | dismiss _ | interrupt _ | abandon _ | merge _ =>
    exact Walk.every_ended trivial

theorem turns_stands (h : Walk.Turns launch path shared walk after)
    (before : Walk.Every (fun _ => Stands launch.graph entry) path walk) :
    Walk.Every (fun _ => Stands launch.graph entry) path after.2 :=
  Walk.Every.turns (P := fun _ _ => Stands launch.graph entry) (fun _ stands => stands) acts_stands
    (fun _ _ _ _ => trivial) (fun _ _ _ _ => trivial) h before

/-- **A step is started by a walk that is ready for it**, and by nothing else. -/
theorem acts_begun (h : Walk.Acts launch path shared walk after) {branch : Path} {id : NodeId} {step : Nat}
    (noted : .started branch id step ∈ after.1.journal) : .started branch id step ∈ shared.journal ∨
      branch = path ∧ ∃ node value, walk = .ready node step value ∧ node.id = id := by
  have routes : ∀ {shared : Shared} {source : NodeId} {route : Route},
      .started branch id step ∈ (Walk.follow path shared source route).1.journal →
      .started branch id step ∈ shared.journal := by
    intro shared source route noted
    rw [Walk.journal_follow] at noted
    refine (List.mem_cons.1 noted).resolve_left fun same => ?_
    cases route <;> cases same
  have ends : ∀ {shared : Shared} {ending : Ending},
      .started branch id step ∈ (Walk.close path shared ending).1.journal → .started branch id step ∈ shared.journal :=
    fun noted => (List.mem_cons.1 noted).resolve_left nofun
  cases h with
  | cross _ => exact Or.inl (routes noted)
  | finish _ => exact Or.inl ((List.mem_cons.1 (routes noted)).resolve_left nofun)
  | @begin node number value _ =>
    rcases List.mem_cons.1 noted with same | noted
    · cases same
      exact Or.inr ⟨rfl, node, value, rfl, rfl⟩
    · exact Or.inl noted
  | cancel => exact Or.inl (by simpa using noted)
  | stray _ | stopped _ _ | exceed _ | refuse _ _ | dismiss _ | interrupt _ | abandon _ | merge _ =>
    exact Or.inl (ends noted)
  | pass _ _ | number _ _ | pause | observe | hang | resume _ _ => exact Or.inl noted

end

/-! ## Runs -/

section

variable {launch : Launch} {entry : NodeId} {schedule : List Move} {state : RunState}

theorem start_standing (designated : launch.graph.entry = some entry) :
    Walk.Every (fun _ => Stands launch.graph entry) [] (RunState.start launch).walk := by
  simp only [RunState.start, designated]
  exact Walk.every_whole rfl .start

/-- **Every walk of every run stands where the entry leads.** -/
theorem moves_standing (designated : launch.graph.entry = some entry)
    (h : (RunState.start launch).moves launch schedule = some state) :
    Walk.Every (fun _ => Stands launch.graph entry) [] state.walk :=
  RunState.moves_induction (P := fun state => Walk.Every (fun _ => Stands launch.graph entry) [] state.walk)
    turns_stands (fun _ before => before) h (start_standing designated)

/-- **Every step that is started is that of a registered node which is reached.** -/
theorem moves_begun (designated : launch.graph.entry = some entry)
    (h : (RunState.start launch).moves launch schedule = some state) {path : Path} {id : NodeId} {step : Nat}
    (noted : .started path id step ∈ state.shared.journal) : ∃ node, launch.graph.Hosts entry node ∧ node.id = id := by
  refine (RunState.moves_induction (P := fun state => Walk.Every (fun _ => Stands launch.graph entry) [] state.walk ∧
    ∀ path id step, .started path id step ∈ state.shared.journal → ∃ node, launch.graph.Hosts entry node ∧ node.id = id)
    ?_ ?_ h ⟨start_standing designated, by simp [RunState.start]⟩).2 path id step noted
  · rintro state after turns ⟨stands, begun⟩
    refine ⟨turns_stands turns stands, fun path id step noted => ?_⟩
    rcases turns.action stands with same | ⟨inner, one, result, here, acts, same⟩
    · exact begun path id step (same ▸ noted)
    · rw [same] at noted
      rcases acts_begun acts noted with old | ⟨-, node, value, rfl, named⟩
      · exact begun path id step old
      · exact ⟨node, here, named⟩
  · exact fun branch before => before

end

end StepFlow
