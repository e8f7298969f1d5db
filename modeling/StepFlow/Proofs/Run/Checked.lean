/-
Runs of a graph that validation has accepted.

Validation looks at the nodes reached from the entry, a run at the nodes its walks come to. `OnTrack` ties the two: every
walk of a run stands at a reached node, or is on its way to one, and no failure that it holds is one of those validation
rules out. Every action keeps this, whatever steps, guards and converters do. Results:
- `moves_onTrack`: every walk of every run of a coherent graph is on track;
- `checked_run_failures`: however the branches are interleaved, a run of a graph without validation errors never fails
  for want of an entry or of a registered target, and it is stuck only at a node with advancers of which none accepts
  the output just produced.
-/
import StepFlow.Proofs.Run.Turning
import StepFlow.Proofs.Validation.Coherent

namespace StepFlow

/-! ## Failures inside failures -/

/-- a failure includes itself and everything that the failures of its branches include -/
inductive Failure.Includes : Failure → Failure → Prop where
  | self {failure : Failure} : Includes failure failure
  | nested {source : NodeId} {failures : List Failure} {completed : List Output} {failure inner : Failure} :
      failure ∈ failures → Includes failure inner → Includes (.parallelBranches source failures completed) inner

/-- `id` has advancers, none of them accepts the output that has just been produced there, and this ended a branch -/
def Stuck (graph : Orchestration) (journal : List Event) (id : NodeId) : Prop :=
  ∃ node branch output, graph.node? id = some node ∧ node.advancers ≠ [] ∧
    (∀ advancer ∈ node.advancers, advancer.fires output = .ok false) ∧
    [.ended branch (.failed (.deadEnd id)), .returned branch id (.value output)] <:+: journal

/-- a failure that validation does not rule out -/
structure Accounted (graph : Orchestration) (journal : List Event) (failure : Failure) : Prop where
  entry : failure ≠ .noEntry
  target : ∀ source target, failure ≠ .unknownNode source target
  stuck : ∀ id, failure = .deadEnd id → Stuck graph journal id

def Sound (graph : Orchestration) (journal : List Event) (failure : Failure) : Prop :=
  ∀ inner, failure.Includes inner → Accounted graph journal inner

section

variable {graph : Orchestration} {journal more : List Event} {failure : Failure}

theorem Stuck.mono {id : NodeId} (h : Stuck graph journal id) (grows : journal <:+ more) : Stuck graph more id := by
  obtain ⟨node, branch, output, found, advancers, refused, noted⟩ := h
  exact ⟨node, branch, output, found, advancers, refused, noted.trans grows.isInfix⟩

theorem Sound.mono (h : Sound graph journal failure) (grows : journal <:+ more) : Sound graph more failure := by
  intro inner includes
  have before := h inner includes
  exact ⟨before.entry, before.target, fun id same => (before.stuck id same).mono grows⟩

theorem sound_of_single (single : ∀ source failures completed, failure ≠ .parallelBranches source failures completed)
    (h : Accounted graph journal failure) : Sound graph journal failure := by
  intro inner includes
  cases includes with
  | self => exact h
  | nested _ _ => exact absurd rfl (single _ _ _)

theorem sound_parallelBranches {source : NodeId} {failures : List Failure} {completed : List Output}
    (h : ∀ failure ∈ failures, Sound graph journal failure) :
    Sound graph journal (.parallelBranches source failures completed) := by
  intro inner includes
  cases includes with
  | self => exact ⟨by simp, by simp, by simp⟩
  | nested mem includes => exact h _ mem inner includes

theorem sound_cancelled {id : NodeId} : Sound graph journal (.cancelled id) :=
  sound_of_single (by simp) ⟨by simp, by simp, by simp⟩

theorem sound_panicked {id : NodeId} {text : String} : Sound graph journal (.panicked id text) :=
  sound_of_single (by simp) ⟨by simp, by simp, by simp⟩

theorem sound_stepLimitExceeded {limit : Nat} {id : NodeId} : Sound graph journal (.stepLimitExceeded limit id) :=
  sound_of_single (by simp) ⟨by simp, by simp, by simp⟩

/-- A value of the wrong type gives a failure of that kind and no other. -/
theorem sound_violation {config : Config} {node : Node} {port : Port} {value : Value}
    (h : config.violation node port value = some failure) : Sound graph journal failure := by
  simp only [Config.violation, Option.ite_none_right_eq_some] at h
  obtain ⟨-, same⟩ := h
  cases same
  exact sound_of_single (by simp) ⟨by simp, by simp, by simp⟩

end

/-! ## Gathered failures -/

theorem Gather.mem_slots_receive {gather : Gather} {task : TaskId} {ending : Ending} {result : BranchResult}
    (h : some result ∈ (gather.receive task ending).slots) :
    some result ∈ gather.slots ∨ result = gather.resultOf task ending := by
  unfold Gather.receive at h
  split at h
  · exact Or.inl h
  · rcases List.mem_or_eq_of_mem_set h with mem | same
    · exact Or.inl mem
    · exact Or.inr (Option.some.inj same)

theorem Gather.resultOf_eq_error {gather : Gather} {task : TaskId} {ending : Ending} {failure : Failure}
    (h : gather.resultOf task ending = .error failure) :
    ending = .failed failure ∨ ∃ id text, failure = .panicked id text := by
  cases ending with
  | outputs outputs => cases h
  | failed other => cases h; exact Or.inl rfl
  | panicked panic => cases h; exact Or.inr ⟨_, _, rfl⟩

theorem Gather.ending_eq_failed {gather : Gather} {failure : Failure} (h : gather.ending = .failed failure) :
    ∃ failures completed, failure = .parallelBranches gather.source failures completed ∧
      ∀ inner ∈ failures, some (.error inner) ∈ gather.slots := by
  simp only [Gather.ending, Gather.merge] at h
  split at h
  · cases h
  · cases h
    refine ⟨_, _, rfl, fun inner mem => ?_⟩
    obtain ⟨result, held, failed⟩ := List.mem_filterMap.1 mem
    obtain ⟨slot, listed, rfl⟩ := List.mem_filterMap.1 held
    cases result with
    | ok outputs => cases failed
    | error other => cases failed; exact listed

/-! ## Walks on track -/

namespace Orchestration

/-- the names at which a walk of the graph may arrive -/
def Leads (graph : Orchestration) (entry id : NodeId) : Prop :=
  graph.contains id = true ∧ graph.Reached entry id

def Hosts (graph : Orchestration) (entry : NodeId) (node : Node) : Prop :=
  graph.node? node.id = some node ∧ graph.Reached entry node.id

theorem Hosts.leads {graph : Orchestration} {entry : NodeId} {node : Node} (h : graph.Hosts entry node)
    (coherent : graph.Coherent entry) {advancer : Advancer} (mem : advancer ∈ node.advancers) :
    graph.Leads entry advancer.target := by
  have there := coherent.targets node.id node h.2 h.1 advancer mem
  exact ⟨there, .follow h.2 h.1 mem there⟩

end Orchestration

/-- where a walk may stand in a graph that is coherent from `entry`, and which failures it may hold -/
def OnTrack (graph : Orchestration) (entry : NodeId) (shared : Shared) (_ : Path) : Walk → Prop
  | .crossing _ advancer _ => graph.Leads entry advancer.target
  | .arriving target _ => graph.Leads entry target
  | .admitted node _ => graph.Hosts entry node
  | .ready node _ _ => graph.Hosts entry node
  | .busy node _ => graph.Hosts entry node
  | .suspended node _ => graph.Hosts entry node
  | .joining _ _ gather => ∀ failure, some (.error failure) ∈ gather.slots → Sound graph shared.journal failure
  | .ended ending => ∀ failure, ending = .failed failure → Sound graph shared.journal failure

def Route.OnTrack (graph : Orchestration) (entry : NodeId) (journal : List Event) : Route → Prop
  | .stop ending => ∀ failure, ending = .failed failure → Sound graph journal failure
  | .move advancer _ => graph.Leads entry advancer.target
  | .split _ fired => ∀ one ∈ fired, graph.Leads entry one.2.target

section

variable {launch : Launch} {graph : Orchestration} {entry : NodeId}

theorem along_onTrack {source : NodeId} {advancer : Advancer} {value : Value} {route : Route} (journal : List Event)
    (h : Along graph source advancer value route) (leads : graph.Leads entry advancer.target) :
    route.OnTrack graph entry journal := by
  cases h with
  | missing absent =>
    have there := leads.1
    rw [absent] at there
    cases there
  | panicked _ _ => intro failure same; cases same
  | refused _ _ =>
    intro failure same
    cases same
    exact sound_of_single (by simp) ⟨by simp, by simp, by simp⟩
  | delivered _ _ => exact leads

/-- What a step that ended leads to stays on track; the one dead end left is that of a node with advancers. -/
theorem responds_onTrack {node : Node} {path : Path} {shared : Shared} {completion : Completion} {route : Route}
    (coherent : launch.graph.Coherent entry) (hosts : launch.graph.Hosts entry node)
    (h : Responds launch node path completion route) :
    route.OnTrack launch.graph entry
      (Walk.follow path (shared.record (.returned path node.id completion)) node.id route).1.journal := by
  cases h with
  | panicked => intro failure same; cases same; exact sound_panicked
  | failed =>
    intro failure same
    cases same
    exact sound_of_single (by simp) ⟨by simp, by simp, by simp⟩
  | violated violates => intro failure same; cases same; exact sound_violation violates
  | result _ _ => intro failure same; cases same
  | guard _ _ _ => intro failure same; cases same
  | rest _ _ _ _ => intro failure same; cases same
  | @stuck output _ _ none refused =>
    intro failure same
    cases same
    obtain ⟨other, found, goesOn⟩ := coherent.goesOn node.id hosts.2
    obtain rfl : node = other := Option.some.inj (hosts.1.symm.trans found)
    have advancers : node.advancers ≠ [] := goesOn.resolve_right (by simp [refused])
    have noted : [.ended path (.failed (.deadEnd node.id)), .returned path node.id (.value output)] <:+:
        .ended path (.failed (.deadEnd node.id)) :: .returned path node.id (.value output) :: shared.journal :=
      (List.prefix_append [_, _] shared.journal).isInfix
    refine sound_of_single (by simp) ⟨by simp, by simp, fun id same => ?_⟩
    obtain rfl := Failure.deadEnd.inj same
    exact ⟨node, path, output, hosts.1, advancers, (Node.fired_spec none).1.refused rfl, noted⟩
  | @along output index advancer route _ _ one along =>
    have fires := (Node.fired_spec one).1.accepts (index, advancer) (by simp)
    exact along_onTrack _ along (hosts.leads coherent (List.mem_of_getElem? fires.2.1))
  | @split output fired _ _ several _ =>
    intro one mem
    have fires := (Node.fired_spec several).1.accepts one mem
    exact hosts.leads coherent (List.mem_of_getElem? fires.2.1)

theorem follow_onTrack {path : Path} {shared : Shared} {source : NodeId} {route : Route}
    (h : route.OnTrack graph entry (Walk.follow path shared source route).1.journal) :
    Walk.Every (OnTrack graph entry (Walk.follow path shared source route).1) path
      (Walk.follow path shared source route).2 := by
  refine Walk.Every.follow (fun ending same => ?_) (fun advancer delivered same => ?_) (fun value fired same => ?_)
  · subst same
    exact h
  · subst same
    exact h
  · subst same
    refine ⟨fun failure mem => ?_, h⟩
    simp [Gather.start] at mem

/-- **Every action stays on track**, whatever steps, guards and converters do. -/
theorem acts_onTrack (coherent : launch.graph.Coherent entry) {path : Path} {shared : Shared} {walk : Walk}
    {after : Shared × Walk} (h : Walk.Acts launch path shared walk after)
    (before : OnTrack launch.graph entry shared path walk) :
    Walk.Every (OnTrack launch.graph entry after.1) path after.2 := by
  have fails : ∀ {shared : Shared} {failure : Failure}, Sound launch.graph shared.journal failure →
      Walk.Every (OnTrack launch.graph entry (Walk.fail path shared failure).1) path
        (Walk.fail path shared failure).2 := by
    intro shared failure sound
    refine Walk.every_ended fun other same => ?_
    cases same
    exact sound.mono (List.suffix_cons _ _)
  cases h with
  | cross along => exact follow_onTrack (along_onTrack _ along before)
  | stray absent =>
    obtain ⟨node, found⟩ := Orchestration.contains_iff.1 before.1
    rw [absent] at found
    cases found
  | stopped _ _ => exact fails sound_cancelled
  | @pass target value node found _ =>
    have named : node.id = target := Orchestration.id_of_node? found
    exact Walk.every_whole rfl ⟨Orchestration.node?_id found, named ▸ before.2⟩
  | exceed _ => exact fails sound_stepLimitExceeded
  | refuse _ violates => exact fails (sound_violation violates)
  | dismiss _ | interrupt _ | abandon _ => exact fails sound_cancelled
  | number _ _ | begin _ | pause | cancel | observe | hang | resume _ _ => exact Walk.every_whole rfl before
  | finish responds => exact follow_onTrack (responds_onTrack coherent before responds)
  | merge _ =>
    refine Walk.every_ended fun failure same => ?_
    obtain ⟨failures, completed, rfl, held⟩ := Gather.ending_eq_failed same
    refine Sound.mono (sound_parallelBranches fun inner mem => ?_) (List.suffix_cons _ _)
    exact before inner (held inner mem)

theorem OnTrack.mono {old new : Shared} {path : Path} {walk : Walk} (grows : old.journal <:+ new.journal)
    (h : OnTrack graph entry old path walk) : OnTrack graph entry new path walk := by
  cases walk with
  | joining branches pending gather => exact fun failure mem => (h failure mem).mono grows
  | ended ending => exact fun failure same => (h failure same).mono grows
  | _ => exact h

theorem turns_onTrack (coherent : launch.graph.Coherent entry) {path : Path} {shared : Shared} {walk : Walk}
    {after : Shared × Walk} (h : Walk.Turns launch path shared walk after)
    (before : Walk.Every (OnTrack launch.graph entry shared) path walk) :
    Walk.Every (OnTrack launch.graph entry after.1) path after.2 := by
  refine Walk.Every.turns (fun growth track => ?_) (acts_onTrack coherent) (fun there waiting track ended => ?_)
    (fun walk there goesOn track => track) h before
  · obtain ⟨events, same, -⟩ := growth.journal
    exact track.mono (same ▸ List.suffix_append events _)
  · -- what a fan-out receives is sound because the branch that ended was on track
    intro failure mem
    rcases Gather.mem_slots_receive mem with mem | result
    · exact track failure mem
    · rcases Gather.resultOf_eq_error result.symm with same | ⟨id, text, rfl⟩
      · exact ended failure same
      · exact sound_panicked

theorem moves_onTrack (coherent : launch.graph.Coherent entry) (designated : launch.graph.entry = some entry)
    (registered : launch.graph.contains entry = true) {schedule : List Move} {state : RunState}
    (h : (RunState.start launch).moves launch schedule = some state) :
    Walk.Every (OnTrack launch.graph entry state.shared) [] state.walk := by
  refine RunState.moves_induction (fun turns before => turns_onTrack coherent turns before)
    (fun branch before => before.mono fun path walk => OnTrack.mono (List.suffix_refl _)) h ?_
  simp only [RunState.start, designated]
  exact Walk.every_whole rfl ⟨registered, .start⟩

end

/-! ## Failures of runs -/

namespace Orchestration

/-- **Checked runs.** A built graph in which validation finds no error is handed out, and no failure of a run of it, at
the top or inside a fan-out, is for want of an entry or of a registered target. A dead end is one at a node that has
advancers, none of which accepts the output just produced. -/
theorem checked_run_failures {calls : List Call} {graph : Orchestration} (built : build calls = .ok graph)
    (valid : graph.validate.errors = []) :
    graph.compile true = .ok graph ∧
    ∀ launch : Launch, launch.graph = graph → ∀ schedule state failure,
      (RunState.start launch).moves launch schedule = some state →
      state.conclusion? launch = some (.failed failure) → ∀ inner, failure.Includes inner →
        inner ≠ .noEntry ∧ (∀ source target, inner ≠ .unknownNode source target) ∧
        ∀ id, inner = .deadEnd id → ∃ node branch output, graph.node? id = some node ∧ node.advancers ≠ [] ∧
          (∀ advancer ∈ node.advancers, advancer.fires output = .ok false) ∧
          [.ended branch (.failed (.deadEnd id)), .returned branch id (.value output)] <:+: state.shared.journal := by
  refine ⟨compile_true_iff.2 ⟨rfl, valid⟩, ?_⟩
  rintro launch rfl schedule state failure moved concluded inner includes
  have assembled := build_assembled built
  obtain ⟨entry, designated, coherent⟩ := (errors_validate_eq_nil_iff assembled).1 valid
  have track := (moves_onTrack coherent designated (assembled.entry entry designated) moved).root
  obtain ⟨ending, ended, same⟩ := RunState.conclusion?_eq_some concluded
  rw [ended] at track
  have failed : ending = .failed failure := by
    cases ending <;> cases same
    rfl
  have accounted := track failure failed inner includes
  exact ⟨accounted.entry, accounted.target, accounted.stuck⟩

/-- a node that splits: one branch comes to rest, the other comes to a node whose only advancer accepts nothing -/
def forkCalls : List Call :=
  [.addNode { id := ⟨"a"⟩, step := .identity .int64, parallel := true },
    .addNode { id := ⟨"b"⟩, step := .identity .int64, deadEnd := true },
    .addNode { id := ⟨"c"⟩, step := .identity .int64 }, .addAdvancer ⟨"a"⟩ (.always (.direct ⟨"b"⟩)),
    .addAdvancer ⟨"a"⟩ (.always (.direct ⟨"c"⟩)), .addAdvancer ⟨"c"⟩ (.direct ⟨"b"⟩), .setEntry ⟨"a"⟩]

def forkGraph : Orchestration :=
  { nodes := [
      { id := ⟨"a"⟩, step := .identity .int64, parallel := true,
        advancers := [.always (.direct ⟨"b"⟩), .always (.direct ⟨"c"⟩)] },
      { id := ⟨"b"⟩, step := .identity .int64, deadEnd := true },
      { id := ⟨"c"⟩, step := .identity .int64, advancers := [.direct ⟨"b"⟩] }],
    entry := some ⟨"a"⟩ }

/-- The second branch is received before the first. -/
def forkSchedule : List Move :=
  List.replicate 4 (.turn .act) ++ List.replicate 5 (.turn (.within 0 .act)) ++
    List.replicate 5 (.turn (.within 1 .act)) ++ [.turn (.receive 1), .turn (.receive 0), .turn .act]

def forkLaunch : Launch := { graph := forkGraph, input := .int 7 }

theorem checked_run_failures_fork :
    build forkCalls = .ok forkGraph ∧ forkGraph.validate.errors = [] ∧
    ∃ state failure, (RunState.start forkLaunch).moves forkLaunch forkSchedule = some state ∧
      state.conclusion? forkLaunch = some (.failed failure) ∧ failure.Includes (.deadEnd ⟨"c"⟩) ∧
      ∃ node branch output, forkGraph.node? ⟨"c"⟩ = some node ∧ node.advancers ≠ [] ∧
        (∀ advancer ∈ node.advancers, advancer.fires output = .ok false) ∧
        [.ended branch (.failed (.deadEnd ⟨"c"⟩)), .returned branch ⟨"c"⟩ (.value output)] <:+:
          state.shared.journal := by
  have built : build forkCalls = .ok forkGraph := by rfl
  have valid : forkGraph.validate.errors = [] := by decide +kernel
  obtain ⟨state, moved, concluded⟩ : ∃ state,
      (RunState.start forkLaunch).moves forkLaunch forkSchedule = some state ∧ state.conclusion? forkLaunch =
        some (.failed (.parallelBranches ⟨"a"⟩ [.deadEnd ⟨"c"⟩] [⟨⟨"b"⟩, .int 7, [0]⟩])) := ⟨_, rfl, rfl⟩
  have includes : (Failure.parallelBranches ⟨"a"⟩ [.deadEnd ⟨"c"⟩] [⟨⟨"b"⟩, .int 7, [0]⟩]).Includes (.deadEnd ⟨"c"⟩) :=
    .nested (by simp) .self
  obtain ⟨-, -, stuck⟩ :=
    (checked_run_failures built valid).2 forkLaunch rfl forkSchedule state _ moved concluded _ includes
  exact ⟨built, valid, state, _, moved, concluded, includes, stuck _ rfl⟩

end Orchestration

end StepFlow
