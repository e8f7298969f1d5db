/-
The flag to advance in parallel.

A node that advances in parallel asks all of its guards and splits where several accept; any other node takes the first one
that accepts. Where at most one guard accepts a value and none panics (`Node.Decides`) there is no difference. Results:
- `Node.Decides.fired`: the flag of such a node does not change what fires;
- `moves_serial`: a run that only comes across such values is the same in every graph with other flags;
- `Unsplit`: without a node that advances in parallel no walk splits;
- `parallel_flag_law`: when the flag matters, and what it is needed for.
-/
import StepFlow.Proofs.Run.Containment
import StepFlow.Proofs.Run.Rearranged
import StepFlow.Proofs.Run.Recast

namespace StepFlow

/-! ## Guards that decide -/

/-- at most one guard of a node accepts a value, and none panics on it -/
structure Node.Decides (node : Node) (value : Value) : Prop where
  calm : ∀ advancer ∈ node.advancers, ∃ accepts, advancer.fires value = .ok accepts
  single : node.advancers.Pairwise fun one other => ¬(one.fires value = .ok true ∧ other.fires value = .ok true)

namespace Node

theorem allFiring_of_refused {value : Value} {index : Nat} {advancers : List Advancer}
    (refused : ∀ advancer ∈ advancers, advancer.fires value = .ok false) : allFiring value index advancers = .ok [] := by
  induction advancers generalizing index with
  | nil => rfl
  | cons advancer rest ih =>
    rw [allFiring, refused advancer List.mem_cons_self]
    exact ih fun other mem => refused other (List.mem_cons_of_mem _ mem)

/-- **Where at most one guard accepts, the first one that does is the only one.** -/
theorem firstFiring_eq_allFiring {value : Value} {index : Nat} {advancers : List Advancer}
    (calm : ∀ advancer ∈ advancers, ∃ accepts, advancer.fires value = .ok accepts)
    (single : advancers.Pairwise fun one other => ¬(one.fires value = .ok true ∧ other.fires value = .ok true)) :
    firstFiring value index advancers = allFiring value index advancers := by
  induction advancers generalizing index with
  | nil => rfl
  | cons advancer rest ih =>
    obtain ⟨accepts, fires⟩ := calm advancer List.mem_cons_self
    obtain ⟨alone, single⟩ := List.pairwise_cons.1 single
    have later : ∀ other ∈ rest, ∃ accepts, other.fires value = .ok accepts := fun other mem =>
      calm other (List.mem_cons_of_mem _ mem)
    rw [firstFiring, allFiring, fires]
    cases accepts with
    | false => exact ih later single
    | true =>
      have refused : ∀ other ∈ rest, other.fires value = .ok false := by
        intro other mem
        obtain ⟨accepts, answer⟩ := later other mem
        cases accepts with
        | false => exact answer
        | true => exact absurd ⟨fires, answer⟩ (alone other mem)
      change Except.ok [(index, advancer)] =
        (allFiring value (index + 1) rest).bind fun others => .ok ((index, advancer) :: others)
      rw [allFiring_of_refused refused]
      rfl

/-- **The flag of a node does not change what fires on a value that its guards decide.** -/
theorem Decides.fired {node : Node} {value : Value} (h : node.Decides value) (flag : Bool) :
    ({ node with parallel := flag } : Node).fired value = node.fired value := by
  have same : firstFiring value 0 node.advancers = allFiring value 0 node.advancers :=
    firstFiring_eq_allFiring h.calm h.single
  unfold Node.fired
  cases flag with
  | true =>
    cases node.parallel with
    | true => rfl
    | false => exact same.symm
  | false =>
    cases node.parallel with
    | true => exact same
    | false => rfl

end Node

/-- The guards decide every value that they are asked about: what a step returned, unless it is refused or comes from the
result node. -/
def Decided (launch : Launch) (journal : List Event) : Prop :=
  ∀ path node output, Advances launch journal path node output → node.Decides output

/-! ## Other flags -/

/-- nodes with the flags that their names are given -/
def Recast.flagged (flags : NodeId → Bool) : Recast where
  node one := { one with parallel := flags one.id }
  id _ := rfl
  step _ := rfl

/-- **Where the guards decide, other flags are not seen.** -/
theorem Decided.unseen {launch : Launch} {journal : List Event} (h : Decided launch journal) (flags : NodeId → Bool) :
    (Recast.flagged flags).Unseen launch journal := by
  intro path node completion found returned
  refine respond_recast fun output same fits goes => ⟨?_, rfl⟩
  subst same
  exact (h path node output ⟨found, returned, fits, goes⟩).fired (flags node.id)

namespace Orchestration

/-- the graph with no node advancing in parallel; two graphs that differ in nothing but the flags share it -/
def serial (graph : Orchestration) : Orchestration :=
  graph.recast (.flagged fun _ => false)

def flag (graph : Orchestration) (id : NodeId) : Bool :=
  (graph.node? id).any Node.parallel

variable {graph other : Orchestration}

/-- The nodes of a graph that differs in its flags are those of the graph with the other flags. -/
theorem node?_flagged (differ : other.serial = graph.serial) (id : NodeId) :
    other.node? id = (graph.recast (.flagged other.flag)).node? id := by
  have plain : (other.serial).node? id = (graph.serial).node? id := congrArg (fun graph => graph.node? id) differ
  simp only [serial, node?_recast] at plain ⊢
  cases there : other.node? id with
  | none =>
    rw [there, Option.map_none] at plain
    rw [Option.map_eq_none_iff.1 plain.symm]
    rfl
  | some twin =>
    rw [there, Option.map_some] at plain
    obtain ⟨node, found, same⟩ := Option.map_eq_some_iff.1 plain.symm
    have flag : other.flag node.id = twin.parallel := by rw [id_of_node? found, flag, there]; rfl
    rw [found, Option.map_some]
    obtain ⟨id, step, advancers, deadEnd, parallel⟩ := node
    obtain ⟨id', step', advancers', deadEnd', parallel'⟩ := twin
    simp only [Recast.flagged, Node.mk.injEq, and_true] at same flag ⊢
    obtain ⟨rfl, rfl, rfl, rfl⟩ := same
    simp [flag]

end Orchestration

/-- **Graphs that differ in flags run alike** under a schedule if the guards of one of them decide all that its run asks
them. -/
theorem moves_serial {launch : Launch} {other : Orchestration} (differ : other.serial = launch.graph.serial)
    {schedule : List Move} (decided : ∀ earlier, earlier <+: schedule → ∀ state,
      (RunState.start launch).moves launch earlier = some state → Decided launch state.shared.journal) :
    ((RunState.start (launch.on other)).moves (launch.on other) schedule).map (RunState.seen (launch.on other)) =
      ((RunState.start launch).moves launch schedule).map (RunState.seen launch) := by
  let cast := Recast.flagged other.flag
  have entry : other.serial.entry = launch.graph.serial.entry := congrArg Orchestration.entry differ
  have result : other.serial.result = launch.graph.serial.result := congrArg Orchestration.result differ
  change other.result = launch.graph.result at result
  have mirrors : ∀ entry, (launch.recast cast).graph.Mirrors other entry := fun _ =>
    ⟨fun id _ => Orchestration.node?_flagged differ id, result⟩
  have mirrored := @moves_mirrored (launch.recast cast) other entry mirrors schedule
  have seen : RunState.seen (launch.on other) = RunState.seen (launch.recast cast) := by
    funext state
    simp only [RunState.seen, RunState.conclusion?, Launch.on, result]
    rfl
  change ((RunState.start ((launch.recast cast).on other)).moves ((launch.recast cast).on other) schedule).map _ = _
  rw [mirrored, seen]
  exact seen_recast fun earlier before state moved => (decided earlier before state moved).unseen other.flag

/-! ## Without parallel nodes -/

/-- a walk that goes on by itself until it ends -/
def Unsplit (path : Path) : Walk → Prop
  | .joining _ _ _ => False
  | .ended ending => Final path ending
  | _ => True

section

variable {launch : Launch} {path : Path} {shared : Shared} {walk : Walk} {after : Shared × Walk}

theorem follow_unsplit {source : NodeId} {route : Route} (final : ∀ ending, route = .stop ending → Final path ending)
    (whole : ∀ value fired, route ≠ .split value fired) :
    Walk.Every Unsplit path (Walk.follow path shared source route).2 := by
  refine Walk.Every.follow final (fun _ _ _ => trivial) fun value fired same => absurd same (whole value fired)

/-- **Without a node that advances in parallel a walk does not split.** -/
theorem acts_unsplit (serial : ∀ node ∈ launch.graph.nodes, node.parallel = false)
    (h : Walk.Acts launch path shared walk after) (tidy : Tidy launch.graph walk) (before : Unsplit path walk) :
    Walk.Every Unsplit path after.2 := by
  cases h with
  | cross along => exact follow_unsplit (fun _ stops => along.final path stops) along.ne_split
  | @finish node completion route responds =>
    refine follow_unsplit (fun _ stops => responds.final stops) fun value fired same => ?_
    obtain ⟨fires, several⟩ := responds.splits value fired same
    have parallel := (Node.fired_spec fires).2 several
    rw [serial node (Orchestration.mem_nodes_of_node? tidy)] at parallel
    cases parallel
  | refuse _ violates => exact Walk.every_ended (.failed (isSingle_violation violates))
  | stray _ | stopped _ _ | exceed _ | dismiss _ | interrupt _ => exact Walk.every_ended (.failed rfl)
  | abandon _ | merge _ => exact before.elim
  | pass _ _ | number _ _ | begin _ | pause | cancel | observe | hang | resume _ _ => exact Walk.every_whole rfl trivial

theorem turns_unsplit (serial : ∀ node ∈ launch.graph.nodes, node.parallel = false)
    (tidy : Walk.Every (fun _ => Tidy launch.graph) path walk) (h : Walk.Turns launch path shared walk after)
    (before : Walk.Every Unsplit path walk) : Walk.Every Unsplit path after.2 := by
  cases h with
  | act acts => exact acts_unsplit serial acts tidy.root before.root
  | receive _ _ => exact before.root.elim
  | within _ _ => exact before.root.elim

end

theorem moves_unsplit {launch : Launch} (serial : ∀ node ∈ launch.graph.nodes, node.parallel = false)
    {schedule : List Move} {state : RunState} (h : (RunState.start launch).moves launch schedule = some state) :
    Walk.Every Unsplit [] state.walk :=
  moves_induction_tidy (P := fun state => Walk.Every Unsplit [] state.walk) (fun tidy => turns_unsplit serial tidy)
    (fun _ before => before) h (RunState.every_start (.failed rfl) fun _ _ => trivial)

/-- **What the flag to advance in parallel is for.** Of two graphs that differ in nothing but the flags, take a run of one in
which at most one guard of a node accepts each value that they are asked about, and no guard panics: under the same schedule
the other does exactly the same, and comes to the same conclusion. In a graph without the flag every run that succeeds has one
output, at the empty path, and no run fails with the failure of a fan-out. -/
theorem parallel_flag_law (launch : Launch) :
    (∀ other : Orchestration, other.serial = launch.graph.serial → ∀ schedule,
      (∀ earlier, earlier <+: schedule → ∀ state, (RunState.start launch).moves launch earlier = some state →
        Decided launch state.shared.journal) →
      ((RunState.start (launch.on other)).moves (launch.on other) schedule).map (RunState.seen (launch.on other)) =
        ((RunState.start launch).moves launch schedule).map (RunState.seen launch)) ∧
    ((∀ node ∈ launch.graph.nodes, node.parallel = false) → ∀ schedule state,
      (RunState.start launch).moves launch schedule = some state →
      (∀ outcome, state.conclusion? launch = some (.succeeded outcome) →
        ∃ node value, outcome.outputs = [⟨node, value, []⟩]) ∧
      (∀ failure, state.conclusion? launch = some (.failed failure) →
        ∀ source failures completed, failure ≠ .parallelBranches source failures completed)) := by
  refine ⟨fun other differ schedule decided => moves_serial differ decided, fun serial schedule state moved => ?_⟩
  have unsplit := (moves_unsplit serial moved).root
  refine ⟨fun outcome concluded => ?_, fun failure concluded source failures completed same => ?_⟩
  · obtain ⟨ending, ended, same⟩ := RunState.conclusion?_eq_some concluded
    rw [ended] at unsplit
    cases unsplit with
    | output =>
      cases same
      exact ⟨_, _, rfl⟩
    | failed _ => cases same
    | panicked => cases same
  · obtain ⟨ending, ended, whole⟩ := RunState.conclusion?_eq_some concluded
    rw [ended] at unsplit
    cases unsplit with
    | output => cases whole
    | failed single =>
      cases whole
      rw [same] at single
      cases single
    | panicked => cases whole

/-- a node that passes strings one way and nulls the other, and does not advance in parallel -/
def choosingLaunch : Launch :=
  { graph :=
      { nodes := [
          { id := ⟨"a"⟩, step := .identity .string,
            advancers := [.when (.direct ⟨"b"⟩) fun value => .ok value.isNull,
              .when (.direct ⟨"c"⟩) fun value => .ok value.isString] },
          { id := ⟨"b"⟩, step := .identity .string, deadEnd := true },
          { id := ⟨"c"⟩, step := .identity .string, deadEnd := true }],
        entry := some ⟨"a"⟩ }
    input := .str "x" }

def choosingInParallel : Orchestration :=
  choosingLaunch.graph.recast (.flagged fun _ => true)

theorem decided_choosing (journal : List Event) : Decided choosingLaunch journal := by
  intro path node output advances
  have mem := Orchestration.mem_nodes_of_node? advances.found
  simp only [choosingLaunch, List.mem_cons, List.not_mem_nil, or_false] at mem
  rcases mem with rfl | rfl | rfl
  · refine ⟨?_, ?_⟩
    · simp [Advancer.fires, Advancer.when]
    · cases output <;> simp [Advancer.fires, Advancer.when, Value.isNull, Value.isString]
  · exact ⟨by simp, by simp⟩
  · exact ⟨by simp, by simp⟩

theorem parallel_flag_law_choosing :
    choosingInParallel.serial = choosingLaunch.graph.serial ∧
    (∀ earlier, earlier <+: List.replicate 8 (.turn .act) → ∀ state,
      (RunState.start choosingLaunch).moves choosingLaunch earlier = some state →
        Decided choosingLaunch state.shared.journal) ∧
    (∀ node ∈ choosingLaunch.graph.nodes, node.parallel = false) ∧
    ∃ state twin outcome,
      (RunState.start choosingLaunch).moves choosingLaunch (List.replicate 8 (.turn .act)) = some state ∧
      (RunState.start (choosingLaunch.on choosingInParallel)).moves (choosingLaunch.on choosingInParallel)
        (List.replicate 8 (.turn .act)) = some twin ∧
      RunState.seen (choosingLaunch.on choosingInParallel) twin = RunState.seen choosingLaunch state ∧
      state.conclusion? choosingLaunch = some (.succeeded outcome) ∧
      ∃ node value, outcome.outputs = [⟨node, value, []⟩] := by
  have differ : choosingInParallel.serial = choosingLaunch.graph.serial := rfl
  have decided : ∀ earlier, earlier <+: List.replicate 8 (.turn .act) → ∀ state,
      (RunState.start choosingLaunch).moves choosingLaunch earlier = some state →
        Decided choosingLaunch state.shared.journal := fun _ _ state _ => decided_choosing state.shared.journal
  have serial : ∀ node ∈ choosingLaunch.graph.nodes, node.parallel = false := by simp [choosingLaunch]
  obtain ⟨alike, single⟩ := parallel_flag_law choosingLaunch
  obtain ⟨state, outcome, moved, concluded⟩ : ∃ state outcome,
      (RunState.start choosingLaunch).moves choosingLaunch (List.replicate 8 (.turn .act)) = some state ∧
      state.conclusion? choosingLaunch = some (.succeeded outcome) := ⟨_, _, rfl, rfl⟩
  have same := alike choosingInParallel differ _ decided
  rw [moved, Option.map_some] at same
  obtain ⟨twin, there, seen⟩ := Option.map_eq_some_iff.1 same
  exact ⟨differ, decided, serial, state, twin, outcome, moved, there, seen, concluded,
    (single serial _ state moved).1 outcome concluded⟩

end StepFlow
