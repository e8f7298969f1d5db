/-
Runs under a step limit.

However a graph leads round in circles and splits on the way, a limit on the steps of a run bounds everything else that it
does. A branch comes to one node more than it starts steps at, at most, and it only splits once a step has returned; so the
steps that are started pay for the numbers that are drawn and for the branches. Results:
- `turns_paced`: every walk is one node ahead of the steps that its branch has started, at most;
- `moves_attempts`, `moves_spawned`: the books of numbers drawn and of branches started;
- `step_limit_terminates`: under a limit every run ends whose steps return, within these bounds.
-/
import StepFlow.Orchestration.Topology
import StepFlow.Proofs.Run.Bounded
import StepFlow.Proofs.Run.Numbering

namespace StepFlow

/-! ## What a branch has attempted -/

def Event.isStart : Event → Bool
  | .started _ _ _ => true
  | _ => false

def Event.isArrival : Event → Bool
  | .moved _ _ _ _ => true
  | _ => false

namespace Shared

/-- how many entries of a kind a branch has left in the journal -/
def countOn (shared : Shared) (kind : Event → Bool) (path : Path) : Nat :=
  shared.journal.countP fun event => kind event && event.branch == path

def startsOn (shared : Shared) (path : Path) : Nat :=
  shared.countOn Event.isStart path

/-- how many steps a branch has attempted to start, one at each node that it came to; the run itself comes to its entry
before its first move -/
def attemptsOn (shared : Shared) (path : Path) : Nat :=
  (if path = [] then 1 else 0) + shared.countOn Event.isArrival path

variable {path : Path} {old new shared : Shared}

theorem startsOn_of_cons {event : Event} (same : new.journal = event :: old.journal) (path : Path) :
    new.startsOn path = old.startsOn path + if event.isStart && event.branch == path then 1 else 0 := by
  rw [startsOn, countOn, same, List.countP_cons, startsOn, countOn]

theorem attemptsOn_of_cons {event : Event} (same : new.journal = event :: old.journal) (path : Path) :
    new.attemptsOn path = old.attemptsOn path + if event.isArrival && event.branch == path then 1 else 0 := by
  rw [attemptsOn, countOn, same, List.countP_cons, attemptsOn, countOn, Nat.add_assoc]

theorem countOn_of_elsewhere {events : List Event} (same : new.journal = events ++ old.journal)
    (elsewhere : ∀ event ∈ events, event.branch ≠ path) (kind : Event → Bool) :
    new.countOn kind path = old.countOn kind path := by
  have nothing : (events.countP fun event => kind event && event.branch == path) = 0 := by
    refine List.countP_eq_zero.2 fun event mem => ?_
    simp [elsewhere event mem]
  rw [countOn, same, List.countP_append, nothing, Nat.zero_add, countOn]

theorem even_of_fresh (inner : path ≠ []) (fresh : ∀ event ∈ shared.journal, event.branch ≠ path) :
    shared.attemptsOn path = shared.startsOn path := by
  have nothing : ∀ kind, shared.countOn kind path = 0 := by
    intro kind
    refine List.countP_eq_zero.2 fun event mem => ?_
    simp [fresh event mem]
  rw [attemptsOn, if_neg inner, nothing, startsOn, nothing]

end Shared

/-- how far a walk is ahead of the steps that its branch has started: at a node it has one to start, and while a step runs
it has not come to the next node -/
def Paced (shared : Shared) (path : Path) : Walk → Prop
  | .crossing _ _ _ => shared.attemptsOn path = shared.startsOn path
  | .arriving _ _ => shared.attemptsOn path = shared.startsOn path + 1
  | .admitted _ _ => shared.attemptsOn path = shared.startsOn path + 1
  | .ready _ _ _ => shared.attemptsOn path = shared.startsOn path + 1
  | .busy _ _ => shared.attemptsOn path = shared.startsOn path
  | .suspended _ _ => shared.attemptsOn path = shared.startsOn path
  | .joining _ _ _ => shared.attemptsOn path ≤ shared.startsOn path + 1
  | .ended _ => shared.attemptsOn path ≤ shared.startsOn path + 1

section

variable {launch : Launch} {path : Path} {old new shared : Shared} {walk : Walk} {after : Shared × Walk}

theorem Paced.le (h : Paced shared path walk) : shared.attemptsOn path ≤ shared.startsOn path + 1 := by
  cases walk with
  | joining branches pending gather => exact h
  | ended ending => exact h
  | arriving target value => exact Nat.le_of_eq h
  | admitted node value => exact Nat.le_of_eq h
  | ready node step value => exact Nat.le_of_eq h
  | _ => exact Nat.le_succ_of_le (Nat.le_of_eq h)

theorem Paced.of_counts (same : ∀ kind, new.countOn kind path = old.countOn kind path) (h : Paced old path walk) :
    Paced new path walk := by
  have attempts : new.attemptsOn path = old.attemptsOn path := by rw [Shared.attemptsOn, same, Shared.attemptsOn]
  have starts : new.startsOn path = old.startsOn path := same _
  unfold Paced at h ⊢
  rw [attempts, starts]
  exact h

theorem close_paced (ahead : shared.attemptsOn path ≤ shared.startsOn path + 1) (ending : Ending) :
    Walk.Every (Paced (Walk.close path shared ending).1) path (Walk.close path shared ending).2 := by
  refine Walk.every_ended ?_
  have noted : (Walk.close path shared ending).1.journal = .ended path ending :: shared.journal := rfl
  rw [Paced, Shared.attemptsOn_of_cons noted, Shared.startsOn_of_cons noted]
  exact ahead

/-- A walk that takes a route comes to one node at most, and the branches that it starts have not begun. -/
theorem follow_paced {source : NodeId} {route : Route} (even : shared.attemptsOn path = shared.startsOn path)
    (alone : ∀ event ∈ shared.journal, path <+: event.branch → event.branch = path) :
    Walk.Every (Paced (Walk.follow path shared source route).1) path (Walk.follow path shared source route).2 := by
  have noted := Walk.journal_follow path shared source route
  have attempts := Shared.attemptsOn_of_cons noted path
  have starts := Shared.startsOn_of_cons noted path
  refine Walk.Every.follow ?_ ?_ ?_
  · rintro ending rfl
    exact (close_paced (Nat.le_succ_of_le (Nat.le_of_eq even)) ending).root
  · rintro advancer delivered rfl
    rw [Paced, attempts, starts, even]
    simp [Route.event, Event.isArrival, Event.isStart, Event.branch]
  · rintro value fired rfl
    constructor
    · change _ ≤ _
      rw [attempts, starts, even]
      exact Nat.le_succ _
    · intro one fires
      refine Shared.even_of_fresh (by simp) fun event mem here => ?_
      have inside : path ++ [one.1] <+: event.branch := here ▸ List.prefix_refl _
      -- nothing within the branch has happened on a branch of its own
      have own : event.branch = path := by
        rw [noted] at mem
        rcases List.mem_cons.1 mem with rfl | mem
        · rfl
        · exact alone event mem (prefix_of_snoc inside)
      rw [own] at inside
      exact not_snoc_prefix inside

/-- **An action keeps every walk in pace with its branch.** -/
theorem acts_paced (h : Walk.Acts launch path shared walk after) (settled : Settled launch shared path walk)
    (before : Paced shared path walk) : Walk.Every (Paced after.1) path after.2 := by
  cases h with
  | cross along => exact follow_paced before fun event mem inside => absurd inside (settled.2 event mem)
  | @finish node completion route responds =>
    have going : Going (shared.record (.returned path node.id completion)).journal path := settled.cons rfl rfl
    have noted : (shared.record (.returned path node.id completion)).journal = _ :: shared.journal := rfl
    have even : (shared.record (.returned path node.id completion)).attemptsOn path =
        (shared.record (.returned path node.id completion)).startsOn path := by
      rw [Shared.attemptsOn_of_cons noted, Shared.startsOn_of_cons noted]
      exact before
    exact follow_paced even going.alone
  | @begin node step value _ =>
    have noted : (shared.record (.started path node.id step)).journal = _ :: shared.journal := rfl
    have ahead : shared.attemptsOn path = shared.startsOn path + 1 := before
    refine Walk.every_whole rfl ?_
    rw [Paced, Shared.attemptsOn_of_cons noted, Shared.startsOn_of_cons noted, ahead]
    simp [Event.isArrival, Event.isStart, Event.branch]
  | @cancel node scope next =>
    have same : (shared.cancelScope launch.control path scope).journal = [] ++ shared.journal := by simp
    exact Walk.every_whole rfl (before.of_counts (Shared.countOn_of_elsewhere same (by simp)))
  | pass _ _ | number _ _ | pause | observe | hang | resume _ _ => exact Walk.every_whole rfl before
  | stray _ | stopped _ _ | exceed _ | refuse _ _ | dismiss _ | interrupt _ | abandon _ | merge _ =>
    exact close_paced before.le _

/-- **Every walk is one node ahead of the steps that its branch has started, at most.** -/
theorem turns_paced (tidy : Walk.Every (fun _ => Tidy launch.graph) path walk)
    (settled : Walk.Every (Settled launch shared) path walk) (h : Walk.Turns launch path shared walk after)
    (before : Walk.Every (Paced shared) path walk) : Walk.Every (Paced after.1) path after.2 := by
  refine Walk.Every.turns_apart (P := Paced) (R := Settled launch) ?_
    (fun acts known before => acts_paced acts known.root before.root) (fun _ _ before _ => before) ?_ tidy settled h before
  · rintro path old new walk ⟨events, same, apart⟩ paced
    exact paced.of_counts (Shared.countOn_of_elsewhere same fun event mem here =>
      (apart event mem).1 (here ▸ List.prefix_refl _))
  · intro path old new branches pending gather slot branch walk _ growth paced
    obtain ⟨events, same, inside⟩ := growth.journal
    have joining : Paced new path (.joining branches pending gather) :=
      paced.of_counts (Shared.countOn_of_elsewhere same fun event mem here => not_snoc_prefix (here ▸ inside event mem))
    exact joining

/-- A branch that an action keeps in pace is no further than one node ahead, and the others stay where they are. -/
theorem acts_ahead (h : Walk.Acts launch path shared walk after) (settled : Settled launch shared path walk)
    (paced : Paced shared path walk) (before : ∀ path, shared.attemptsOn path ≤ shared.startsOn path + 1) (other : Path) :
    after.1.attemptsOn other ≤ after.1.startsOn other + 1 := by
  by_cases here : other = path
  · subst here
    exact (acts_paced h settled paced).root.le
  · obtain ⟨events, same, own⟩ := Walk.acts_records h
    have elsewhere : ∀ kind, after.1.countOn kind other = shared.countOn kind other :=
      Shared.countOn_of_elsewhere same fun event mem there => here (there.symm.trans (own event mem))
    have still := before other
    rwa [Shared.attemptsOn, Shared.startsOn, elsewhere, elsewhere]

/-- **Every branch of every run attempts one more step than it starts**, at most. -/
theorem moves_paced {schedule : List Move} {state : RunState}
    (h : (RunState.start launch).moves launch schedule = some state) (path : Path) :
    state.shared.attemptsOn path ≤ state.shared.startsOn path + 1 := by
  refine (moves_induction_known (P := fun state => Walk.Every (Paced state.shared) [] state.walk ∧
    ∀ path, state.shared.attemptsOn path ≤ state.shared.startsOn path + 1) ?_ ?_ h (known_start launch) ?_).2.2 path
  · rintro state after known turns ⟨paced, before⟩
    refine ⟨turns_paced known.tidy known.settled turns paced, fun path => ?_⟩
    rcases turns.action (known.settled.and paced) with same | ⟨inner, one, result, ⟨settled, paced⟩, acts, same⟩
    · rw [same]
      exact before path
    · rw [same]
      exact acts_ahead acts settled paced before path
  · exact fun branch before => before
  · constructor
    · exact RunState.every_start (Nat.le_refl 1) fun _ _ => rfl
    · intro path
      simp only [RunState.start, Shared.attemptsOn, Shared.countOn, List.countP_nil]
      split <;> omega

end

/-! ## What the steps pay for -/

/-- the largest number of advancers of a node -/
def Orchestration.width (graph : Orchestration) : Nat :=
  graph.nodes.foldr (fun node width => max node.advancers.length width) 0

theorem Orchestration.length_advancers_le {graph : Orchestration} {node : Node} (mem : node ∈ graph.nodes) :
    node.advancers.length ≤ graph.width := by
  unfold width
  generalize graph.nodes = nodes at mem
  induction nodes with
  | nil => cases mem
  | cons first rest ih =>
    rcases List.mem_cons.1 mem with rfl | mem
    · exact Nat.le_max_left _ _
    · exact (ih mem).trans (Nat.le_max_right _ _)

/-- how many step numbers a walk may draw before it starts another step -/
def Walk.chances : Walk → Nat
  | .crossing _ _ _ => 1
  | .arriving _ _ => 1
  | .admitted _ _ => 1
  | .busy _ _ => 1
  | .suspended _ _ => 1
  | _ => 0

/-- how many branches a walk may start before it starts another step -/
def Walk.offspring (width : Nat) : Walk → Nat
  | .busy _ _ => width
  | .suspended _ _ => width
  | _ => 0

section

variable {launch : Launch} {path : Path} {shared : Shared} {walk : Walk} {after : Shared × Walk}

/-- Where a walk goes on or splits, each new chance but one comes with a new branch. -/
theorem chances_follow (path : Path) (shared : Shared) (source : NodeId) (route : Route) :
    (Walk.follow path shared source route).2.total (fun _ => Walk.chances) path ≤ route.tasks + 1 := by
  cases route with
  | stop ending => exact Nat.zero_le _
  | move advancer delivered => exact Nat.le_refl 1
  | split value fired =>
    have root : Walk.chances (Walk.fanOut path shared source value fired).2 = 0 := rfl
    rw [Walk.follow, Walk.total_fanOut, root]
    simp [Walk.chances, Route.tasks]

/-- An action that draws a number starts a step or takes the one chance of its branch. -/
theorem acts_attempts (h : Walk.Acts launch path shared walk after) :
    after.1.drawn + after.2.total (fun _ => Walk.chances) path + (shared.numbers.length + shared.spawned) ≤
      shared.drawn + walk.chances + (after.1.numbers.length + after.1.spawned) := by
  cases h with
  | @cross source advancer value route _ =>
    have chances := chances_follow path shared source route
    rw [Walk.drawn_follow, Walk.spawned_follow, Walk.numbers_follow, Walk.chances]
    omega
  | @finish node completion route _ =>
    have chances := chances_follow path (shared.record (.returned path node.id completion)) node.id route
    rw [Walk.drawn_follow, Walk.spawned_follow, Walk.numbers_follow, Walk.chances, Shared.numbers_record]
    simp only [Shared.record, Event.number?, Option.toList_none, List.nil_append] at chances ⊢
    omega
  | begin _ =>
    simp only [Walk.total, Walk.chances, Shared.numbers_record, Event.number?, Option.toList_some, List.length_append]
    simp only [Shared.record, List.length_singleton]
    omega
  | cancel => simp [Walk.total, Walk.chances]
  | pass _ _ | pause | observe | hang | resume _ _ => simp [Walk.total, Walk.chances]
  | number _ _ =>
    rw [Shared.numbers_counted]
    simp [Walk.total, Walk.chances, Shared.counted]
  | stray _ | stopped _ _ | exceed _ | refuse _ _ | dismiss _ | interrupt _ | abandon _ | merge _ =>
    simp only [Walk.fail, Walk.numbers_close, Shared.numbers_counted]
    simp [Walk.close, Walk.total, Walk.chances, Shared.record, Shared.counted]

end

theorem Shared.drawn_start (launch : Launch) : (RunState.start launch).shared.drawn = 0 := rfl

theorem Shared.drawn_cancel (shared : Shared) (branch : Path) : (shared.cancel branch).drawn = shared.drawn := rfl

/-- the books of step numbers: a number is drawn for a step that starts, or is the one chance of its branch -/
def attemptLedger (launch : Launch) : Ledger launch fun _ _ => True where
  gains := Shared.drawn
  payments shared := shared.numbers.length + shared.spawned
  credit _ := Walk.chances
  credit_joining _ _ _ _ := rfl
  gains_start := Shared.drawn_start launch
  gains_cancel := Shared.drawn_cancel
  payments_cancel _ _ := rfl
  acts h _ := acts_attempts h

section

variable {launch : Launch} {path : Path} {shared : Shared} {walk : Walk} {after : Shared × Walk}

/-- Where a walk goes on or splits, no walk may split before it has started a step. -/
theorem offspring_follow (width : Nat) (path : Path) (shared : Shared) (source : NodeId) (route : Route) :
    (Walk.follow path shared source route).2.total (fun _ => Walk.offspring width) path = 0 := by
  cases route with
  | split value fired =>
    have root : Walk.offspring width (Walk.fanOut path shared source value fired).2 = 0 := rfl
    rw [Walk.follow, Walk.total_fanOut, root]
    simp [Walk.offspring]
  | _ => rfl

/-- A step starts no more branches than its node has advancers. -/
theorem Responds.tasks_le {node : Node} {completion : Completion} {route : Route}
    (h : Responds launch node path completion route) : route.tasks ≤ node.advancers.length := by
  refine Nat.le_trans ?_ h.advancers.2
  cases route with
  | split value fired => exact Nat.le_of_eq (List.length_map ..).symm
  | _ => exact Nat.zero_le _

theorem Along.tasks_eq_zero {source : NodeId} {advancer : Advancer} {value : Value} {route : Route}
    (h : Along launch.graph source advancer value route) : route.tasks = 0 := by
  cases h <;> rfl

/-- An action starts branches only after a step, and no more than its node has advancers. -/
theorem acts_spawns (h : Walk.Acts launch path shared walk after) (tidy : Tidy launch.graph walk) :
    after.1.spawned + after.2.total (fun _ => Walk.offspring launch.graph.width) path +
        launch.graph.width * shared.numbers.length ≤
      shared.spawned + walk.offspring launch.graph.width + launch.graph.width * after.1.numbers.length := by
  cases h with
  | @cross source advancer value route along =>
    rw [offspring_follow, Walk.spawned_follow, Walk.numbers_follow, along.tasks_eq_zero]
    omega
  | @finish node completion route responds =>
    have few := responds.tasks_le.trans (Orchestration.length_advancers_le (Orchestration.mem_nodes_of_node? tidy))
    rw [offspring_follow, Walk.spawned_follow, Walk.numbers_follow, Walk.offspring, Shared.numbers_record]
    simp only [Shared.record, Event.number?, Option.toList_none, List.nil_append]
    omega
  | begin _ =>
    simp only [Walk.total, Walk.offspring, Shared.numbers_record, Event.number?, Option.toList_some, List.length_append]
    simp only [Shared.record, List.length_singleton, Nat.mul_add]
    omega
  | cancel => simp [Walk.total, Walk.offspring]
  | pass _ _ | pause | observe | hang | resume _ _ => simp [Walk.total, Walk.offspring]
  | number _ _ =>
    rw [Shared.numbers_counted]
    simp [Walk.total, Walk.offspring, Shared.counted]
  | stray _ | stopped _ _ | exceed _ | refuse _ _ | dismiss _ | interrupt _ | abandon _ | merge _ =>
    simp only [Walk.fail, Walk.numbers_close, Shared.numbers_counted]
    simp [Walk.close, Walk.total, Walk.offspring, Shared.record, Shared.counted]

end

/-- the books of branches: one is started for an advancer of a node whose step has returned -/
def spawnLedger (launch : Launch) : Ledger launch fun _ => Tidy launch.graph where
  gains := Shared.spawned
  payments shared := launch.graph.width * shared.numbers.length
  credit _ := Walk.offspring launch.graph.width
  credit_joining _ _ _ _ := rfl
  gains_start := rfl
  gains_cancel _ _ := rfl
  payments_cancel _ _ := rfl
  acts := acts_spawns

section

variable {launch : Launch} {schedule : List Move} {state : RunState}

/-- **No more numbers are drawn than steps are started**, but for one on each branch. -/
theorem moves_attempts (h : (RunState.start launch).moves launch schedule = some state) :
    state.shared.drawn ≤ state.shared.numbers.length + state.shared.spawned + 1 := by
  have any : ∀ schedule state, (RunState.start launch).moves launch schedule = some state →
      Walk.Every (fun _ _ => True) [] state.walk :=
    fun _ _ moved => (moves_tidy moved).mono fun _ _ _ => trivial
  have begins : (RunState.start launch).walk.total (attemptLedger launch).credit [] ≤ 1 := by
    simp only [RunState.start]
    cases launch.graph.entry with
    | none => exact Nat.zero_le 1
    | some entry => exact Nat.le_refl 1
  exact Nat.le_of_add_right_le ((attemptLedger launch).moves any begins h)

/-- **No more branches are started than the steps have advancers.** -/
theorem moves_spawned (h : (RunState.start launch).moves launch schedule = some state) :
    state.shared.spawned ≤ launch.graph.width * state.shared.numbers.length := by
  have begins : (RunState.start launch).walk.total (spawnLedger launch).credit [] ≤ 0 := by
    simp only [RunState.start]
    cases launch.graph.entry <;> exact Nat.le_refl 0
  exact Nat.le_of_add_right_le ((spawnLedger launch).moves (fun _ _ => moves_tidy) begins h)

/-- **Under a limit every run ends**, if its steps return, and however its graph leads round in circles. No more steps are
started than the limit allows; each branch attempts one more step than it starts, at most; and no more branches are started
than these steps have advancers. -/
theorem step_limit_terminates {launch : Launch} {limit : Nat} (limited : launch.config.maxSteps = some limit)
    (returns : launch.StepsReturn) :
    launch.Terminates ∧
    ∀ schedule state, (RunState.start launch).moves launch schedule = some state →
      state.shared.numbers.length ≤ limit ∧
      (∀ path, state.shared.attemptsOn path ≤ state.shared.startsOn path + 1) ∧
      state.shared.drawn ≤ state.shared.numbers.length + state.shared.spawned + 1 ∧
      state.shared.spawned ≤ limit * launch.graph.width := by
  constructor
  · exact returns.terminates fun schedule state moved within => Config.limitBefore_eq_none_iff.1 within limit limited
  · intro schedule state moved
    have few := length_numbers_le limited moved
    refine ⟨few, moves_paced moved, moves_attempts moved, ?_⟩
    calc state.shared.spawned ≤ launch.graph.width * state.shared.numbers.length := moves_spawned moved
      _ ≤ launch.graph.width * limit := Nat.mul_le_mul_left _ few
      _ = limit * launch.graph.width := Nat.mul_comm ..

/-- a node that splits into a branch that comes back to it at once, and one that comes back by way of another node -/
def circlingLaunch : Launch :=
  { graph :=
      { nodes := [
          { id := ⟨"a"⟩, step := .identity .int64, parallel := true,
            advancers := [.always (.direct ⟨"a"⟩), .always (.direct ⟨"b"⟩)] },
          { id := ⟨"b"⟩, step := .identity .int64, advancers := [.always (.direct ⟨"a"⟩)] }],
        entry := some ⟨"a"⟩ }
    config := { maxSteps := some 3 }
    input := .int 7 }

theorem step_limit_terminates_circling :
    circlingLaunch.graph.isCyclic = true ∧ circlingLaunch.config.maxSteps = some 3 ∧ circlingLaunch.StepsReturn ∧
    circlingLaunch.Terminates ∧
    ∀ schedule state, (RunState.start circlingLaunch).moves circlingLaunch schedule = some state →
      state.shared.numbers.length ≤ 3 ∧ state.shared.spawned ≤ 6 := by
  have returns : circlingLaunch.StepsReturn := by
    refine Launch.stepsReturn_of_nodes fun node mem value context => ?_
    have same : node.step = .identity .int64 := by
      rcases List.mem_cons.1 mem with rfl | mem
      · rfl
      · rw [List.mem_singleton.1 mem]
    rw [same]
    trivial
  obtain ⟨ends, bounds⟩ := step_limit_terminates (show circlingLaunch.config.maxSteps = some 3 from rfl) returns
  refine ⟨by decide, rfl, returns, ends, fun schedule state moved => ?_⟩
  obtain ⟨steps, -, -, branches⟩ := bounds schedule state moved
  exact ⟨steps, branches⟩

end

end StepFlow
