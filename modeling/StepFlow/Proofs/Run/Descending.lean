/-
Runs of graphs that do not lead round in a circle.

In such a graph the names have ranks that go down along every advancer, so a walk only ever comes to nodes of lower rank
than those that have been executed on the way to it, on its branch and on the branches around it. No node comes up twice,
then, on the way to any branch, and no more than there are. A walk that heads for a node of some rank will execute a bounded
number of nodes in the tree below, which makes a budget for the step numbers of the whole run. Results:
- `turns_descends`: every walk heads for lower ranks than those of the nodes executed on the way to it;
- `moves_sinking`: on the way to every branch of every run the ranks go down;
- `moves_drawn_le`: so a run draws a bounded number of step numbers;
- `acyclic_runs_end`: no node is executed twice on the way to a branch, and the run ends if its steps return.
-/
import StepFlow.Proofs.Orchestration.Ranked
import StepFlow.Proofs.Run.Pacing
import StepFlow.Proofs.Run.Standing

namespace StepFlow

/-! ## What is executed on the way to a branch -/

/-- the node that an entry says a step was started at, if that was on the branch of a path or on one around it -/
def Event.executed? (path : Path) : Event → Option NodeId
  | .started branch node _ => if branch.isPrefixOf path then some node else none
  | _ => none

namespace Shared

/-- the nodes at which steps were started on the way to the branch of a path, latest first -/
def executedOn (shared : Shared) (path : Path) : List NodeId :=
  shared.journal.filterMap (Event.executed? path)

variable {path : Path} {old new shared : Shared} {id : NodeId}

theorem mem_executedOn :
    id ∈ shared.executedOn path ↔ ∃ branch step, .started branch id step ∈ shared.journal ∧ branch <+: path := by
  constructor
  · intro mem
    obtain ⟨event, noted, executed⟩ := List.mem_filterMap.1 mem
    cases event with
    | started branch node step =>
      rw [Event.executed?] at executed
      split at executed
      · rename_i above
        obtain rfl := Option.some.inj executed
        exact ⟨branch, step, noted, List.isPrefixOf_iff_prefix.1 above⟩
      · cases executed
    | _ => cases executed
  · rintro ⟨branch, step, noted, above⟩
    exact List.mem_filterMap.2 ⟨_, noted, if_pos (List.isPrefixOf_iff_prefix.2 above)⟩

theorem executedOn_started {inner : Path} (below : path <+: inner) (shared : Shared) (node : NodeId) (step : Nat) :
    (shared.record (.started path node step)).executedOn inner = node :: shared.executedOn inner := by
  rw [executedOn, record, List.filterMap_cons, Event.executed?, if_pos (List.isPrefixOf_iff_prefix.2 below), executedOn]

theorem executedOn_of_journal (same : new.journal = old.journal) (path : Path) :
    new.executedOn path = old.executedOn path := by
  rw [executedOn, same, executedOn]

theorem executedOn_follow (inner : Path) (shared : Shared) (source : NodeId) (route : Route) (path : Path) :
    (Walk.follow inner shared source route).1.executedOn path = shared.executedOn path := by
  rw [executedOn, Walk.journal_follow, List.filterMap_cons, executedOn]
  cases route <;> rfl

theorem Apart.executedOn (h : Apart path old new) : new.executedOn path = old.executedOn path := by
  obtain ⟨events, same, apart⟩ := h
  have nothing : events.filterMap (Event.executed? path) = [] := by
    refine List.filterMap_eq_nil_iff.2 fun event mem => ?_
    cases event with
    | started branch node step =>
      exact if_neg fun above => (apart _ mem).2 (List.isPrefixOf_iff_prefix.1 above)
    | _ => rfl
  rw [Shared.executedOn, same, List.filterMap_append, nothing, List.nil_append, Shared.executedOn]

/-- Where nothing has happened within a branch, what is on the way to a path within it is on the way to the branch. -/
theorem executedOn_of_alone (alone : ∀ event ∈ shared.journal, path <+: event.branch → event.branch = path) {inner : Path}
    (below : path <+: inner) (mem : id ∈ shared.executedOn inner) : id ∈ shared.executedOn path := by
  obtain ⟨branch, step, noted, above⟩ := mem_executedOn.1 mem
  refine mem_executedOn.2 ⟨branch, step, noted, ?_⟩
  rcases List.prefix_or_prefix_of_prefix above below with outer | within
  · exact outer
  · have same : branch = path := alone _ noted within
    exact same ▸ List.prefix_refl _

end Shared

/-- where a walk heads, compared by rank with the nodes executed on the way to it -/
def Descends (rank : NodeId → Nat) (shared : Shared) (path : Path) : Walk → Prop
  | .crossing _ advancer _ => ∀ id ∈ shared.executedOn path, rank advancer.target < rank id
  | .arriving target _ => ∀ id ∈ shared.executedOn path, rank target < rank id
  | .admitted node _ => ∀ id ∈ shared.executedOn path, rank node.id < rank id
  | .ready node _ _ => ∀ id ∈ shared.executedOn path, rank node.id < rank id
  | .busy node _ => ∀ id ∈ shared.executedOn path, rank node.id ≤ rank id
  | .suspended node _ => ∀ id ∈ shared.executedOn path, rank node.id ≤ rank id
  | .joining _ _ _ => True
  | .ended _ => True

section

variable {launch : Launch} {rank : NodeId → Nat} {path : Path} {old new shared : Shared} {walk : Walk}
  {after : Shared × Walk}

theorem Descends.of_executed (same : new.executedOn path = old.executedOn path) (h : Descends rank old path walk) :
    Descends rank new path walk := by
  unfold Descends at h ⊢
  rw [same]
  exact h

theorem follow_descends {source : NodeId} {route : Route}
    (lower : ∀ advancer ∈ route.advancers, ∀ id ∈ shared.executedOn path, rank advancer.target < rank id)
    (alone : ∀ event ∈ shared.journal, path <+: event.branch → event.branch = path) :
    Walk.Every (Descends rank (Walk.follow path shared source route).1) path (Walk.follow path shared source route).2 := by
  refine Walk.Every.follow (fun _ _ => trivial) ?_ ?_
  · rintro advancer delivered rfl id mem
    rw [Shared.executedOn_follow] at mem
    exact lower advancer (List.mem_singleton_self advancer) id mem
  · rintro value fired rfl
    refine ⟨trivial, fun one fires id mem => ?_⟩
    rw [Shared.executedOn_follow] at mem
    exact lower one.2 (List.mem_map_of_mem fires) id (Shared.executedOn_of_alone alone (List.prefix_append ..) mem)

/-- **An action leads downwards.** -/
theorem acts_descends (ranks : launch.graph.Ranks rank) (h : Walk.Acts launch path shared walk after)
    (tidy : Tidy launch.graph walk) (settled : Settled launch shared path walk) (before : Descends rank shared path walk) :
    Walk.Every (Descends rank after.1) path after.2 := by
  cases h with
  | @cross source advancer value route along =>
    refine follow_descends (fun other mem => ?_) fun event noted inside => absurd inside (settled.2 event noted)
    rcases along.advancers with none | only
    · rw [none] at mem
      cases mem
    · rw [only] at mem
      obtain rfl := List.mem_singleton.1 mem
      exact before
  | @finish node completion route responds =>
    have going : Going (shared.record (.returned path node.id completion)).journal path := settled.cons rfl rfl
    refine follow_descends (fun advancer mem id executed => ?_) going.alone
    have lower : rank advancer.target < rank node.id := ranks node.id node advancer tidy (responds.advancers.1 mem)
    exact Nat.lt_of_lt_of_le lower (before id executed)
  | @pass target value node found _ =>
    obtain rfl : node.id = target := Orchestration.id_of_node? found
    exact Walk.every_whole rfl before
  | @begin node step value _ =>
    refine Walk.every_whole rfl fun id mem => ?_
    rw [Shared.executedOn_started (List.prefix_refl path)] at mem
    rcases List.mem_cons.1 mem with rfl | earlier
    · exact Nat.le_refl _
    · exact Nat.le_of_lt (before id earlier)
  | @cancel node scope next =>
    have same := Shared.executedOn_of_journal (Shared.journal_cancelScope shared launch.control path scope) path
    have kept : Descends rank (shared.cancelScope launch.control path scope) path (.busy node next) :=
      Descends.of_executed same before
    exact Walk.every_whole rfl kept
  | number _ _ | pause | observe | hang | resume _ _ => exact Walk.every_whole rfl before
  | stray _ | stopped _ _ | exceed _ | refuse _ _ | dismiss _ | interrupt _ | abandon _ | merge _ =>
    exact Walk.every_ended trivial

/-- **Every walk heads for lower ranks** than those of the nodes executed on the way to it. -/
theorem turns_descends (ranks : launch.graph.Ranks rank) (tidy : Walk.Every (fun _ => Tidy launch.graph) path walk)
    (settled : Walk.Every (Settled launch shared) path walk) (h : Walk.Turns launch path shared walk after)
    (before : Walk.Every (Descends rank shared) path walk) : Walk.Every (Descends rank after.1) path after.2 :=
  Walk.Every.turns_apart (P := Descends rank)
    (R := fun shared path walk => Tidy launch.graph walk ∧ Settled launch shared path walk)
    (fun apart descends => descends.of_executed apart.executedOn)
    (fun acts known before => acts_descends ranks acts known.root.1 known.root.2 before.root) (fun _ _ _ _ => trivial)
    (fun _ _ _ _ => trivial) tidy (tidy.and settled) h before

/-! ## Ranks go down -/

/-- An action executes nothing on the way to a branch, or it begins the step of its walk there. -/
theorem acts_executes (h : Walk.Acts launch path shared walk after) (inner : Path) :
    after.1.executedOn inner = shared.executedOn inner ∨
      ∃ node step value, walk = .ready node step value ∧ path <+: inner ∧
        after.1.executedOn inner = node.id :: shared.executedOn inner := by
  cases h with
  | @begin node step value _ =>
    by_cases below : path <+: inner
    · exact Or.inr ⟨node, step, value, rfl, below, Shared.executedOn_started below shared node.id step⟩
    · left
      rw [Shared.executedOn, Shared.record, List.filterMap_cons, Event.executed?, if_neg, Shared.executedOn]
      exact fun above => below (List.isPrefixOf_iff_prefix.1 above)
  | cross _ => exact Or.inl (Shared.executedOn_follow ..)
  | finish _ => exact Or.inl (Shared.executedOn_follow ..)
  | cancel => exact Or.inl (Shared.executedOn_of_journal (Shared.journal_cancelScope ..) inner)
  | _ => exact Or.inl rfl

/-- the ranks of the nodes executed on the way to every branch go down -/
def Shared.Sinking (rank : NodeId → Nat) (shared : Shared) : Prop :=
  ∀ path, (shared.executedOn path).Pairwise fun later earlier => rank later < rank earlier

theorem acts_sinking (h : Walk.Acts launch path shared walk after) (settled : Settled launch shared path walk)
    (descends : Descends rank shared path walk) (before : shared.Sinking rank) : after.1.Sinking rank := by
  intro inner
  rcases acts_executes h inner with same | ⟨node, step, value, rfl, below, same⟩
  · rw [same]
    exact before inner
  · rw [same]
    refine List.pairwise_cons.2 ⟨fun id mem => ?_, before inner⟩
    have going : Going shared.journal path := settled
    exact descends id (Shared.executedOn_of_alone going.alone below mem)

/-- **On the way to every branch of every run the ranks go down.** -/
theorem moves_sinking (ranks : launch.graph.Ranks rank) {schedule : List Move} {state : RunState}
    (h : (RunState.start launch).moves launch schedule = some state) : state.shared.Sinking rank := by
  refine (moves_induction_known (P := fun state => Walk.Every (Descends rank state.shared) [] state.walk ∧
    state.shared.Sinking rank) ?_ ?_ h (known_start launch) ?_).2.2
  · rintro state after known turns ⟨descends, sinking⟩
    refine ⟨turns_descends ranks known.tidy known.settled turns descends, ?_⟩
    rcases turns.action (known.settled.and descends) with same | ⟨inner, one, result, ⟨settled, descends⟩, acts, same⟩
    · rw [same]
      exact sinking
    · rw [same]
      exact acts_sinking acts settled descends sinking
  · exact fun branch before => before
  · constructor
    · exact RunState.every_start trivial fun entry _ id mem => absurd mem List.not_mem_nil
    · intro path
      exact List.Pairwise.nil

theorem executedOn_subset {schedule : List Move} {state : RunState}
    (h : (RunState.start launch).moves launch schedule = some state) (path : Path) :
    state.shared.executedOn path ⊆ launch.graph.ids := by
  intro id mem
  obtain ⟨branch, step, noted, -⟩ := Shared.mem_executedOn.1 mem
  obtain ⟨entry, designated⟩ := Option.ne_none_iff_exists'.1 (entry_ne_none h noted)
  obtain ⟨node, hosts, rfl⟩ := moves_begun designated h noted
  exact List.mem_map_of_mem (Orchestration.mem_nodes_of_node? hosts.1)

end

/-! ## A budget for the whole run -/

/-- the most nodes that are executed by a walk which heads for a node of some rank, and by the branches that come from it,
if no node has more advancers than the width -/
def spread (width : Nat) : Nat → Nat
  | 0 => 1
  | rank + 1 => 1 + width * spread width rank

theorem one_le_spread (width rank : Nat) : 1 ≤ spread width rank := by
  cases rank with
  | zero => exact Nat.le_refl 1
  | succ rank => exact Nat.le_add_right 1 _

theorem spread_mono (width : Nat) : Monotone (spread width) := by
  refine monotone_nat_of_le_succ fun rank => ?_
  induction rank with
  | zero => exact one_le_spread width 1
  | succ rank ih => exact Nat.add_le_add_left (Nat.mul_le_mul_left width ih) 1

/-- Whatever a node leads to executes fewer nodes by one than a walk that heads for it. -/
theorem sum_spread_lt {width rank : Nat} {ranks : List Nat} (few : ranks.length ≤ width)
    (lower : ∀ other ∈ ranks, other < rank) : (ranks.map (spread width)).sum < spread width rank := by
  cases rank with
  | zero =>
    obtain rfl : ranks = [] := List.eq_nil_iff_forall_not_mem.2 fun other mem => Nat.not_lt_zero other (lower other mem)
    exact Nat.zero_lt_one
  | succ rank =>
    have each : ∀ number ∈ ranks.map (spread width), number ≤ spread width rank := by
      intro number mem
      obtain ⟨other, among, rfl⟩ := List.mem_map.1 mem
      exact spread_mono width (Nat.le_of_lt_succ (lower other among))
    have sum : (ranks.map (spread width)).sum ≤ ranks.length * spread width rank := by
      simpa using List.sum_le_card_nsmul _ _ each
    calc (ranks.map (spread width)).sum ≤ ranks.length * spread width rank := sum
      _ ≤ width * spread width rank := Nat.mul_le_mul_right _ few
      _ < spread width (rank + 1) := by rw [spread]; omega

/-- the most step numbers that a walk and the branches which come from it will draw -/
def Walk.prospect (width : Nat) (rank : NodeId → Nat) : Walk → Nat
  | .crossing _ advancer _ => spread width (rank advancer.target)
  | .arriving target _ => spread width (rank target)
  | .admitted node _ => spread width (rank node.id)
  | .ready node _ _ => spread width (rank node.id) - 1
  | .busy node _ => spread width (rank node.id) - 1
  | .suspended node _ => spread width (rank node.id) - 1
  | .joining _ _ _ => 0
  | .ended _ => 0

section

variable {launch : Launch} {rank : NodeId → Nat} {path : Path} {shared : Shared} {walk : Walk} {after : Shared × Walk}

theorem prospect_follow (width : Nat) (rank : NodeId → Nat) (path : Path) (shared : Shared) (source : NodeId)
    (route : Route) : (Walk.follow path shared source route).2.total (fun _ => Walk.prospect width rank) path =
      ((route.advancers.map fun advancer => rank advancer.target).map (spread width)).sum := by
  cases route with
  | stop ending => rfl
  | move advancer delivered => exact (Nat.add_zero _).symm
  | split value fired =>
    have root : (Walk.fanOut path shared source value fired).2.prospect width rank = 0 := rfl
    rw [Walk.follow, Walk.total_fanOut, root, Nat.zero_add, Route.advancers]
    simp only [List.map_map]
    rfl

/-- An action that draws a number takes it from what was to be expected of its walk. -/
theorem acts_prospect (ranks : launch.graph.Ranks rank) (h : Walk.Acts launch path shared walk after)
    (tidy : Tidy launch.graph walk) :
    after.1.drawn + after.2.total (fun _ => Walk.prospect launch.graph.width rank) path ≤
      shared.drawn + walk.prospect launch.graph.width rank := by
  have positive : ∀ rank, 1 ≤ spread launch.graph.width rank := one_le_spread launch.graph.width
  cases h with
  | @cross source advancer value route along =>
    rw [prospect_follow, Walk.drawn_follow]
    rcases along.advancers with none | only
    · rw [none]
      exact Nat.le_add_right _ _
    · rw [only]
      exact Nat.le_refl _
  | @finish node completion route responds =>
    have few : (route.advancers.map fun advancer => rank advancer.target).length ≤ launch.graph.width := by
      rw [List.length_map]
      exact responds.advancers.2.trans (Orchestration.length_advancers_le (Orchestration.mem_nodes_of_node? tidy))
    have lower : ∀ other ∈ route.advancers.map fun advancer => rank advancer.target, other < rank node.id := by
      intro other mem
      obtain ⟨advancer, among, rfl⟩ := List.mem_map.1 mem
      exact ranks node.id node advancer tidy (responds.advancers.1 among)
    have less := sum_spread_lt few lower
    rw [prospect_follow, Walk.drawn_follow]
    exact Nat.add_le_add_left (Nat.le_sub_one_of_lt less) _
  | @pass target value node found _ =>
    obtain rfl : node.id = target := Orchestration.id_of_node? found
    exact Nat.le_refl _
  | @number node value _ _ =>
    have one := positive (rank node.id)
    simp only [Walk.total, Walk.prospect, Shared.counted]
    omega
  | @exceed node value _ _ =>
    exact Nat.add_le_add_left (positive (rank node.id)) _
  | @refuse node value _ _ _ =>
    exact Nat.add_le_add_left (positive (rank node.id)) _
  | cancel =>
    rw [Shared.drawn_cancelScope]
    exact Nat.le_refl _
  | begin _ | pause | observe | hang | resume _ _ => exact Nat.le_refl _
  | stray _ | stopped _ _ | dismiss _ | interrupt _ | abandon _ | merge _ => exact Nat.le_add_right _ _

end

/-- the books of step numbers in a graph that descends: whoever draws a number has come down by a rank -/
def descentLedger {launch : Launch} {rank : NodeId → Nat} (ranks : launch.graph.Ranks rank) :
    Ledger launch fun _ => Tidy launch.graph where
  gains := Shared.drawn
  payments _ := 0
  credit _ := Walk.prospect launch.graph.width rank
  gains_start := Shared.drawn_start launch
  credit_joining _ _ _ _ := rfl
  gains_cancel := Shared.drawn_cancel
  payments_cancel _ _ := rfl
  acts h tidy := acts_prospect ranks h tidy

section

variable {launch : Launch} {rank : NodeId → Nat} {schedule : List Move} {state : RunState}

def Launch.prospect (launch : Launch) (rank : NodeId → Nat) : Nat :=
  (RunState.start launch).walk.prospect launch.graph.width rank

/-- **A run in a graph that descends draws a bounded number of step numbers.** -/
theorem moves_drawn_le (ranks : launch.graph.Ranks rank) (h : (RunState.start launch).moves launch schedule = some state) :
    state.shared.drawn ≤ launch.prospect rank := by
  have begins : (RunState.start launch).walk.total (descentLedger ranks).credit [] ≤ launch.prospect rank := by
    unfold Launch.prospect RunState.start
    cases launch.graph.entry <;> exact Nat.le_refl _
  have books := (descentLedger ranks).moves (fun _ _ => moves_tidy) begins h
  exact (Nat.le_of_add_right_le books).trans (Nat.zero_add _).le

/-- **Without a circle a run needs no limit.** Whatever its guards, converters and steps do, no node is executed twice on
the way from the entry to a branch, and no more nodes than there are; and every run ends if its steps return. -/
theorem acyclic_runs_end {launch : Launch} (acyclic : launch.graph.isCyclic = false) :
    (∀ schedule state, (RunState.start launch).moves launch schedule = some state → ∀ path,
      (state.shared.executedOn path).Nodup ∧ (state.shared.executedOn path).length ≤ launch.graph.nodes.length) ∧
    (launch.StepsReturn → launch.Terminates) := by
  obtain ⟨rank, ranks⟩ := Orchestration.exists_rank acyclic
  constructor
  · intro schedule state moved path
    have distinct : (state.shared.executedOn path).Nodup := by
      refine (moves_sinking ranks moved path).imp fun lower same => ?_
      exact Nat.ne_of_lt lower (congrArg rank same)
    refine ⟨distinct, ?_⟩
    simpa [Orchestration.ids] using (distinct.subperm (executedOn_subset moved path)).length_le
  · intro returns
    exact returns.terminates fun schedule state moved _ => moves_drawn_le ranks moved

/-- the run with a fan-out inside another, without a limit -/
def unlimitedLaunch : Launch :=
  { nestedLaunch with config := { maxSteps := none } }

theorem acyclic_runs_end_nested :
    unlimitedLaunch.graph.isCyclic = false ∧ unlimitedLaunch.config.maxSteps = none ∧ unlimitedLaunch.StepsReturn ∧
    unlimitedLaunch.Terminates ∧
    ∃ state, (RunState.start unlimitedLaunch).moves unlimitedLaunch nestedSchedule = some state ∧
      state.shared.executedOn [1, 0] = [⟨"b"⟩, ⟨"c"⟩, ⟨"a"⟩] ∧ (state.shared.executedOn [1, 0]).Nodup ∧
      (state.shared.executedOn [1, 0]).length ≤ 4 := by
  have acyclic : unlimitedLaunch.graph.isCyclic = false := by decide
  have returns : unlimitedLaunch.StepsReturn := by
    refine Launch.stepsReturn_of_nodes fun node mem value context => ?_
    have same : ∀ node ∈ unlimitedLaunch.graph.nodes, node.step.run = fun value _ => .done value := by
      simp [unlimitedLaunch, nestedLaunch, Step.identity]
    rw [same node mem]
    trivial
  obtain ⟨apart, ends⟩ := acyclic_runs_end acyclic
  obtain ⟨state, moved, executed⟩ : ∃ state,
      (RunState.start unlimitedLaunch).moves unlimitedLaunch nestedSchedule = some state ∧
      state.shared.executedOn [1, 0] = [⟨"b"⟩, ⟨"c"⟩, ⟨"a"⟩] := ⟨_, rfl, rfl⟩
  obtain ⟨distinct, few⟩ := apart nestedSchedule state moved [1, 0]
  exact ⟨acyclic, rfl, returns, ends returns, state, moved, executed, distinct, few⟩

end

end StepFlow
