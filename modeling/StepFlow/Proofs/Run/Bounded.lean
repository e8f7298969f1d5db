/-
Runs that come to an end.

A walk has so much left to do until its next step number (`Walk.effort`), provided the step that it runs returns. Every turn
leaves less to do in the tree of walks, except the one that draws a number within the limit. So a run goes on for as long as
it draws numbers, and if it can only draw so many, it ends, however its branches are interleaved and whatever is cancelled.
Where a turn leads depends on the tokens in one bit only, so that there are finitely many ways to go on, and one bound for
all schedules. Results:
- `turns_ease`: every turn leaves less to do, or draws a number within the limit;
- `outcomes_finite`: a turn leads to one of finitely many places;
- `exists_bound`: if numbers are drawn up to a budget only, the turns of all schedules have a common bound;
- `moves_goes_on`: a run whose steps return is never stuck before its end;
- `Launch.StepsReturn.terminates`: so such a run ends, if numbers are drawn up to a budget only;
- `Launch.Terminates.concludes`: and a run that ends comes to a conclusion from wherever it is.
-/
import Mathlib.Data.Set.Finite.Lattice
import Mathlib.Order.WellFounded
import StepFlow.Proofs.Run.Cancelling
import StepFlow.Proofs.Run.Ledger

namespace StepFlow

/-! ## Steps that return -/

namespace Activity

/-- the activity comes to its end, whatever it observes -/
def Returns : Activity → Prop
  | .finish _ => True
  | .pause next => next.Returns
  | .cancel _ next => next.Returns
  | .observe next => ∀ cancelled, (next cancelled).Returns
  | .hang => False

/-- the most turns that an activity takes to its end, whatever it observes -/
def longest : Activity → Nat
  | .finish _ => 1
  | .pause next => next.longest + 2
  | .cancel _ next => next.longest + 1
  | .observe next => max (next true).longest (next false).longest + 1
  | .hang => 0

theorem longest_observe_lt (next : Bool → Activity) (cancelled : Bool) :
    (next cancelled).longest < (Activity.observe next).longest := by
  rw [longest]
  cases cancelled <;> omega

end Activity

def Starting (path : Path) : Walk → Prop
  | .ready node step value => (node.step.run value { node := node.id, step := step, branch := path }).Returns
  | _ => True

def Returning : Walk → Prop
  | .busy _ activity => activity.Returns
  | .suspended _ activity => activity.Returns
  | _ => True

/-- every step that a run starts returns, whatever its branch observes -/
def Launch.StepsReturn (launch : Launch) : Prop :=
  ∀ schedule state, (RunState.start launch).moves launch schedule = some state → Walk.Every Starting [] state.walk

/-! ## What is left to do -/

/-- the most turns that a walk by itself takes until it draws a number, ends, or waits for its branches, with what its
branches will take if it splits -/
def Walk.effort (path : Path) : Walk → Nat
  | .crossing _ _ _ => 3
  | .arriving _ _ => 2
  | .admitted _ _ => 1
  | .ready node step value =>
    (node.step.run value { node := node.id, step := step, branch := path }).longest + 4 * node.advancers.length + 3
  | .busy node activity => activity.longest + 4 * node.advancers.length + 2
  | .suspended node activity => activity.longest + 4 * node.advancers.length + 3
  | .joining _ pending _ => pending.length + 1
  | .ended _ => 0

/-- the most turns that the walks of a tree take until one of them draws a number -/
def Walk.efforts (path : Path) (walk : Walk) : Nat :=
  walk.total Walk.effort path

theorem efforts_fanOut (path : Path) (shared : Shared) (source : NodeId) (value : Value) (fired : List (Nat × Advancer)) :
    (Walk.fanOut path shared source value fired).2.efforts path = 4 * fired.length + 1 := by
  have crossings : (fired.map fun one => Walk.effort (path ++ [one.1]) (.crossing source one.2 value)).sum =
      fired.length * 3 := by
    simp only [Walk.effort, List.map_const', List.sum_replicate_nat]
  have root : Walk.effort path (Walk.fanOut path shared source value fired).2 = fired.length + 1 := by
    simp only [Walk.fanOut, Walk.effort, List.length_range']
  rw [Walk.efforts, Walk.total_fanOut, crossings, root]
  omega

/-- a turn draws a number that the limit allows -/
def Draws (launch : Launch) (old new : Shared) : Prop :=
  new.drawn = old.drawn + 1 ∧ launch.config.limitBefore new.drawn = none

section

variable {launch : Launch} {path : Path} {shared : Shared} {walk : Walk} {after : Shared × Walk}

/-- **Every action leaves less to do, or draws a number within the limit.** -/
theorem acts_ease (returning : Returning walk) (h : Walk.Acts launch path shared walk after) :
    after.2.efforts path < walk.efforts path ∨ Draws launch shared after.1 := by
  have ends : ∀ {ending : Ending}, 0 < Walk.effort path walk → (Walk.ended ending).efforts path < walk.efforts path :=
    fun positive => Nat.lt_of_lt_of_le positive (walk.le_total path)
  cases h with
  | @cross source advancer value route along =>
    refine Or.inl ?_
    cases along with
    | delivered _ _ => exact Nat.lt_succ_self 2
    | _ => exact ends (Nat.succ_pos _)
  | pass _ _ => exact Or.inl (Nat.lt_succ_self 1)
  | number within _ => exact Or.inr ⟨rfl, within⟩
  | begin _ => exact Or.inl (Nat.lt_succ_self _)
  | @finish node completion route responds =>
    refine Or.inl ?_
    cases route with
    | stop ending => exact ends (Nat.succ_pos _)
    | move advancer delivered =>
      simp only [Walk.follow, Walk.efforts, Walk.total, Walk.effort, Activity.longest]
      omega
    | split value fired =>
      obtain ⟨fires, -⟩ := responds.splits value fired rfl
      have fewer := (Node.fired_spec fires).1.length_le
      rw [Walk.follow, efforts_fanOut]
      simp only [Walk.efforts, Walk.total, Walk.effort, Activity.longest]
      omega
  | pause =>
    simp only [Walk.efforts, Walk.total, Walk.effort, Activity.longest]
    omega
  | cancel =>
    simp only [Walk.efforts, Walk.total, Walk.effort, Activity.longest]
    omega
  | @observe node next =>
    have fewer := Activity.longest_observe_lt next (shared.isCancelled path)
    simp only [Walk.efforts, Walk.total, Walk.effort]
    omega
  | hang => exact returning.elim
  | resume _ _ => exact Or.inl (Nat.lt_succ_self _)
  | stray _ | stopped _ _ | exceed _ | refuse _ _ | dismiss _ | interrupt _ | abandon _ | merge _ =>
    exact Or.inl (ends (Nat.succ_pos _))

/-- **Every turn leaves less to do, or draws a number within the limit.** -/
theorem turns_ease (returning : Walk.Every (fun _ => Returning) path walk) (h : Walk.Turns launch path shared walk after) :
    after.2.efforts path < walk.efforts path ∨ Draws launch shared after.1 := by
  induction h with
  | act acts => exact acts_ease returning.root acts
  | @receive path shared branches pending gather slot id index ending _ waiting =>
    have fewer := List.length_erase_of_mem waiting
    have positive := List.length_pos_of_mem waiting
    simp only [Walk.efforts, Walk.total, Walk.effort]
    omega
  | @within path shared branches pending gather slot branch after there _ ih =>
    refine (ih (returning.inside branch (List.mem_of_getElem? there))).imp_left fun fewer => ?_
    have sum : (Walk.joining (branches.set slot { branch with walk := after.2 }) pending gather).total Walk.effort path + _ =
        (Walk.joining branches pending gather).total Walk.effort path + _ := Walk.total_set there path after.2 rfl
    simp only [Walk.efforts] at fewer ⊢
    omega

end

/-! ## Where a turn can lead -/

/-- what decides how a run goes on, but for its tokens -/
structure Snapshot where
  drawn : Nat
  spawned : Nat
  walk : Walk

/-- what is shared and a walk, without tokens and journal -/
def snapshot (state : Shared × Walk) : Snapshot :=
  ⟨state.1.drawn, state.1.spawned, state.2⟩

/-- where the turns of a tree can lead, whatever has been cancelled -/
def outcomes (launch : Launch) (path : Path) (drawn spawned : Nat) (walk : Walk) : Set Snapshot :=
  { next | ∃ turn shared after, shared.drawn = drawn ∧ shared.spawned = spawned ∧
    walk.turn launch turn path shared = some after ∧ snapshot after = next }

section

variable {launch : Launch} {path : Path} {walk : Walk} {one other : Shared}

theorem snapshot_follow (drawn : one.drawn = other.drawn) (spawned : one.spawned = other.spawned) (source : NodeId)
    (route : Route) : snapshot (Walk.follow path one source route) = snapshot (Walk.follow path other source route) := by
  cases route with
  | split value fired => simp only [snapshot, Walk.follow, Walk.fanOut, Shared.record, drawn, spawned]
  | _ => simp only [snapshot, Walk.follow, Walk.close, Shared.record, drawn, spawned]

/-- **An action depends on the tokens in one bit.** -/
theorem snapshot_act (drawn : one.drawn = other.drawn) (spawned : one.spawned = other.spawned)
    (token : one.isCancelled path = other.isCancelled path) :
    (walk.act launch path one).map snapshot = (walk.act launch path other).map snapshot := by
  cases walk with
  | crossing source advancer value => exact congrArg some (snapshot_follow drawn spawned source _)
  | arriving target value =>
    simp only [Walk.act, token]
    split
    · simp [snapshot, Walk.fail, Walk.close, Shared.record, drawn, spawned]
    · split <;> simp [snapshot, Walk.fail, Walk.close, Shared.record, drawn, spawned]
  | admitted node value =>
    simp only [Walk.act, Walk.draw, drawn]
    split
    · simp [snapshot, Walk.fail, Walk.close, Shared.record, spawned]
    · split <;> simp [snapshot, Walk.fail, Walk.close, Shared.record, spawned]
  | ready node step value =>
    simp only [Walk.act, token]
    split <;> simp [snapshot, Walk.fail, Walk.close, Shared.record, drawn, spawned]
  | busy node activity =>
    cases activity with
    | finish completion =>
      refine congrArg some (snapshot_follow ?_ ?_ node.id _)
      · exact drawn
      · exact spawned
    | cancel scope next => simp [Walk.act, Walk.work, snapshot, drawn, spawned]
    | observe next => simp [Walk.act, Walk.work, snapshot, token, drawn, spawned]
    | _ => simp [Walk.act, Walk.work, snapshot, drawn, spawned]
  | suspended node activity =>
    simp only [Walk.act, token]
    split
    · simp [snapshot, Walk.fail, Walk.close, Shared.record, drawn, spawned]
    · split <;> simp [snapshot, drawn, spawned]
  | joining branches pending gather =>
    simp only [Walk.act, token]
    split
    · split <;> simp [snapshot, Walk.fail, Walk.close, Shared.record, drawn, spawned]
    · rfl
  | ended ending => rfl

/-- what the action at the root can lead to -/
theorem acted_finite (launch : Launch) (path : Path) (drawn spawned : Nat) (walk : Walk) :
    { next | ∃ shared after, shared.drawn = drawn ∧ shared.spawned = spawned ∧
      walk.act launch path shared = some after ∧ snapshot after = next }.Finite := by
  -- at most one way to go on under a live token, and one under a cancelled one
  have single : ∀ token, { next | ∃ shared after, shared.drawn = drawn ∧ shared.spawned = spawned ∧
      shared.isCancelled path = token ∧ walk.act launch path shared = some after ∧
      snapshot after = next }.Subsingleton := by
    rintro token first ⟨one, after, rfl, rfl, rfl, acts, rfl⟩ second ⟨other, later, drawn, spawned, token, again, rfl⟩
    have same : (walk.act launch path one).map snapshot = (walk.act launch path other).map snapshot :=
      snapshot_act drawn.symm spawned.symm token.symm
    rw [acts, again] at same
    exact Option.some.inj same
  refine Set.Finite.subset ((single true).finite.union (single false).finite) ?_
  rintro next ⟨shared, after, drawn, spawned, acts, same⟩
  cases token : shared.isCancelled path with
  | true => exact Or.inl ⟨shared, after, drawn, spawned, token, acts, same⟩
  | false => exact Or.inr ⟨shared, after, drawn, spawned, token, acts, same⟩

def Snapshot.received (drawn spawned : Nat) (branches : List (Branch Walk)) (pending : List TaskId) (gather : Gather)
    (branch : Branch Walk) : Snapshot :=
  match branch.walk with
  | .ended ending => ⟨drawn, spawned, .joining branches (pending.erase branch.id) (gather.receive branch.id ending)⟩
  | walk => ⟨drawn, spawned, walk⟩

/-- **A turn leads to one of finitely many places**, whichever turn it is and whatever has been cancelled. -/
theorem outcomes_finite {P : Path → Walk → Prop} (every : Walk.Every P path walk) (drawn spawned : Nat) :
    (outcomes launch path drawn spawned walk).Finite := by
  induction every generalizing drawn spawned with
  | @intro path walk _ inside ih =>
    have acted := acted_finite launch path drawn spawned walk
    cases walk with
    | joining branches pending gather =>
      have received : (Set.range fun slot : Fin branches.length =>
          Snapshot.received drawn spawned branches pending gather branches[slot]).Finite := Set.finite_range _
      have nested : (⋃ slot : Fin branches.length, (fun next : Snapshot => Snapshot.mk next.drawn next.spawned
          (.joining (branches.set slot { branches[slot] with walk := next.walk }) pending gather)) ''
            outcomes launch (path ++ [branches[slot].index]) drawn spawned branches[slot].walk).Finite :=
        Set.finite_iUnion fun slot => (ih branches[slot] (List.getElem_mem slot.2) drawn spawned).image _
      refine (acted.union (received.union nested)).subset ?_
      rintro next ⟨turn, shared, after, rfl, rfl, taken, rfl⟩
      cases turn with
      | act => exact Or.inl ⟨shared, after, rfl, rfl, taken, rfl⟩
      | receive slot =>
        simp only [Walk.turn] at taken
        split at taken
        · rename_i id index ending there
          split at taken
          · cases taken
            obtain ⟨lt, same⟩ := List.getElem?_eq_some_iff.1 there
            refine Or.inr (Or.inl ⟨⟨slot, lt⟩, ?_⟩)
            simp only [Fin.getElem_fin, same, Snapshot.received]
            rfl
          · cases taken
        · cases taken
      | within slot inner =>
        simp only [Walk.turn] at taken
        cases there : branches[slot]? with
        | none => rw [there] at taken; cases taken
        | some branch =>
          rw [there] at taken
          obtain ⟨result, goes, rfl⟩ := Option.map_eq_some_iff.1 taken
          obtain ⟨lt, rfl⟩ := List.getElem?_eq_some_iff.1 there
          refine Or.inr (Or.inr (Set.mem_iUnion.2 ⟨⟨slot, lt⟩, snapshot result, ?_, rfl⟩))
          exact ⟨inner, shared, result, rfl, rfl, goes, rfl⟩
    | _ =>
      refine acted.subset ?_
      rintro next ⟨turn, shared, after, drawn, spawned, taken, same⟩
      cases turn with
      | act => exact ⟨shared, after, drawn, spawned, taken, same⟩
      | receive slot => cases taken
      | within slot inner => cases taken

end

/-- What each of finitely many things has a bound for, all of them have one for. -/
theorem exists_common_bound {α : Type} {things : Set α} (finite : things.Finite) {P : α → Nat → Prop}
    (looser : ∀ thing low high, low ≤ high → P thing low → P thing high) (each : ∀ thing ∈ things, ∃ bound, P thing bound) :
    ∃ bound, ∀ thing ∈ things, P thing bound := by
  induction things, finite using Set.Finite.induction_on with
  | empty => exact ⟨0, fun thing mem => mem.elim⟩
  | @insert thing others _ _ ih =>
    obtain ⟨first, bounds⟩ := each thing (Set.mem_insert _ _)
    obtain ⟨second, rest⟩ := ih fun other mem => each other (Set.mem_insert_of_mem _ mem)
    refine ⟨max first second, fun other mem => ?_⟩
    rcases Set.mem_insert_iff.1 mem with rfl | mem
    · exact looser other first _ (Nat.le_max_left _ _) bounds
    · exact looser other second _ (Nat.le_max_right _ _) (rest other mem)

/-! ## Runs -/

section

variable {launch : Launch} {path : Path} {shared : Shared} {walk : Walk} {after : Shared × Walk}

theorem acts_returning (h : Walk.Acts launch path shared walk after) (starting : Starting path walk)
    (before : Returning walk) : Walk.Every (fun _ => Returning) path after.2 := by
  cases h with
  | cross _ => exact Walk.Every.follow (fun _ _ => trivial) (fun _ _ _ => trivial) fun _ _ _ => ⟨trivial, fun _ _ => trivial⟩
  | finish _ => exact Walk.Every.follow (fun _ _ => trivial) (fun _ _ _ => trivial) fun _ _ _ => ⟨trivial, fun _ _ => trivial⟩
  | begin _ => exact Walk.every_whole rfl starting
  | observe => exact Walk.every_whole rfl (before _)
  | hang => exact before.elim
  | pass _ _ | number _ _ => exact Walk.every_whole rfl trivial
  | pause | cancel | resume _ _ => exact Walk.every_whole rfl before
  | stray _ | stopped _ _ | exceed _ | refuse _ _ | dismiss _ | interrupt _ | abandon _ | merge _ =>
    exact Walk.every_ended trivial

theorem turns_returning (tidy : Walk.Every (fun _ => Tidy launch.graph) path walk)
    (h : Walk.Turns launch path shared walk after) (starting : Walk.Every Starting path walk)
    (before : Walk.Every (fun _ => Returning) path walk) : Walk.Every (fun _ => Returning) path after.2 :=
  Walk.Every.turns_apart (P := fun _ _ => Returning) (R := fun _ => Starting) (fun _ before => before)
    (fun acts known before => acts_returning acts known.root before.root) (fun _ _ before _ => before)
    (fun _ _ _ before => before) tidy starting h before

end

section

variable {launch : Launch} {schedule : List Move} {state : RunState}

/-- **A run whose steps return** has every one of them under way to its end. -/
theorem moves_returning (returns : launch.StepsReturn) (h : (RunState.start launch).moves launch schedule = some state) :
    Walk.Every (fun _ => Returning) [] state.walk := by
  exact RunState.moves_induction_reached (P := fun state => Walk.Every (fun _ => Returning) [] state.walk)
    (fun reached turns before => turns_returning (moves_tidy reached) turns (returns _ _ reached) before)
    (fun _ before => before) h (RunState.every_start trivial fun _ _ => trivial)

/-- some state of a run that looks like the first goes on, in one turn, to one that looks like the second -/
def Successor (launch : Launch) (look next : Snapshot) : Prop :=
  ∃ earlier state turn after, (RunState.start launch).moves launch earlier = some state ∧
    snapshot (state.shared, state.walk) = look ∧ state.walk.turn launch turn [] state.shared = some after ∧
    snapshot after = next

theorem successors_finite (launch : Launch) (look : Snapshot) : { next | Successor launch look next }.Finite := by
  by_cases reached : ∃ earlier state, (RunState.start launch).moves launch earlier = some state ∧
      snapshot (state.shared, state.walk) = look
  · obtain ⟨earlier, state, moved, rfl⟩ := reached
    have finite : (outcomes launch [] state.shared.drawn state.shared.spawned state.walk).Finite :=
      outcomes_finite (moves_tidy moved) _ _
    refine finite.subset ?_
    rintro next ⟨_, other, turn, after, -, same, taken, rfl⟩
    simp only [snapshot, Snapshot.mk.injEq] at same
    exact ⟨turn, other.shared, after, same.1, same.2.1, same.2.2 ▸ taken, rfl⟩
  · refine Set.finite_empty.subset ?_
    rintro next ⟨earlier, state, turn, after, moved, same, -, -⟩
    exact reached ⟨earlier, state, moved, same⟩

/-- A successor has fewer numbers left of a budget, or as many and less to do. -/
theorem Successor.eases (returns : launch.StepsReturn) {budget : Nat}
    (within : ∀ schedule state, (RunState.start launch).moves launch schedule = some state →
      launch.config.limitBefore state.shared.drawn = none → state.shared.drawn ≤ budget)
    {look next : Snapshot} (h : Successor launch look next) :
    budget - next.drawn < budget - look.drawn ∨
      budget - next.drawn = budget - look.drawn ∧ next.walk.efforts [] < look.walk.efforts [] := by
  obtain ⟨earlier, state, turn, after, moved, rfl, taken, rfl⟩ := h
  have later : (RunState.start launch).moves launch (earlier ++ [.turn turn]) = some ⟨after.1, after.2⟩ := by
    rw [RunState.moves_snoc, moved, Option.bind_some, RunState.move, taken]
    rfl
  have turns := Walk.turns_of_turn taken
  have grows : state.shared.drawn ≤ after.1.drawn := (Walk.turns_grows turns).drawn
  simp only [snapshot]
  rcases turns_ease (moves_returning returns moved) turns with less | ⟨drawn, allowed⟩
  · omega
  · have room : after.1.drawn ≤ budget := within _ _ later allowed
    omega

/-- how many turns a run may still take from every state that looks like this -/
def Bounds (launch : Launch) (look : Snapshot) (bound : Nat) : Prop :=
  ∀ earlier state, (RunState.start launch).moves launch earlier = some state →
    snapshot (state.shared, state.walk) = look →
    ∀ more after, state.moves launch more = some after → more.countP Move.isTurn ≤ bound

theorem bounds_of_successors {look : Snapshot} {bound : Nat}
    (each : ∀ next, Successor launch look next → Bounds launch next bound) : Bounds launch look (bound + 1) := by
  intro earlier state moved same more
  induction more generalizing earlier state with
  | nil => exact fun _ _ => Nat.zero_le _
  | cons move rest ih =>
    intro after goes
    rw [RunState.moves_cons] at goes
    obtain ⟨next, made, further⟩ := Option.bind_eq_some_iff.1 goes
    have later : (RunState.start launch).moves launch (earlier ++ [move]) = some next := by
      rw [RunState.moves_snoc, moved, Option.bind_some, made]
    cases move with
    | cancel branch =>
      rw [List.countP_cons_of_neg (by simp [Move.isTurn])]
      have look : snapshot (next.shared, next.walk) = look := by
        cases made
        exact same
      exact ih (earlier ++ [.cancel branch]) next later look after further
    | turn turn =>
      rw [List.countP_cons_of_pos rfl]
      obtain ⟨result, taken, rfl⟩ := Option.map_eq_some_iff.1 made
      have successor : Successor launch look (snapshot result) := ⟨earlier, state, turn, result, moved, same, taken, rfl⟩
      exact Nat.succ_le_succ (each _ successor _ _ later rfl rest after further)

/-- **The turns of all schedules have a common bound**, if step numbers are drawn up to a budget only. -/
theorem exists_bound (returns : launch.StepsReturn) {budget : Nat}
    (within : ∀ schedule state, (RunState.start launch).moves launch schedule = some state →
      launch.config.limitBefore state.shared.drawn = none → state.shared.drawn ≤ budget) :
    ∃ bound, ∀ schedule state, (RunState.start launch).moves launch schedule = some state →
      schedule.countP Move.isTurn ≤ bound := by
  suffices all : ∀ look, ∃ bound, Bounds launch look bound by
    obtain ⟨bound, bounds⟩ := all (snapshot ((RunState.start launch).shared, (RunState.start launch).walk))
    exact ⟨bound, fun schedule state moved => bounds [] _ rfl rfl schedule state moved⟩
  intro look
  -- first the numbers that are left of the budget go down, then what is left to do
  induction left : budget - look.drawn using Nat.strong_induction_on generalizing look with
  | _ numbers fewerNumbers =>
    induction work : look.walk.efforts [] using Nat.strong_induction_on generalizing look with
    | _ efforts fewerEfforts =>
      have each : ∀ next, Successor launch look next → ∃ bound, Bounds launch next bound := by
        intro next successor
        rcases successor.eases returns within with fewer | ⟨same, less⟩
        · exact fewerNumbers _ (left ▸ fewer) next rfl
        · exact fewerEfforts _ (work ▸ less) next (same.trans left) rfl
      have looser : ∀ next low high, low ≤ high → Bounds launch next low → Bounds launch next high :=
        fun next low high le holds earlier state moved same more after goes =>
          (holds earlier state moved same more after goes).trans le
      obtain ⟨bound, bounds⟩ := exists_common_bound (successors_finite launch look) looser each
      exact ⟨bound + 1, bounds_of_successors bounds⟩

/-- **A run whose steps return is never stuck** before its end, whatever has been cancelled. -/
theorem moves_goes_on (returns : launch.StepsReturn) (h : (RunState.start launch).moves launch schedule = some state) :
    (state.conclusion? launch).isSome ∨ ∃ turn next, state.move launch (.turn turn) = some next := by
  cases concluded : state.conclusion? launch with
  | some conclusion => exact Or.inl rfl
  | none =>
    have wakes : Walk.Every (fun path walk => ∀ node, walk = .suspended node .hang → state.shared.isCancelled path = true)
        [] state.walk := by
      refine (moves_returning returns h).mono fun path walk returning node same => ?_
      subst same
      exact returning.elim
    obtain ⟨turn, after, taken⟩ := exists_turn_of_tidy (moves_tidy h) wakes (RunState.unended_of_conclusion? concluded)
    exact Or.inr ⟨turn, ⟨after.1, after.2⟩, by rw [RunState.move, taken]; rfl⟩

/-- the run ends, whatever the schedule: it can only take so many turns, and it can take one for as long as it has not
concluded -/
structure Launch.Terminates (launch : Launch) : Prop where
  bounded : ∃ bound, ∀ schedule state, (RunState.start launch).moves launch schedule = some state →
    schedule.countP Move.isTurn ≤ bound
  goesOn : ∀ schedule state, (RunState.start launch).moves launch schedule = some state →
    (state.conclusion? launch).isSome ∨ ∃ turn next, state.move launch (.turn turn) = some next

/-- **A run whose steps return ends**, if step numbers are drawn up to a budget only. -/
theorem Launch.StepsReturn.terminates {launch : Launch} (returns : launch.StepsReturn) {budget : Nat}
    (within : ∀ schedule state, (RunState.start launch).moves launch schedule = some state →
      launch.config.limitBefore state.shared.drawn = none → state.shared.drawn ≤ budget) : launch.Terminates :=
  ⟨exists_bound returns within, fun _ _ moved => moves_goes_on returns moved⟩

theorem Launch.Terminates.concludes {launch : Launch} (h : launch.Terminates) {schedule : List Move} {state : RunState}
    (moved : (RunState.start launch).moves launch schedule = some state) :
    ∃ more final conclusion, (RunState.start launch).moves launch (schedule ++ more) = some final ∧
      final.conclusion? launch = some conclusion := by
  obtain ⟨bound, few⟩ := h.bounded
  induction left : bound - schedule.countP Move.isTurn using Nat.strong_induction_on generalizing schedule state with
  | _ turns fewer =>
    rcases h.goesOn schedule state moved with concluded | ⟨turn, next, taken⟩
    · obtain ⟨conclusion, concluded⟩ := Option.isSome_iff_exists.1 concluded
      exact ⟨[], state, conclusion, by rw [List.append_nil, moved], concluded⟩
    · have later : (RunState.start launch).moves launch (schedule ++ [.turn turn]) = some next := by
        rw [RunState.moves_snoc, moved, Option.bind_some, taken]
      have counted : (schedule ++ [Move.turn turn]).countP Move.isTurn = schedule.countP Move.isTurn + 1 :=
        List.countP_append
      have room := few _ _ later
      rw [counted] at room
      obtain ⟨more, final, conclusion, goes, concluded⟩ := fewer _ (by omega) later rfl
      exact ⟨.turn turn :: more, final, conclusion, by rw [← goes, List.append_assoc]; rfl, concluded⟩

theorem Launch.stepsReturn_of_nodes {launch : Launch}
    (returns : ∀ node ∈ launch.graph.nodes, ∀ value context, (node.step.run value context).Returns) :
    launch.StepsReturn := by
  intro schedule state moved
  refine (moves_tidy moved).mono fun path walk tidy => ?_
  cases walk with
  | ready node step value => exact returns node (Orchestration.mem_nodes_of_node? tidy) value _
  | _ => trivial

end

end StepFlow
