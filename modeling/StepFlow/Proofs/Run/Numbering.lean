/-
The step numbers of a run.

All branches draw their numbers from one counter, and a number may be refused, or be lost with a branch that is
cancelled before it starts its step. So the bound on the steps of a run is about three lots of numbers together: those
under which steps were started, those that walks hold, and those that are lost. Whatever the branches do and however
they are interleaved, the three are a permutation of all the numbers drawn, and a number is lost only with a failure.
Results:
- `turns_shifts`: a turn draws at most one number, and moves it from one lot to the next;
- `moves_numbered`: the three lots of every run are a permutation of the numbers drawn;
- `step_limit_bounds`: under a limit, no more steps are started than it allows, each under a number of its own within
  it, and a run that succeeds has started one step under each of its numbers.
-/
import Mathlib.Data.List.Perm.Subperm
import StepFlow.Proofs.Run.Failing
import StepFlow.Proofs.Run.ScheduleIndependence

namespace StepFlow

/-- the number under which an entry of the journal says that a step was started, which is the one that `Walk.act` hands
to the step in the same action -/
def Event.number? : Event → Option Nat
  | .started _ _ step => some step
  | _ => none

def Shared.numbers (shared : Shared) : List Nat :=
  shared.journal.filterMap Event.number?

@[simp] theorem Shared.numbers_record (shared : Shared) (event : Event) :
    (shared.record event).numbers = event.number?.toList ++ shared.numbers := by
  cases event <;> rfl

@[simp] theorem Shared.numbers_counted (shared : Shared) : shared.counted.numbers = shared.numbers := rfl

@[simp] theorem Shared.numbers_cancelScope (shared : Shared) (control : Control) (branch : Path) (scope : Scope) :
    (shared.cancelScope control branch scope).numbers = shared.numbers := by
  simp [Shared.numbers]

@[simp] theorem Walk.numbers_close (path : Path) (shared : Shared) (ending : Ending) :
    (Walk.close path shared ending).1.numbers = shared.numbers := rfl

@[simp] theorem Walk.numbers_follow (path : Path) (shared : Shared) (source : NodeId) (route : Route) :
    (Walk.follow path shared source route).1.numbers = shared.numbers := by
  cases route <;> rfl

/-! ## The numbers that walks hold -/

/-- a walk with the numbers that it and its branches have drawn and not yet started a step under -/
inductive Holds : Walk → List Nat → Prop where
  | ready {node : Node} {step : Nat} {value : Value} : Holds (.ready node step value) [step]
  | joining {branches : List (Branch Walk)} {pending : List TaskId} {gather : Gather} {held : List (List Nat)} :
      held.length = branches.length →
      (∀ (slot : Nat) branch numbers, branches[slot]? = some branch → held[slot]? = some numbers →
        Holds branch.walk numbers) →
      Holds (.joining branches pending gather) held.flatten
  | none {walk : Walk} : (∀ node step value, walk ≠ .ready node step value) →
      (∀ branches pending gather, walk ≠ .joining branches pending gather) → Holds walk []

theorem Holds.eq_nil {walk : Walk} {held : List Nat} (h : Holds walk held)
    (unready : ∀ node step value, walk ≠ .ready node step value)
    (whole : ∀ branches pending gather, walk ≠ .joining branches pending gather) : held = [] := by
  cases h with
  | ready => exact absurd rfl (unready _ _ _)
  | joining _ _ => exact absurd rfl (whole _ _ _)
  | none _ _ => rfl

theorem holds_ended (ending : Ending) : Holds (.ended ending) [] :=
  .none (by simp) (by simp)

theorem holds_follow (path : Path) (shared : Shared) (source : NodeId) (route : Route) :
    Holds (Walk.follow path shared source route).2 [] := by
  cases route with
  | stop ending => exact holds_ended ending
  | move advancer delivered => exact .none (by simp [Walk.follow]) (by simp [Walk.follow])
  | split value fired =>
    have opened := Walk.getElem?_branches_fanOut path shared source value fired
    have nothing : (fired.map fun _ => ([] : List Nat)).flatten = [] := by simp
    rw [← nothing]
    refine .joining (by simp) fun slot branch numbers there held => ?_
    obtain ⟨one, -, rfl⟩ := Option.map_eq_some_iff.1 ((opened slot).symm.trans there)
    obtain ⟨-, -, rfl⟩ := Option.map_eq_some_iff.1 ((List.getElem?_map ..).symm.trans held)
    exact .none (by simp) (by simp)

theorem Holds.eq_nil_of_joined {graph : Orchestration} {branches : List (Branch Walk)} {gather : Gather}
    {held : List Nat} (h : Holds (.joining branches [] gather) held) (tidy : Joining graph branches [] gather) :
    held = [] := by
  cases h with
  | none _ whole => exact absurd rfl (whole _ _ _)
  | @joining _ _ _ lots length each =>
    refine List.flatten_eq_nil_iff.2 fun numbers mem => ?_
    obtain ⟨slot, indexed⟩ := List.mem_iff_getElem?.1 mem
    have lt : slot < branches.length := length ▸ (List.getElem?_eq_some_iff.1 indexed).1
    have there : branches[slot]? = some branches[slot] := List.getElem?_eq_getElem lt
    obtain ⟨ending, ended, -⟩ := tidy.received slot _ there (by simp)
    have holds := each slot _ numbers there indexed
    rw [ended] at holds
    exact holds.eq_nil (by simp) (by simp)

/-! ## Turns -/

/-- how the numbers move in a turn: those held before and those drawn in it are afterwards those of steps that it has
started, those held, and those lost; none is lost without a failure, and none that the limit forbids gets further -/
structure Shifts (config : Config) (old : Shared) (before : List Nat) (after : Shared × Walk)
    (begun held lost : List Nat) : Prop where
  numbers : after.1.numbers = begun ++ old.numbers
  holds : Holds after.2 held
  perm : (begun ++ held ++ lost).Perm (before ++ List.range' (old.drawn + 1) (after.1.drawn - old.drawn))
  failed : lost ≠ [] → Bears (fun _ => True) after.2
  within : ∀ number ∈ begun ++ held, number ∈ before ∨ config.limitBefore number = none

section

variable {launch : Launch} {config : Config} {path : Path} {shared : Shared} {walk : Walk} {after : Shared × Walk}

theorem shifts_nothing (drawn : after.1.drawn = shared.drawn) (numbers : after.1.numbers = shared.numbers)
    (holds : Holds after.2 []) : Shifts config shared [] after [] [] [] :=
  ⟨by simp [numbers], holds, by simp [drawn], by simp, by simp⟩

theorem shifts_refused (failure : Failure) :
    Shifts config shared [] (Walk.fail path shared.counted failure) [] [] [shared.drawn + 1] := by
  refine ⟨by simp [Walk.fail], holds_ended _, ?_, fun _ => .ended trivial, by simp⟩
  simp [Walk.fail, Walk.close, Shared.record, Shared.counted]

/-- **An action moves numbers on**, and loses one only with a failure. -/
theorem acts_shifts (tidy : Tidy launch.graph walk) (h : Walk.Acts launch path shared walk after) {before : List Nat}
    (holds : Holds walk before) : ∃ begun held lost, Shifts launch.config shared before after begun held lost := by
  -- most walks hold no number, and most actions leave it so
  have still : before = [] → after.1.drawn = shared.drawn → after.1.numbers = shared.numbers → Holds after.2 [] →
      ∃ begun held lost, Shifts launch.config shared before after begun held lost := by
    rintro rfl drawn numbers holds
    exact ⟨[], [], [], shifts_nothing drawn numbers holds⟩
  cases h with
  | cross _ => exact still (holds.eq_nil (by simp) (by simp)) (by simp) (by simp) (holds_follow ..)
  | stray _ => exact still (holds.eq_nil (by simp) (by simp)) rfl rfl (holds_ended _)
  | stopped _ _ => exact still (holds.eq_nil (by simp) (by simp)) rfl rfl (holds_ended _)
  | pass _ _ => exact still (holds.eq_nil (by simp) (by simp)) rfl rfl (.none (by simp) (by simp))
  | exceed _ =>
    obtain rfl := holds.eq_nil (by simp) (by simp)
    exact ⟨_, _, _, shifts_refused _⟩
  | refuse _ _ =>
    obtain rfl := holds.eq_nil (by simp) (by simp)
    exact ⟨_, _, _, shifts_refused _⟩
  | number within _ =>
    obtain rfl := holds.eq_nil (by simp) (by simp)
    refine ⟨[], [shared.drawn + 1], [], rfl, .ready, ?_, by simp, by simp [within]⟩
    simp [Shared.counted]
  | @dismiss node step value _ =>
    cases holds with
    | none unready _ => exact absurd rfl (unready _ _ _)
    | ready => exact ⟨[], [], [step], rfl, holds_ended _, by simp [Walk.fail, Walk.close, Shared.record],
        fun _ => .ended trivial, by simp⟩
  | @begin node step value _ =>
    cases holds with
    | none unready _ => exact absurd rfl (unready _ _ _)
    | ready => exact ⟨[step], [], [], rfl, .none (by simp) (by simp), by simp [Shared.record], by simp, by simp⟩
  | finish _ =>
    exact still (holds.eq_nil (by simp) (by simp)) (by simp [Shared.record]) (by simp [Event.number?]) (holds_follow ..)
  | pause => exact still (holds.eq_nil (by simp) (by simp)) rfl rfl (.none (by simp) (by simp))
  | cancel => exact still (holds.eq_nil (by simp) (by simp)) (by simp) (by simp) (.none (by simp) (by simp))
  | observe => exact still (holds.eq_nil (by simp) (by simp)) rfl rfl (.none (by simp) (by simp))
  | hang => exact still (holds.eq_nil (by simp) (by simp)) rfl rfl (.none (by simp) (by simp))
  | interrupt _ => exact still (holds.eq_nil (by simp) (by simp)) rfl rfl (holds_ended _)
  | resume _ _ => exact still (holds.eq_nil (by simp) (by simp)) rfl rfl (.none (by simp) (by simp))
  | abandon _ => exact still (holds.eq_nil_of_joined tidy) rfl rfl (holds_ended _)
  | merge _ => exact still (holds.eq_nil_of_joined tidy) rfl rfl (holds_ended _)

/-- **A turn moves numbers on**, wherever in the tree it is taken. -/
theorem turns_shifts (tidy : Walk.Every (fun _ => Tidy launch.graph) path walk)
    (h : Walk.Turns launch path shared walk after) {before : List Nat} (holds : Holds walk before) :
    ∃ begun held lost, Shifts launch.config shared before after begun held lost := by
  induction h generalizing before with
  | act acts => exact acts_shifts tidy.root acts holds
  | receive _ _ =>
    cases holds with
    | none _ whole => exact absurd rfl (whole _ _ _)
    | joining length each =>
      exact ⟨[], _, [], rfl, .joining length each, by simp, by simp, fun number mem => Or.inl mem⟩
  | @within path shared branches pending gather slot branch after there turns ih =>
    cases holds with
    | none _ whole => exact absurd rfl (whole _ _ _)
    | @joining _ _ _ lots length each =>
      have lt : slot < branches.length := (List.getElem?_eq_some_iff.1 there).1
      have indexed : lots[slot]? = some lots[slot] := List.getElem?_eq_getElem (length ▸ lt)
      obtain ⟨begun, held, lost, inner⟩ :=
        ih (tidy.inside branch (List.mem_of_getElem? there)) (each slot branch _ there indexed)
      obtain ⟨others, whole, changed⟩ := exists_flatten_perm indexed
      have kept : ∀ (other : Nat) one numbers, (branches.set slot { branch with walk := after.2 })[other]? = some one →
          (lots.set slot held)[other]? = some numbers → Holds one.walk numbers := agree_set each inner.holds
      refine ⟨begun, _, lost, inner.numbers, .joining (by simpa using length) kept, ?_, fun losing => ?_,
        fun number mem => ?_⟩
      · -- the numbers of the other branches stand aside while those of this one move
        refine List.perm_iff_count.2 fun number => ?_
        have moved := inner.perm.count_eq number
        have now := (changed held).count_eq number
        have earlier := whole.count_eq number
        simp only [List.count_append] at moved now earlier ⊢
        omega
      · exact .branch (List.getElem?_set_self lt) (inner.failed losing)
      · have mine : ∀ number ∈ begun ++ held, number ∈ lots.flatten ∨ launch.config.limitBefore number = none :=
          fun number mem => (inner.within number mem).imp_left fun old => whole.mem_iff.2 (List.mem_append_left _ old)
        rcases List.mem_append.1 mem with mem | mem
        · exact mine number (List.mem_append_left _ mem)
        · rcases List.mem_append.1 ((changed held).mem_iff.1 mem) with mem | mem
          · exact mine number (List.mem_append_right _ mem)
          · exact Or.inl (whole.mem_iff.2 (List.mem_append_right _ mem))

end

/-! ## Runs -/

/-- where the numbers that a run has drawn are: each is that of a step that was started, or held, or lost -/
structure Numbered (config : Config) (state : RunState) (held lost : List Nat) : Prop where
  holds : Holds state.walk held
  perm : (state.shared.numbers ++ held ++ lost).Perm (List.range' 1 state.shared.drawn)
  failed : lost ≠ [] → Bears (fun _ => True) state.walk
  within : ∀ number ∈ state.shared.numbers ++ held, config.limitBefore number = none

section

variable {launch : Launch} {state : RunState} {held lost : List Nat}

theorem turns_numbered {after : Shared × Walk} (tidy : Walk.Every (fun _ => Tidy launch.graph) [] state.walk)
    (turns : Walk.Turns launch [] state.shared state.walk after) (before : Numbered launch.config state held lost) :
    ∃ held lost, Numbered launch.config ⟨after.1, after.2⟩ held lost := by
  obtain ⟨begun, later, more, shifts⟩ := turns_shifts tidy turns before.holds
  have drawn := (Walk.turns_grows turns).drawn
  refine ⟨later, more ++ lost, shifts.holds, ?_, fun losing => ?_, fun number mem => ?_⟩
  · have range : List.range' 1 after.1.drawn = List.range' 1 state.shared.drawn ++
        List.range' (state.shared.drawn + 1) (after.1.drawn - state.shared.drawn) := by
      rw [Nat.add_comm state.shared.drawn 1, List.range'_append_1, Nat.add_sub_cancel' drawn]
    rw [range, shifts.numbers]
    refine List.perm_iff_count.2 fun number => ?_
    have moved := shifts.perm.count_eq number
    have earlier := before.perm.count_eq number
    simp only [List.count_append] at moved earlier ⊢
    omega
  · by_cases lossless : more = []
    · subst lossless
      exact turns_bears (fun _ _ => trivial) (Or.inr fun _ => trivial) tidy turns (before.failed losing)
    · exact shifts.failed lossless
  · have moved : number ∈ begun ++ later → launch.config.limitBefore number = none := fun mem =>
      (shifts.within number mem).elim (fun old => before.within number (List.mem_append_right _ old)) id
    rw [shifts.numbers] at mem
    rcases List.mem_append.1 mem with mem | mem
    · rcases List.mem_append.1 mem with mem | mem
      · exact moved (List.mem_append_left _ mem)
      · exact before.within number (List.mem_append_left _ mem)
    · exact moved (List.mem_append_right _ mem)

/-- **The numbers of a run.** However its branches are interleaved, a run has started steps under, holds, or has lost
each number that it has drawn, once. -/
theorem moves_numbered {schedule : List Move} (h : (RunState.start launch).moves launch schedule = some state) :
    ∃ held lost, Numbered launch.config state held lost := by
  refine moves_induction_tidy (P := fun state => ∃ held lost, Numbered launch.config state held lost)
    (fun tidy turns before => ?_) (fun branch before => ?_) h ?_
  · obtain ⟨held, lost, numbered⟩ := before
    exact turns_numbered tidy turns numbered
  · obtain ⟨held, lost, numbered⟩ := before
    exact ⟨held, lost, numbered.holds, numbered.perm, numbered.failed, numbered.within⟩
  · refine ⟨[], [], ?_, .refl _, by simp, by simp [RunState.start, Shared.numbers]⟩
    simp only [RunState.start]
    cases launch.graph.entry with
    | none => exact holds_ended _
    | some entry => exact .none (by simp) (by simp)

/-- The numbers that a run has started steps under or holds are numbers that it has drawn, all different. -/
theorem Numbered.drawn (h : Numbered config state held lost) :
    (state.shared.numbers ++ held).Nodup ∧
      ∀ number ∈ state.shared.numbers ++ held, 1 ≤ number ∧ number ≤ state.shared.drawn := by
  have distinct : (state.shared.numbers ++ held ++ lost).Nodup := h.perm.nodup_iff.2 List.nodup_range'
  refine ⟨(List.nodup_append.1 distinct).1, fun number mem => ?_⟩
  have drawn := h.perm.mem_iff.1 (List.mem_append_left lost mem)
  rw [List.mem_range'_1] at drawn
  omega

theorem Numbered.succeeded (h : Numbered launch.config state held lost) {outcome : Outcome}
    (concluded : state.conclusion? launch = some (.succeeded outcome)) :
    outcome.steps = state.shared.drawn ∧ state.shared.numbers.Perm (List.range' 1 outcome.steps) := by
  obtain ⟨ending, ended, same⟩ := RunState.conclusion?_eq_some concluded
  have holds := h.holds
  have failed := h.failed
  rw [ended] at holds failed
  cases ending with
  | failed failure => cases same
  | panicked panic => cases same
  | outputs reached =>
    cases same
    obtain rfl := holds.eq_nil (by simp) (by simp)
    obtain rfl : lost = [] := by
      by_contra losing
      obtain ⟨failure, other, -⟩ := (failed losing).of_ended
      cases other
    exact ⟨rfl, by simpa using h.perm⟩

theorem Numbered.drawn_le (h : Numbered launch.config state held lost) {outcome : Outcome}
    (concluded : state.conclusion? launch = some (.succeeded outcome)) {limit : Nat}
    (limited : launch.config.maxSteps = some limit) : state.shared.drawn ≤ limit := by
  obtain ⟨steps, perm⟩ := h.succeeded concluded
  rw [steps] at perm
  by_cases unnumbered : state.shared.drawn = 0
  · omega
  · have last : state.shared.drawn ∈ state.shared.numbers := perm.mem_iff.2 (List.mem_range'_1.2 (by omega))
    have within := h.within _ (List.mem_append_left _ last)
    exact Config.limitBefore_eq_none_iff.1 within limit limited

/-- Under a limit, steps are started under numbers within it, each under one of its own. -/
theorem Numbered.started (h : Numbered launch.config state held lost) {limit : Nat}
    (limited : launch.config.maxSteps = some limit) :
    state.shared.numbers.Nodup ∧ ∀ number ∈ state.shared.numbers, 1 ≤ number ∧ number ≤ limit := by
  obtain ⟨distinct, drawn⟩ := h.drawn
  refine ⟨(List.nodup_append.1 distinct).1, fun number mem => ?_⟩
  have within := h.within number (List.mem_append_left _ mem)
  exact ⟨(drawn number (List.mem_append_left _ mem)).1, Config.limitBefore_eq_none_iff.1 within limit limited⟩

theorem length_numbers_le {limit : Nat} (limited : launch.config.maxSteps = some limit) {schedule : List Move}
    (moved : (RunState.start launch).moves launch schedule = some state) : state.shared.numbers.length ≤ limit := by
  obtain ⟨held, lost, numbered⟩ := moves_numbered moved
  obtain ⟨apart, allowed⟩ := numbered.started limited
  have among : state.shared.numbers ⊆ List.range' 1 limit := by
    intro number mem
    have within := allowed number mem
    rw [List.mem_range'_1]
    omega
  simpa using (apart.subperm among).length_le

/-- **Under a limit.** However its branches are interleaved, and whatever their steps do, a run with a limit starts no
more steps than it allows, each under a number of its own that lies within it; and a run that succeeds has as many steps
as were started, one under each of their numbers. -/
theorem step_limit_bounds {launch : Launch} {limit : Nat} (limited : launch.config.maxSteps = some limit)
    {schedule : List Move} {state : RunState} (moved : (RunState.start launch).moves launch schedule = some state) :
    state.shared.numbers.length ≤ limit ∧ state.shared.numbers.Nodup ∧
    (∀ number ∈ state.shared.numbers, 1 ≤ number ∧ number ≤ limit) ∧
    ∀ outcome, state.conclusion? launch = some (.succeeded outcome) →
      outcome.steps ≤ limit ∧ outcome.steps = state.shared.numbers.length ∧
        state.shared.numbers.Perm (List.range' 1 outcome.steps) := by
  obtain ⟨held, lost, numbered⟩ := moves_numbered moved
  obtain ⟨apart, allowed⟩ := numbered.started limited
  have few := length_numbers_le limited moved
  refine ⟨few, apart, allowed, fun outcome concluded => ?_⟩
  obtain ⟨-, perm⟩ := numbered.succeeded concluded
  have steps : outcome.steps = state.shared.numbers.length := by simpa using perm.length_eq.symm
  exact ⟨steps ▸ few, steps, perm⟩

end

/-- the run of the uneven steps under a limit that they just keep to -/
def tightLaunch : Launch :=
  { unevenLaunch with config := { maxSteps := some 3 } }

theorem step_limit_bounds_tight :
    tightLaunch.config.maxSteps = some 3 ∧
    ∃ state outcome, (RunState.start tightLaunch).moves tightLaunch (unevenSchedule 11) = some state ∧
      state.conclusion? tightLaunch = some (.succeeded outcome) ∧ outcome.steps = 3 ∧
      state.shared.numbers.length = 3 ∧ state.shared.numbers.Perm (List.range' 1 3) := by
  obtain ⟨state, outcome, moved, concluded, steps⟩ : ∃ state outcome,
      (RunState.start tightLaunch).moves tightLaunch (unevenSchedule 11) = some state ∧
      state.conclusion? tightLaunch = some (.succeeded outcome) ∧ outcome.steps = 3 := ⟨_, _, rfl, rfl, rfl⟩
  obtain ⟨-, -, -, succeeds⟩ := step_limit_bounds (show tightLaunch.config.maxSteps = some 3 from rfl) moved
  obtain ⟨-, started, numbered⟩ := succeeds outcome concluded
  exact ⟨rfl, state, outcome, moved, concluded, steps, started ▸ steps, steps ▸ numbered⟩

end StepFlow
