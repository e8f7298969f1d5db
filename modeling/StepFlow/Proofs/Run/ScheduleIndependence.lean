/-
Schedule independence.

The sequential evaluation of a graph settles the outlook of a run from its start, and every turn keeps to an outlook.
So, as long as no token is cancelled and the limit is not below the number of steps of that evaluation, it does not
matter how branches are interleaved or in which order they are received:
- `outlook_of_evaluation`: what the sequential evaluation finds is the outlook of a walk;
- `moves_foreseen`: a run of any length keeps to the outlook it starts with, as long as it keeps to its limit;
- `run_eq_sequential`: no run without cancellation concludes otherwise than the evaluation, none is stuck before it
  concludes, and none goes on for ever.
-/
import StepFlow.Proofs.Run.Outlook

namespace StepFlow

/-- Every step ends the same way whatever its number; it may depend on its input, its node and its branch. -/
def Orchestration.StepBlind (graph : Orchestration) : Prop :=
  ∀ node ∈ graph.nodes, ∀ value branch number other,
    (node.step.run value ⟨node.id, number, branch⟩).undisturbed =
      (node.step.run value ⟨node.id, other, branch⟩).undisturbed

/-- the conclusion of a run that goes as an evaluation does -/
def Tally.conclusion (launch : Launch) (tally : Tally) : Conclusion :=
  tally.ending.conclusion launch tally.steps

/-! ## The sequential evaluation -/

namespace Sequential

/-- If every single evaluation has an outlook, so has the evaluation of branches one after another. -/
theorem outlooks_of_branches {visit : Nat → Nat × Advancer → Option Tally} {T : Nat × Advancer → Outlook → Prop}
    {fired : List (Nat × Advancer)}
    (single : ∀ one ∈ fired, ∀ steps tally, visit steps one = some tally →
      ∃ outlook, T one outlook ∧ tally = ⟨steps + outlook.steps, outlook.ending⟩)
    {steps : Nat} {joined : Nat × List BranchResult} (h : branches visit steps fired = some joined) :
    ∃ outlooks : List Outlook, outlooks.length = fired.length ∧
      (∀ (slot : Nat) one outlook, fired[slot]? = some one → outlooks[slot]? = some outlook → T one outlook) ∧
      joined.1 = steps + (outlooks.map Outlook.steps).sum ∧
      joined.2 = List.zipWith branchResult (fired.map fun one => one.2.target) (outlooks.map Outlook.ending) := by
  induction fired generalizing steps joined with
  | nil =>
    cases h
    exact ⟨[], rfl, by simp, rfl, rfl⟩
  | cons first rest ih =>
    simp only [branches, Option.bind_eq_bind, Option.bind_eq_some_iff] at h
    obtain ⟨tally, evaluated, others, went, same⟩ := h
    cases same
    obtain ⟨outlook, settles, rfl⟩ := single first List.mem_cons_self steps tally evaluated
    obtain ⟨outlooks, length, each, total, results⟩ :=
      ih (fun one mem => single one (List.mem_cons_of_mem _ mem)) went
    refine ⟨outlook :: outlooks, by simp [length], fun slot one other indexed aim => ?_, ?_, ?_⟩
    · cases slot with
      | zero =>
        obtain rfl : first = one := by simpa using indexed
        obtain rfl : outlook = other := by simpa using aim
        exact settles
      | succ slot => exact each slot one other (by simpa using indexed) (by simpa using aim)
    · simp only [total, List.map_cons, List.sum_cons]
      omega
    · simp only [results, List.map_cons, List.zipWith_cons_cons]

section

variable {launch : Launch} {horizon fuel : Nat}

/-- what the evaluation of routes finds with some fuel is an outlook -/
def FollowsOutlook (launch : Launch) (horizon fuel : Nat) : Prop :=
  ∀ steps path source route tally, follow launch fuel steps path source route = some tally →
    ∃ outlook, Takes launch horizon path source route outlook ∧ tally = ⟨steps + outlook.steps, outlook.ending⟩

def WalksOutlook (launch : Launch) (horizon fuel : Nat) : Prop :=
  ∀ steps path target value tally, walk launch fuel steps path target value = some tally →
    ∃ outlook, Visits launch horizon path target value outlook ∧ tally = ⟨steps + outlook.steps, outlook.ending⟩

/-- An evaluation draws its own step numbers; as steps are blind to them, what it finds holds for any others. -/
theorem walksOutlook_succ (blind : launch.graph.StepBlind) (follows : FollowsOutlook launch horizon fuel) :
    WalksOutlook launch horizon (fuel + 1) := by
  intro steps path target value tally h
  rw [walk] at h
  cases there : launch.graph.node? target with
  | none =>
    simp only [there] at h
    cases h
    exact ⟨_, .stray there, rfl⟩
  | some node =>
    simp only [there] at h
    cases violates : launch.config.violation node .input value with
    | some failure =>
      simp only [violates] at h
      cases h
      exact ⟨_, .found there (.refused violates), rfl⟩
    | none =>
      simp only [violates, Option.bind_eq_bind, Option.bind_eq_some_iff] at h
      obtain ⟨completion, completes, went⟩ := h
      obtain ⟨outlook, takes, rfl⟩ := follows _ _ _ _ _ went
      have always : ∀ number, (node.step.run value ⟨node.id, number, path⟩).undisturbed = some completion :=
        fun number => (blind node (Orchestration.mem_nodes_of_node? there) value path number _).trans completes
      refine ⟨_, .found there (.stepped violates always takes), ?_⟩
      simp only [Outlook.after]
      congr 1
      omega

theorem followsOutlook_succ (walks : WalksOutlook launch horizon fuel) (follows : FollowsOutlook launch horizon fuel) :
    FollowsOutlook launch horizon (fuel + 1) := by
  intro steps path source route tally h
  cases route with
  | stop ending =>
    rw [follow] at h
    cases h
    exact ⟨_, .stop, rfl⟩
  | move advancer delivered =>
    rw [follow] at h
    obtain ⟨outlook, visits, rfl⟩ := walks _ _ _ _ _ h
    exact ⟨outlook, .move visits, rfl⟩
  | split value fired =>
    simp only [follow, Option.bind_eq_bind, Option.bind_eq_some_iff] at h
    obtain ⟨joined, went, same⟩ := h
    cases same
    obtain ⟨outlooks, length, each, total, results⟩ :=
      outlooks_of_branches (fun one _ steps tally evaluated => follows _ _ _ _ _ evaluated) went
    refine ⟨_, .split length each, ?_⟩
    simp only [Outlook.join, List.map_map, total, results]
    rfl

/-- **What the sequential evaluation finds is an outlook**, whatever the horizon. -/
theorem outlook_of_evaluation (blind : launch.graph.StepBlind) (horizon fuel : Nat) :
    WalksOutlook launch horizon fuel ∧ FollowsOutlook launch horizon fuel := by
  induction fuel with
  | zero =>
    refine ⟨fun steps path target value tally h => by simp [walk] at h, fun steps path source route tally h => ?_⟩
    cases route with
    | stop ending =>
      rw [follow] at h
      cases h
      exact ⟨_, .stop, rfl⟩
    | move advancer delivered => simp [follow] at h
    | split value fired => simp [follow] at h
  | succ fuel ih => exact ⟨walksOutlook_succ blind ih.2, followsOutlook_succ ih.1 ih.2⟩

end

end Sequential

/-! ## Runs -/

/-- what is known of a run in progress: its outlook, which agrees with an evaluation, up to what has been done -/
structure Foreseen (launch : Launch) (tally : Tally) (state : RunState) (outlook : Outlook) : Prop where
  heads : Heads launch tally.steps [] state.walk outlook
  ending : outlook.ending = tally.ending
  steps : state.shared.drawn + outlook.steps = tally.steps
  tidy : Walk.Every (fun _ => Tidy launch.graph) [] state.walk

/-- what is known of a run that has gone beyond its limit: what is before it has no more steps than the evaluation -/
structure Curtailed (launch : Launch) (tally : Tally) (state : RunState) (outlook : Outlook) : Prop where
  heads : Heads launch tally.steps [] state.walk outlook
  beyond : ∃ limit, launch.config.maxSteps = some limit ∧ limit < state.shared.drawn
  steps : state.shared.drawn + outlook.steps ≤ tally.steps
  tidy : Walk.Every (fun _ => Tidy launch.graph) [] state.walk

/-- Every interleaving of a run without cancellation comes to a conclusion of some kind: it concludes with nothing else,
it can always go on until it does, and there is a bound on how long it goes on. -/
def Launch.Settles (launch : Launch) (P : Conclusion → Prop) : Prop :=
  (∀ schedule state, (RunState.start launch).moves launch schedule = some state → state.shared.cancelled = [] →
    (∀ conclusion, state.conclusion? launch = some conclusion → P conclusion) ∧
    (state.conclusion? launch = none → ∃ turn next, state.move launch (.turn turn) = some next)) ∧
  ∃ bound, ∀ schedule state, (RunState.start launch).moves launch schedule = some state →
    state.shared.cancelled = [] → schedule.length ≤ bound

theorem Launch.Settles.mono {launch : Launch} {P Q : Conclusion → Prop} (h : launch.Settles P)
    (weaker : ∀ conclusion, P conclusion → Q conclusion) : launch.Settles Q :=
  ⟨fun schedule state moved live =>
    ⟨fun conclusion concluded => weaker conclusion ((h.1 schedule state moved live).1 conclusion concluded),
      (h.1 schedule state moved live).2⟩, h.2⟩

section

variable {launch : Launch} {tally : Tally}

theorem start_foreseen (blind : launch.graph.StepBlind) {fuel : Nat}
    (evaluated : Sequential.run launch fuel = some tally) :
    ∃ outlook, Foreseen launch tally (RunState.start launch) outlook := by
  have tidy : Walk.Every (fun _ => Tidy launch.graph) [] (RunState.start launch).walk :=
    @moves_tidy launch [] _ rfl
  rw [Sequential.run] at evaluated
  cases designated : launch.graph.entry with
  | none =>
    rw [designated] at evaluated
    cases evaluated
    refine ⟨⟨0, 0, .failed .noEntry⟩, ?_, rfl, rfl, tidy⟩
    simp only [RunState.start, designated]
    exact .ended
  | some entry =>
    rw [designated] at evaluated
    obtain ⟨outlook, visits, rfl⟩ :=
      (Sequential.outlook_of_evaluation blind tally.steps fuel).1 0 [] entry launch.input tally evaluated
    refine ⟨outlook, ?_, rfl, rfl, tidy⟩
    simp only [RunState.start, designated]
    exact .arriving visits

theorem turns_foreseen {state : RunState} {outlook : Outlook} {after : Shared × Walk} (live : state.shared.cancelled = [])
    (turns : Walk.Turns launch [] state.shared state.walk after)
    (before : Foreseen launch tally state outlook ∨ Curtailed launch tally state outlook) :
    ∃ next, (Foreseen launch tally ⟨after.1, after.2⟩ next ∨ Curtailed launch tally ⟨after.1, after.2⟩ next) ∧
      next.turns < outlook.turns := by
  rcases before with ⟨heads, ending, steps, tidy⟩ | ⟨heads, ⟨limit, set, beyond⟩, steps, tidy⟩
  · obtain ⟨next, later, passes | breaks⟩ := turns_heads tidy live (Nat.le_of_eq steps) turns heads
    · exact ⟨next, Or.inl ⟨later, passes.ending.trans ending, passes.steps.trans steps, turns_tidy turns tidy⟩,
        passes.turns⟩
    · exact ⟨next, Or.inr ⟨later, breaks.beyond, Nat.le_trans breaks.steps (Nat.le_of_eq steps), turns_tidy turns tidy⟩,
        breaks.turns⟩
  · have still : limit < after.1.drawn := Nat.lt_of_lt_of_le beyond (Walk.turns_grows turns).drawn
    obtain ⟨next, later, passes | breaks⟩ := turns_heads tidy live steps turns heads
    · exact ⟨next, Or.inr ⟨later, ⟨limit, set, still⟩, Nat.le_trans (Nat.le_of_eq passes.steps) steps,
        turns_tidy turns tidy⟩, passes.turns⟩
    · exact ⟨next, Or.inr ⟨later, ⟨limit, set, still⟩, Nat.le_trans breaks.steps steps, turns_tidy turns tidy⟩,
        breaks.turns⟩

/-- **A run keeps to its outlook** until it goes beyond its limit, and its length is bounded by it even then. -/
theorem moves_foreseen {schedule : List Move} {state after : RunState} {outlook : Outlook}
    (h : state.moves launch schedule = some after) (live : after.shared.cancelled = [])
    (before : Foreseen launch tally state outlook ∨ Curtailed launch tally state outlook) :
    ∃ next, (Foreseen launch tally after next ∨ Curtailed launch tally after next) ∧
      schedule.length + next.turns ≤ outlook.turns := by
  induction schedule generalizing state outlook with
  | nil =>
    cases h
    exact ⟨outlook, before, by simp⟩
  | cons move rest ih =>
    obtain ⟨result, turns, kept, h⟩ := RunState.moves_cons_live h live
    obtain ⟨next, foreseen, fewer⟩ := turns_foreseen ((Walk.turns_grows turns).cancelled_eq_nil kept) turns before
    obtain ⟨last, reached, length⟩ := ih h foreseen
    refine ⟨last, reached, ?_⟩
    rw [List.length_cons]
    omega

/-- **A run that is foreseen from its start settles** on what its last states allow. -/
theorem Foreseen.settles {outlook : Outlook} (start : Foreseen launch tally (RunState.start launch) outlook)
    {P : Conclusion → Prop}
    (met : ∀ schedule state, (RunState.start launch).moves launch schedule = some state → state.shared.cancelled = [] →
      ∀ last, Foreseen launch tally state last ∨ Curtailed launch tally state last →
        ∀ conclusion, state.conclusion? launch = some conclusion → P conclusion) :
    launch.Settles P := by
  refine ⟨fun schedule state moved live => ?_, outlook.turns, fun schedule state moved live => ?_⟩
  · obtain ⟨last, known, -⟩ := moves_foreseen moved live (Or.inl start)
    refine ⟨met schedule state moved live last known, fun going => ?_⟩
    have unended := RunState.unended_of_conclusion? going
    have heads : Heads launch tally.steps [] state.walk last := known.elim Foreseen.heads Curtailed.heads
    obtain ⟨turn, after, taken⟩ := exists_turn heads (moves_tidy moved) unended
    exact ⟨turn, ⟨after.1, after.2⟩, by rw [RunState.move, taken]; rfl⟩
  · obtain ⟨last, -, length⟩ := moves_foreseen moved live (Or.inl start)
    exact Nat.le_trans (Nat.le_add_right _ _) length

theorem Curtailed.not_roomy {state : RunState} {outlook : Outlook} (h : Curtailed launch tally state outlook) :
    ¬ ∀ limit, launch.config.maxSteps = some limit → tally.steps ≤ limit := by
  intro roomy
  obtain ⟨limit, set, beyond⟩ := h.beyond
  have room := roomy limit set
  have steps := h.steps
  omega

theorem Foreseen.conclusion {state : RunState} {outlook : Outlook} (h : Foreseen launch tally state outlook)
    {conclusion : Conclusion} (concluded : state.conclusion? launch = some conclusion) :
    conclusion = tally.conclusion launch := by
  obtain ⟨ending, ended, rfl⟩ := RunState.conclusion?_eq_some concluded
  have heads := h.heads
  rw [ended] at heads
  cases heads
  rw [Tally.conclusion, ← h.ending, ← h.steps]
  rfl

/-- **Schedule independence.** Let the sequential evaluation of a run end within the limit. Then every interleaving of
the run without cancellation concludes as the evaluation does: with the same outputs and the same number of steps, with
the same failure and all that it includes, or with the same panic. It can always go on until it does, and there is a
bound on how long it goes on. -/
theorem run_eq_sequential (blind : launch.graph.StepBlind) {fuel : Nat}
    (evaluated : Sequential.run launch fuel = some tally)
    (roomy : ∀ limit, launch.config.maxSteps = some limit → tally.steps ≤ limit) :
    (∀ schedule state, (RunState.start launch).moves launch schedule = some state → state.shared.cancelled = [] →
      (∀ conclusion, state.conclusion? launch = some conclusion → conclusion = tally.conclusion launch) ∧
      (state.conclusion? launch = none → ∃ turn next, state.move launch (.turn turn) = some next)) ∧
    ∃ bound, ∀ schedule state, (RunState.start launch).moves launch schedule = some state →
      state.shared.cancelled = [] → schedule.length ≤ bound := by
  obtain ⟨outlook, start⟩ := start_foreseen blind evaluated
  refine start.settles fun schedule state moved live last known conclusion concluded => ?_
  rcases known with foreseen | curtailed
  · exact foreseen.conclusion concluded
  · exact absurd roomy curtailed.not_roomy

end

theorem Activity.undisturbed_pauses (times : Nat) (next : Activity) :
    (Activity.pauses times next).undisturbed = next.undisturbed := by
  induction times with
  | zero => rfl
  | succ times ih => exact ih

/-- the step that suspends itself as many times as its number says -/
def unevenStep : Step :=
  { input := .int64, output := .int64, run := fun value context => .pauses context.step (.done value) }

/-- a node that splits into two branches, each of which comes to rest at a node of its own -/
def splitLaunch (source first second : Step) : Launch :=
  { graph :=
      { nodes := [
          { id := ⟨"a"⟩, step := source, parallel := true,
            advancers := [.always (.direct ⟨"b"⟩), .always (.direct ⟨"c"⟩)] },
          { id := ⟨"b"⟩, step := first, deadEnd := true },
          { id := ⟨"c"⟩, step := second, deadEnd := true }],
        entry := some ⟨"a"⟩ }
    input := .int 7 }

def unevenLaunch : Launch :=
  splitLaunch unevenStep unevenStep unevenStep

/-- Uneven steps take different times, but they end the same way. -/
theorem stepBlind_uneven : unevenLaunch.graph.StepBlind := by
  intro node mem value branch number other
  have uneven : node.step = unevenStep := by
    simp only [unevenLaunch, splitLaunch, List.mem_cons, List.not_mem_nil, or_false] at mem
    rcases mem with rfl | rfl | rfl <;> rfl
  rw [uneven]
  exact (Activity.undisturbed_pauses number _).trans (Activity.undisturbed_pauses other _).symm

/-- The second branch goes first and is received first, so that steps get other numbers than in the evaluation; the first
branch has so many actions. -/
def unevenSchedule (actions : Nat) : List Move :=
  List.replicate 6 (.turn .act) ++ List.replicate 9 (.turn (.within 1 .act)) ++ [.turn (.receive 1)] ++
    List.replicate actions (.turn (.within 0 .act)) ++ [.turn (.receive 0), .turn .act]

theorem run_eq_sequential_uneven :
    unevenLaunch.graph.StepBlind ∧
    ∃ tally, Sequential.run unevenLaunch 5 = some tally ∧ tally.steps = 3 ∧
      (∀ limit, unevenLaunch.config.maxSteps = some limit → tally.steps ≤ limit) ∧
      ∃ state, (RunState.start unevenLaunch).moves unevenLaunch (unevenSchedule 11) = some state ∧
        state.shared.cancelled = [] ∧ state.conclusion? unevenLaunch = some (tally.conclusion unevenLaunch) := by
  have blind := stepBlind_uneven
  obtain ⟨tally, evaluated, steps⟩ : ∃ tally, Sequential.run unevenLaunch 5 = some tally ∧ tally.steps = 3 :=
    ⟨_, rfl, rfl⟩
  have roomy : ∀ limit, unevenLaunch.config.maxSteps = some limit → tally.steps ≤ limit := by
    intro limit set
    cases set
    rw [steps]
    decide
  obtain ⟨state, conclusion, moved, live, concluded⟩ : ∃ state conclusion,
      (RunState.start unevenLaunch).moves unevenLaunch (unevenSchedule 11) = some state ∧ state.shared.cancelled = [] ∧
        state.conclusion? unevenLaunch = some conclusion := ⟨_, _, rfl, rfl, rfl⟩
  have same := ((run_eq_sequential blind evaluated roomy).1 (unevenSchedule 11) state moved live).1 conclusion concluded
  exact ⟨blind, tally, evaluated, steps, roomy, state, moved, live, same ▸ concluded⟩

end StepFlow
