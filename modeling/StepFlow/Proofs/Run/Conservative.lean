/-
Value checks are conservative.

The argument runs over two runs of the same launch, one that checks values against their declared types and one that does
not. A run that succeeds shows, from its end, what was before it at the start; what was before the other run is compared
with that, node by node and branch by branch. A check that finds nothing changes nothing. One that finds something ends a
branch where the other run went on, so that fewer steps are taken and fewer outputs reached, and nothing else is lost.
Results:
- `conserved_join`: what holds of every branch of a fan-out holds of the fan-out;
- `visits_conserved`: what is before a walk with the checks switched, if it is outputs with them as they are;
- `value_checks_conservative`: checks leave a successful run as it is, or make it fail with violations alone.
-/
import Mathlib.Data.List.Forall2
import StepFlow.Proofs.Run.Course
import StepFlow.Proofs.Run.Hindsight

namespace StepFlow

def Launch.checking (launch : Launch) (checks : Bool) : Launch :=
  { launch with config := launch.config.withValueChecks checks }

def Failure.isTypeViolation : Failure → Bool
  | .typeViolation _ _ _ _ => true
  | _ => false

/-- a failure that value checks alone account for: at its bottom are violations and nothing else, and the outputs beside
them are among those reached without checks, in the same order -/
structure Failure.Withholds (failure : Failure) (outputs : List Output) : Prop where
  nonempty : failure.singles ≠ []
  violations : ∀ leaf ∈ failure.singles, leaf.isTypeViolation = true
  kept : failure.partialOutputs.Sublist outputs

/-- how a walk that ends with these outputs after so many steps may end with checks on or off -/
inductive Conserved (checks : Bool) (outputs : List Output) (steps : Nat) : Tally → Prop where
  | same : Conserved checks outputs steps ⟨steps, .outputs outputs⟩
  | withheld {fewer : Nat} {failure : Failure} : checks = true → fewer ≤ steps → failure.Withholds outputs →
      Conserved checks outputs steps ⟨fewer, .failed failure⟩

theorem withholds_violation {config : Config} {node : Node} {port : Port} {value : Value} {failure : Failure}
    (h : config.violation node port value = some failure) (outputs : List Output) :
    config.checkValues = true ∧ failure.Withholds outputs := by
  simp only [Config.violation, Option.ite_none_right_eq_some, Bool.and_eq_true] at h
  obtain ⟨⟨checks, -⟩, same⟩ := h
  cases same
  exact ⟨checks, by simp [Failure.singles], by simp [Failure.singles, Failure.isTypeViolation], List.nil_sublist _⟩

theorem Conserved.counted {checks : Bool} {outputs : List Output} {steps : Nat} {tally : Tally}
    (h : Conserved checks outputs steps tally) : Conserved checks outputs (steps + 1) ⟨tally.steps + 1, tally.ending⟩ := by
  cases h with
  | same => exact .same
  | withheld checks few withholds => exact .withheld checks (Nat.succ_le_succ few) withholds

/-! ## Fan-outs -/

/-- a branch that ends with outputs, and how it ends with checks on or off -/
def BranchConserved (checks : Bool) (outlook : Outlook) (tally : Tally) : Prop :=
  ∃ outputs, outlook.ending = .outputs outputs ∧ Conserved checks outputs outlook.steps tally

/-- the results of branches, as the fan-out to these targets gathers them -/
abbrev Sequential.results (targets : List NodeId) (endings : List Ending) : List BranchResult :=
  List.zipWith Sequential.branchResult targets endings

/-- what the branches of a fan-out hand in, with checks on or off -/
structure Gathered (checks : Bool) (targets : List NodeId) (outlooks : List Outlook) (tallies : List Tally) : Prop where
  steps : (tallies.map Tally.steps).sum ≤ (outlooks.map Outlook.steps).sum
  kept : ((Sequential.results targets (tallies.map Tally.ending)).flatMap Gather.contributed).Sublist
    ((Sequential.results targets (outlooks.map Outlook.ending)).flatMap Gather.contributed)
  failures : ∀ failure ∈ (Sequential.results targets (tallies.map Tally.ending)).filterMap Gather.failure?,
    checks = true ∧ failure.singles ≠ [] ∧ ∀ leaf ∈ failure.singles, leaf.isTypeViolation = true
  same : (Sequential.results targets (tallies.map Tally.ending)).filterMap Gather.failure? = [] →
    (tallies.map Tally.steps).sum = (outlooks.map Outlook.steps).sum ∧
      tallies.map Tally.ending = outlooks.map Outlook.ending

theorem gathered_of_branches {checks : Bool} {outlooks : List Outlook} {tallies : List Tally}
    (h : List.Forall₂ (BranchConserved checks) outlooks tallies) :
    ∀ targets : List NodeId, targets.length = outlooks.length → Gathered checks targets outlooks tallies := by
  induction h with
  | nil =>
    intro targets _
    exact ⟨Nat.le_refl _, by simp [Sequential.results], by simp [Sequential.results], fun _ => ⟨rfl, rfl⟩⟩
  | @cons outlook tally outlooks tallies first _ ih =>
    intro targets length
    obtain ⟨target, rest, rfl⟩ := List.exists_cons_of_length_eq_add_one length
    obtain ⟨steps, kept, failures, same⟩ := ih rest (by simpa using length)
    obtain ⟨outputs, reached, conserved⟩ := first
    cases conserved with
    | same =>
      refine ⟨?_, ?_, ?_, ?_⟩
      · simpa using steps
      · simpa [Sequential.results, reached, Sequential.branchResult, Gather.contributed] using kept
      · simpa [Sequential.results, Sequential.branchResult, Gather.failure?] using failures
      · simpa [Sequential.results, reached, Sequential.branchResult, Gather.failure?] using same
    | @withheld fewer failure checks few withholds =>
      refine ⟨?_, ?_, ?_, ?_⟩
      · simpa using Nat.add_le_add few steps
      · simpa [Sequential.results, reached, Sequential.branchResult, Gather.contributed] using withholds.kept.append kept
      · intro inner mem
        rw [List.map_cons, Sequential.results, List.zipWith_cons_cons, List.filterMap_cons] at mem
        rcases List.mem_cons.1 mem with rfl | mem
        · exact ⟨checks, withholds.nonempty, withholds.violations⟩
        · exact failures inner mem
      · intro failed
        simp [Sequential.results, Sequential.branchResult, Gather.failure?] at failed

theorem exists_outputs_of_merge {source : NodeId} {targets : List NodeId} {endings : List Ending} {outputs : List Output}
    (length : targets.length = endings.length)
    (merged : Gather.merge source (Sequential.results targets endings) = .outputs outputs) {slot : Nat} {ending : Ending}
    (there : endings[slot]? = some ending) : ∃ reached, ending = .outputs reached := by
  have lt : slot < targets.length := length ▸ (List.getElem?_eq_some_iff.1 there).1
  have handed : Sequential.branchResult targets[slot] ending ∈ Sequential.results targets endings := by
    refine List.mem_iff_getElem?.2 ⟨slot, ?_⟩
    rw [Sequential.results, List.getElem?_zipWith, List.getElem?_eq_getElem lt, there]
  have succeeded := List.filterMap_eq_nil_iff.1 (merge_eq_outputs merged).1 _ handed
  cases ending with
  | outputs reached => exact ⟨reached, rfl⟩
  | failed failure => cases succeeded
  | panicked panic => cases succeeded

/-- **A fan-out is conserved if its branches are.** -/
theorem conserved_join {checks : Bool} {source : NodeId} {targets : List NodeId} {outlooks : List Outlook}
    {tallies : List Tally} {outputs : List Output} (length : targets.length = outlooks.length)
    (branches : List.Forall₂ (BranchConserved checks) outlooks tallies)
    (merged : Gather.merge source (Sequential.results targets (outlooks.map Outlook.ending)) = .outputs outputs) :
    Conserved checks outputs (outlooks.map Outlook.steps).sum
      ⟨(tallies.map Tally.steps).sum, Gather.merge source (Sequential.results targets (tallies.map Tally.ending))⟩ := by
  obtain ⟨steps, kept, failures, same⟩ := gathered_of_branches branches targets length
  rcases merge_cases source (Sequential.results targets (tallies.map Tally.ending)) with ⟨clean, -⟩ | ⟨failing, failed⟩
  · obtain ⟨even, alike⟩ := same clean
    rw [even, alike, merged]
    exact .same
  · obtain ⟨-, rfl⟩ := merge_eq_outputs merged
    obtain ⟨failure, mem⟩ := List.exists_mem_of_ne_nil _ failing
    obtain ⟨checks, bottom, -⟩ := failures failure mem
    obtain ⟨leaf, below⟩ := List.exists_mem_of_ne_nil _ bottom
    rw [failed]
    refine .withheld checks steps ⟨?_, ?_, kept⟩
    · rw [Failure.singles_parallelBranches]
      exact List.ne_nil_of_mem (List.mem_flatMap_of_mem mem below)
    · intro leaf below
      rw [Failure.singles_parallelBranches] at below
      obtain ⟨failure, mem, below⟩ := List.mem_flatMap.1 below
      exact (failures failure mem).2.2 leaf below

/-! ## Walks -/

/-- Whatever the horizon, what is before a walk that would end with these outputs is what checks on or off leave of that.
The horizon of a run is the number of its own steps, so it can be chosen only once these are known. -/
def Conserves (checks : Bool) (outputs : List Output) (steps : Nat) (before : Nat → Outlook → Prop) : Prop :=
  ∃ tally, Conserved checks outputs steps tally ∧ ∀ horizon, ∃ turns, before horizon ⟨tally.steps, turns, tally.ending⟩

section

variable {launch : Launch} {own checks : Bool} {horizon : Nat} {path : Path} {source : NodeId} {outputs : List Output}

theorem Conserves.mono {checks : Bool} {outputs : List Output} {steps : Nat} {before after : Nat → Outlook → Prop}
    (h : Conserves checks outputs steps before)
    (leads : ∀ horizon (tally : Tally) turns, before horizon ⟨tally.steps, turns, tally.ending⟩ →
      ∃ later, after horizon ⟨tally.steps, later, tally.ending⟩) : Conserves checks outputs steps after := by
  obtain ⟨tally, conserved, again⟩ := h
  refine ⟨tally, conserved, fun horizon => ?_⟩
  obtain ⟨turns, known⟩ := again horizon
  exact leads horizon tally turns known

theorem takes_split {value : Value} {fired : List (Nat × Advancer)} {tallies : List Tally}
    (length : tallies.length = fired.length)
    (each : ∀ (slot : Nat) one tally, fired[slot]? = some one → tallies[slot]? = some tally → ∃ turns,
      Takes launch horizon (path ++ [one.1]) source (launch.graph.along source one.2 value)
        ⟨tally.steps, turns, tally.ending⟩) :
    ∃ turns, Takes launch horizon path source (.split value fired) ⟨(tallies.map Tally.steps).sum, turns,
      Gather.merge source (Sequential.results (fired.map fun one => one.2.target) (tallies.map Tally.ending))⟩ := by
  have chosen : ∀ slot < tallies.length, ∃ outlook : Outlook,
      (∀ tally, tallies[slot]? = some tally → outlook.steps = tally.steps ∧ outlook.ending = tally.ending) ∧
      ∀ one, fired[slot]? = some one →
        Takes launch horizon (path ++ [one.1]) source (launch.graph.along source one.2 value) outlook := by
    intro slot lt
    have inFired : slot < fired.length := length ▸ lt
    have fires : fired[slot]? = some fired[slot] := List.getElem?_eq_getElem inFired
    obtain ⟨turns, takes⟩ := each slot _ _ fires (List.getElem?_eq_getElem lt)
    refine ⟨⟨tallies[slot].steps, turns, tallies[slot].ending⟩, fun tally indexed => ?_, fun one indexed => ?_⟩
    · obtain rfl := Option.some.inj ((List.getElem?_eq_getElem lt).symm.trans indexed)
      exact ⟨rfl, rfl⟩
    · obtain rfl := Option.some.inj (fires.symm.trans indexed)
      exact takes
  obtain ⟨outlooks, listed, agree⟩ := exists_list chosen
  have steps : outlooks.map Outlook.steps = tallies.map Tally.steps :=
    map_eq_map_of_slots listed fun slot outlook tally aim indexed => ((agree slot outlook aim).1 tally indexed).1
  have endings : outlooks.map Outlook.ending = tallies.map Tally.ending :=
    map_eq_map_of_slots listed fun slot outlook tally aim indexed => ((agree slot outlook aim).1 tally indexed).2
  have takes : Takes launch horizon path source (.split value fired) (.join source
      (fired.map fun one => one.2.target) fired.length (outlooks.map fun outlook => outlook.after 1)) :=
    .split (listed.trans length) fun slot one outlook fires aim => (agree slot outlook aim).2 one fires
  simp only [Outlook.join, List.map_map] at takes
  exact ⟨_, steps ▸ endings ▸ takes⟩

/-- **A fan-out that will end with outputs has them before it with the checks switched**, but for what the checks withhold
from its branches. -/
theorem split_conserved {value : Value} {fired : List (Nat × Advancer)} {outlooks : List Outlook}
    (length : outlooks.length = fired.length)
    (each : ∀ (slot : Nat) one outlook, fired[slot]? = some one → outlooks[slot]? = some outlook →
      ∀ outputs, outlook.ending = .outputs outputs → Conserves checks outputs outlook.steps fun horizon =>
        Takes (launch.checking checks) horizon (path ++ [one.1]) source (launch.graph.along source one.2 value))
    (merged : Gather.merge source (Sequential.results (fired.map fun one => one.2.target)
      (outlooks.map Outlook.ending)) = .outputs outputs) :
    Conserves checks outputs (outlooks.map Outlook.steps).sum fun horizon =>
      Takes (launch.checking checks) horizon path source (.split value fired) := by
  have chosen : ∀ slot < outlooks.length, ∃ tally : Tally,
      (∀ outlook, outlooks[slot]? = some outlook → BranchConserved checks outlook tally) ∧
      ∀ one, fired[slot]? = some one → ∀ horizon, ∃ turns, Takes (launch.checking checks) horizon (path ++ [one.1])
        source (launch.graph.along source one.2 value) ⟨tally.steps, turns, tally.ending⟩ := by
    intro slot lt
    have aim : outlooks[slot]? = some outlooks[slot] := List.getElem?_eq_getElem lt
    have inFired : slot < fired.length := length ▸ lt
    have fires : fired[slot]? = some fired[slot] := List.getElem?_eq_getElem inFired
    obtain ⟨reached, ends⟩ := exists_outputs_of_merge (by simp [length]) merged
      (show (outlooks.map Outlook.ending)[slot]? = some _ by rw [List.getElem?_map, aim]; rfl)
    obtain ⟨tally, conserved, again⟩ := each slot _ _ fires aim reached ends
    refine ⟨tally, fun outlook indexed => ?_, fun one indexed => ?_⟩
    · obtain rfl := Option.some.inj (aim.symm.trans indexed)
      exact ⟨reached, ends, conserved⟩
    · obtain rfl := Option.some.inj (fires.symm.trans indexed)
      exact again
  obtain ⟨tallies, listed, agree⟩ := exists_list chosen
  have branches : List.Forall₂ (BranchConserved checks) outlooks tallies := by
    refine List.forall₂_iff_get.2 ⟨listed.symm, fun slot lt inTallies => ?_⟩
    exact (agree slot _ (List.getElem?_eq_getElem inTallies)).1 _ (List.getElem?_eq_getElem lt)
  refine ⟨_, conserved_join (by simp [length]) branches merged, fun horizon => ?_⟩
  exact takes_split (listed.trans length) fun slot one tally fires indexed => (agree slot tally indexed).2 one fires horizon

/-- The answer to a step is the same with the checks switched, unless the value violates its type for one of the two. -/
theorem respond_checking (launch : Launch) (own checks : Bool) (node : Node) (path : Path) (completion : Completion) :
    (launch.checking checks).respond node path completion = (launch.checking own).respond node path completion ∨
    (∃ failure, (launch.checking own).respond node path completion = .stop (.failed failure)) ∨
    ∃ output failure, (launch.checking checks).config.violation node .output output = some failure ∧
      (launch.checking checks).respond node path completion = .stop (.failed failure) := by
  cases completion with
  | panicked panic => exact .inl rfl
  | failed error => exact .inl rfl
  | value output =>
    cases plain : (launch.checking own).config.violation node .output output with
    | some failure => exact .inr (.inl ⟨failure, by simp only [Launch.respond, plain]⟩)
    | none =>
      cases checked : (launch.checking checks).config.violation node .output output with
      | some failure => exact .inr (.inr ⟨output, failure, checked, by simp only [Launch.respond, checked]⟩)
      | none => exact .inl (by simp only [Launch.respond, plain, checked]; rfl)

/-- Where the route of an answer is conserved, so is that of the answer with the checks switched. -/
theorem respond_conserved {node : Node} {completion : Completion} {outlook : Outlook}
    (takes : Takes (launch.checking own) horizon path source ((launch.checking own).respond node path completion) outlook)
    (reached : outlook.ending = .outputs outputs)
    (conserves : Conserves checks outputs outlook.steps fun horizon =>
      Takes (launch.checking checks) horizon path source ((launch.checking own).respond node path completion)) :
    Conserves checks outputs outlook.steps fun horizon =>
      Takes (launch.checking checks) horizon path source ((launch.checking checks).respond node path completion) := by
  rcases respond_checking launch own checks node path completion with same | ⟨failure, stops⟩ |
    ⟨output, failure, violates, stops⟩
  · rw [same]
    exact conserves
  · rw [stops] at takes
    cases takes
    cases reached
  · obtain ⟨on, withholds⟩ := withholds_violation violates outputs
    rw [stops]
    exact ⟨⟨0, .failed failure⟩, .withheld on (Nat.zero_le _) withholds, fun horizon => ⟨0, .stop⟩⟩

/-- An attempt whose answer is conserved is conserved itself: it draws one number, and its value may violate the type of
the input. -/
theorem attempt_conserved {node : Node} {value : Value} {completion : Completion} {steps : Nat}
    (completes : ∀ number, (node.step.run value ⟨node.id, number, path⟩).undisturbed = some completion)
    (conserves : Conserves checks outputs steps fun horizon =>
      Takes (launch.checking checks) horizon path node.id ((launch.checking checks).respond node path completion)) :
    Conserves checks outputs (steps + 1) fun horizon =>
      Attempts (launch.checking checks) horizon path node value := by
  cases violates : (launch.checking checks).config.violation node .input value with
  | some failure =>
    obtain ⟨on, withholds⟩ := withholds_violation violates outputs
    exact ⟨⟨1, .failed failure⟩, .withheld on (by simp) withholds, fun horizon => ⟨1, .refused violates⟩⟩
  | none =>
    obtain ⟨tally, conserved, again⟩ := conserves
    refine ⟨⟨tally.steps + 1, tally.ending⟩, conserved.counted, fun horizon => ?_⟩
    obtain ⟨turns, takes⟩ := again horizon
    have attempts : Attempts (launch.checking checks) horizon path node value
        { Outlook.after ⟨tally.steps, turns, tally.ending⟩ (node.step.span node.id path value horizon + 2) with
          steps := tally.steps + 1 } := .stepped violates completes takes
    exact ⟨_, attempts⟩

/-- **A walk that will end with outputs has them before it with the checks switched**, but for what the checks withhold. -/
theorem visits_conserved {target : NodeId} {value : Value} {outlook : Outlook}
    (h : Visits (launch.checking own) horizon path target value outlook) (reached : outlook.ending = .outputs outputs) :
    Conserves checks outputs outlook.steps fun horizon =>
      Visits (launch.checking checks) horizon path target value := by
  revert outputs
  -- by induction on all three kinds of outlook at once; checks play a part only where a step is attempted
  refine @Visits.rec (launch.checking own) horizon
    (fun path target value outlook _ => ∀ {outputs}, outlook.ending = .outputs outputs →
      Conserves checks outputs outlook.steps fun horizon => Visits (launch.checking checks) horizon path target value)
    (fun path node value outlook _ => ∀ {outputs}, outlook.ending = .outputs outputs →
      Conserves checks outputs outlook.steps fun horizon => Attempts (launch.checking checks) horizon path node value)
    (fun path source route outlook _ => ∀ {outputs}, outlook.ending = .outputs outputs →
      Conserves checks outputs outlook.steps fun horizon => Takes (launch.checking checks) horizon path source route)
    ?stray ?found ?refused ?stepped ?stop ?move ?split path target value outlook h
  case stray =>
    intro path target value _ outputs reached
    cases reached
  case found =>
    intro path target value node outlook there _ ih outputs reached
    refine (ih reached).mono fun horizon tally turns attempts => ?_
    have visits : Visits (launch.checking checks) horizon path target value
        (Outlook.after ⟨tally.steps, turns, tally.ending⟩ 1) := .found there attempts
    exact ⟨_, visits⟩
  case refused =>
    intro path node value failure _ outputs reached
    cases reached
  case stepped =>
    intro path node value completion outlook _ completes takes ih outputs reached
    exact attempt_conserved completes (respond_conserved takes reached (ih reached))
  case stop =>
    intro path source ending outputs reached
    simp only at reached
    subst reached
    exact ⟨⟨0, .outputs outputs⟩, .same, fun horizon => ⟨0, .stop⟩⟩
  case move =>
    intro path source advancer delivered outlook _ ih outputs reached
    exact (ih reached).mono fun horizon tally turns visits => ⟨turns, .move visits⟩
  case split =>
    intro path source value fired outlooks length _ ih outputs reached
    simp only [Outlook.join, List.map_map] at reached ⊢
    exact split_conserved length (fun slot one outlook fires aim outputs => ih slot one outlook fires aim) reached

/-! ## Runs -/

theorem foreseen_conserved {steps : Nat} {outlook : Outlook}
    (h : Foreseen (launch.checking own) ⟨steps, .outputs outputs⟩ (RunState.start (launch.checking own)) outlook)
    (checks : Bool) : ∃ tally next, Conserved checks outputs steps tally ∧
      Foreseen (launch.checking checks) tally (RunState.start (launch.checking checks)) next := by
  obtain ⟨heads, reached, drawn, -⟩ := h
  cases designated : launch.graph.entry with
  | none =>
    have same : (RunState.start (launch.checking own)).walk = .ended (.failed .noEntry) := by
      simp only [RunState.start, Launch.checking, designated]
    rw [same] at heads
    cases heads
    cases reached
  | some entry =>
    have same : ∀ checks, (RunState.start (launch.checking checks)).walk = .arriving entry launch.input := by
      intro checks
      simp only [RunState.start, Launch.checking, designated]
    rw [same own] at heads
    cases heads with
    | arriving visits =>
      obtain ⟨tally, conserved, again⟩ := visits_conserved visits reached
      obtain ⟨turns, visits⟩ := again tally.steps
      have all : outlook.steps = steps := (Nat.zero_add _).symm.trans drawn
      refine ⟨tally, ⟨tally.steps, turns, tally.ending⟩, all ▸ conserved, ?_, rfl, Nat.zero_add _, ?_⟩
      · rw [same checks]
        exact .arriving visits
      · exact @moves_tidy (launch.checking checks) [] _ rfl

/-- **A successful run with the checks switched** succeeds with the same outputs and steps, but for what the checks
withhold. -/
theorem settles_conserved (blind : launch.graph.StepBlind) {schedule : List Move} {state : RunState} {outcome : Outcome}
    (moved : (RunState.start (launch.checking own)).moves (launch.checking own) schedule = some state)
    (live : state.shared.cancelled = [])
    (concluded : state.conclusion? (launch.checking own) = some (.succeeded outcome)) (checks : Bool) :
    (launch.checking checks).Settles fun other => other = .succeeded outcome ∨
      checks = true ∧ ∃ failure, other = .failed failure ∧ failure.Withholds outcome.outputs := by
  obtain ⟨held, lost, numbered⟩ := moves_numbered moved
  have kept : ∀ bound, launch.config.maxSteps = some bound → state.shared.drawn ≤ bound :=
    fun bound limited => numbered.drawn_le concluded limited
  obtain ⟨ending, ended, same⟩ := RunState.conclusion?_eq_some concluded
  cases ending with
  | failed failure => cases same
  | panicked panic => cases same
  | outputs outputs =>
    cases same
    obtain ⟨outlook, before⟩ : ∃ outlook, Foreseen (launch.checking own) ⟨state.shared.drawn, .outputs outputs⟩
        (RunState.start (launch.checking own)) outlook :=
      @start_hindsight_within (launch.checking own) launch.config.maxSteps blind launch.config.maxSteps schedule state _
        moved live kept ended
    obtain ⟨tally, next, conserved, start⟩ := foreseen_conserved before checks
    refine start.settles fun schedule state _ _ last known conclusion concluded => ?_
    -- the run with the checks switched takes no more steps, so that it keeps to the same limit
    rcases known with foreseen | curtailed
    · rw [foreseen.conclusion concluded]
      cases conserved with
      | same => exact .inl rfl
      | withheld on _ withholds => exact .inr ⟨on, _, rfl, withholds⟩
    · refine absurd (fun limit limited => Nat.le_trans ?_ (kept limit limited)) curtailed.not_roomy
      cases conserved with
      | same => exact Nat.le_refl _
      | withheld _ few _ => exact few

end

/-- **Value checks are conservative.** Let the steps of a launch be blind to their numbers, and let no token be cancelled.
If some interleaving succeeds with value checks, every interleaving without them succeeds with the same outputs and the
same number of steps. If some interleaving succeeds without value checks, every interleaving with them either succeeds
with the same, or fails for violations of declared types alone, beside outputs that are among those reached without
checks, in the same order. -/
theorem value_checks_conservative {launch : Launch} (blind : launch.graph.StepBlind) :
    (∀ schedule state outcome,
      (RunState.start (launch.checking true)).moves (launch.checking true) schedule = some state →
      state.shared.cancelled = [] → state.conclusion? (launch.checking true) = some (.succeeded outcome) →
      (launch.checking false).Settles fun other => other = .succeeded outcome) ∧
    ∀ schedule state outcome,
      (RunState.start (launch.checking false)).moves (launch.checking false) schedule = some state →
      state.shared.cancelled = [] → state.conclusion? (launch.checking false) = some (.succeeded outcome) →
      (launch.checking true).Settles fun other => other = .succeeded outcome ∨
        ∃ failure, other = .failed failure ∧ failure.Withholds outcome.outputs := by
  constructor
  · intro schedule state outcome moved live concluded
    refine (settles_conserved blind moved live concluded false).mono fun other known => ?_
    rcases known with same | ⟨off, -⟩
    · exact same
    · cases off
  · intro schedule state outcome moved live concluded
    refine (settles_conserved blind moved live concluded true).mono fun other known => ?_
    rcases known with same | ⟨-, withheld⟩
    · exact .inl same
    · exact .inr withheld

/-- The first branch is handed a value of another type than its node declares. -/
def mistypedLaunch : Launch :=
  splitLaunch (.identity .int64) (.identity .string) (.identity .int64)

theorem stepBlind_mistyped : mistypedLaunch.graph.StepBlind := by
  intro node mem value branch number other
  simp only [mistypedLaunch, splitLaunch, List.mem_cons, List.not_mem_nil, or_false] at mem
  rcases mem with rfl | rfl | rfl <;> rfl

/-- The branches go one after the other; the first one has so many actions. -/
def mistypedSchedule (actions : Nat) : List Move :=
  List.replicate 4 (.turn .act) ++ List.replicate actions (.turn (.within 0 .act)) ++
    List.replicate 5 (.turn (.within 1 .act)) ++ [.turn (.receive 0), .turn (.receive 1), .turn .act]

theorem value_checks_conservative_mistyped :
    (unevenLaunch.graph.StepBlind ∧ ∃ state outcome,
      (RunState.start (unevenLaunch.checking true)).moves (unevenLaunch.checking true) (unevenSchedule 11) = some state ∧
      state.shared.cancelled = [] ∧ state.conclusion? (unevenLaunch.checking true) = some (.succeeded outcome) ∧
      outcome.steps = 3 ∧ (unevenLaunch.checking false).Settles fun other => other = .succeeded outcome) ∧
    mistypedLaunch.graph.StepBlind ∧ ∃ state outcome checked failure,
      (RunState.start (mistypedLaunch.checking false)).moves (mistypedLaunch.checking false) (mistypedSchedule 5) =
        some state ∧
      state.shared.cancelled = [] ∧ state.conclusion? (mistypedLaunch.checking false) = some (.succeeded outcome) ∧
      outcome.outputs = [⟨⟨"b"⟩, .int 7, [0]⟩, ⟨⟨"c"⟩, .int 7, [1]⟩] ∧
      (RunState.start (mistypedLaunch.checking true)).moves (mistypedLaunch.checking true) (mistypedSchedule 3) =
        some checked ∧
      checked.conclusion? (mistypedLaunch.checking true) = some (.failed failure) ∧
      failure.partialOutputs = [⟨⟨"c"⟩, .int 7, [1]⟩] ∧ failure.Withholds outcome.outputs := by
  obtain ⟨state, outcome, moved, live, concluded, steps⟩ : ∃ state outcome,
      (RunState.start (unevenLaunch.checking true)).moves (unevenLaunch.checking true) (unevenSchedule 11) = some state ∧
      state.shared.cancelled = [] ∧ state.conclusion? (unevenLaunch.checking true) = some (.succeeded outcome) ∧
      outcome.steps = 3 := ⟨_, _, rfl, rfl, rfl, rfl⟩
  refine ⟨⟨stepBlind_uneven, state, outcome, moved, live, concluded, steps,
    (value_checks_conservative stepBlind_uneven).1 _ state outcome moved live concluded⟩, stepBlind_mistyped, ?_⟩
  obtain ⟨state, outcome, moved, live, concluded, outputs⟩ : ∃ state outcome,
      (RunState.start (mistypedLaunch.checking false)).moves (mistypedLaunch.checking false) (mistypedSchedule 5) =
        some state ∧
      state.shared.cancelled = [] ∧ state.conclusion? (mistypedLaunch.checking false) = some (.succeeded outcome) ∧
      outcome.outputs = [⟨⟨"b"⟩, .int 7, [0]⟩, ⟨⟨"c"⟩, .int 7, [1]⟩] := ⟨_, _, rfl, rfl, rfl, rfl⟩
  obtain ⟨checked, failure, went, calm, failed, kept⟩ : ∃ checked failure,
      (RunState.start (mistypedLaunch.checking true)).moves (mistypedLaunch.checking true) (mistypedSchedule 3) =
        some checked ∧
      checked.shared.cancelled = [] ∧ checked.conclusion? (mistypedLaunch.checking true) = some (.failed failure) ∧
      failure.partialOutputs = [⟨⟨"c"⟩, .int 7, [1]⟩] := ⟨_, _, rfl, rfl, rfl, rfl⟩
  have settles := (value_checks_conservative stepBlind_mistyped).2 _ state outcome moved live concluded
  have withholds : failure.Withholds outcome.outputs := by
    rcases (settles.1 _ checked went calm).1 _ failed with same | ⟨other, same, withholds⟩
    · cases same
    · cases same
      exact withholds
  exact ⟨state, outcome, checked, failure, moved, live, concluded, outputs, went, failed, kept, withholds⟩

end StepFlow
