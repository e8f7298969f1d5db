/-
The step limit as a threshold.

Which branch meets the limit depends on how the branches are interleaved, but whether one does is settled by the number
of steps that the run attempts without a limit. The argument runs over two runs: the run without a limit gives the run
under a limit its outlook, and the run under a limit keeps to it until it has drawn more numbers than it may. From then
on the failure stays in the tree of walks, and what is left of the outlook still bounds the run. Results:
- `moves_exceeds`: a run that has drawn more numbers than its limit bears the failure for that;
- `step_limit_threshold`: under a limit that is not below the number of steps, every interleaving concludes as the run
  without a limit does; under any smaller one, every interleaving fails with the limit exceeded.
-/
import StepFlow.Proofs.Run.Hindsight
import StepFlow.Proofs.Run.Refusals

namespace StepFlow

/-- a failure, at some depth, for want of room under this limit -/
def Failure.Exceeds (failure : Failure) (limit : Nat) : Prop :=
  ∃ id, failure.Includes (.stepLimitExceeded limit id)

section

variable {launch : Launch} {limit : Nat}

/-! ## Beyond the limit -/

/-- The turn that draws the first number beyond the limit ends a branch for it. -/
theorem turns_exceeds (limited : launch.config.maxSteps = some limit) {path : Path} {shared : Shared} {walk : Walk}
    {after : Shared × Walk} (turns : Walk.Turns launch path shared walk after) (kept : shared.drawn ≤ limit)
    (beyond : limit < after.1.drawn) : Bears (fun failure => failure.Exceeds limit) after.2 := by
  induction turns with
  | @act path shared walk after acts =>
    have still : after.1.drawn = shared.drawn → Bears (fun failure => failure.Exceeds limit) after.2 := by
      intro same
      omega
    cases acts with
    | @exceed node value other passed =>
      obtain ⟨set, -⟩ := Config.limitBefore_eq_some_iff.1 passed
      obtain rfl := Option.some.inj (limited.symm.trans set)
      exact .ended ⟨node.id, .self⟩
    | refuse within _ => exact absurd (Config.limitBefore_eq_none_iff.1 within limit limited) (Nat.not_le_of_lt beyond)
    | number within _ => exact absurd (Config.limitBefore_eq_none_iff.1 within limit limited) (Nat.not_le_of_lt beyond)
    | cross _ => exact still (by simp)
    | finish _ => exact still (by simp [Shared.record])
    | cancel => exact still (by simp)
    | _ => exact still rfl
  | receive _ _ => exact absurd kept (Nat.not_le_of_lt beyond)
  | within there _ ih => exact .branch (List.getElem?_set_self (List.getElem?_eq_some_iff.1 there).1) (ih kept beyond)

/-- **A run that has drawn more numbers than its limit bears the failure for that**, unless it has been cancelled. -/
theorem moves_exceeds (limited : launch.config.maxSteps = some limit) {schedule : List Move} {state : RunState}
    (h : (RunState.start launch).moves launch schedule = some state) (live : state.shared.cancelled = [])
    (beyond : limit < state.shared.drawn) : Bears (fun failure => failure.Exceeds limit) state.walk := by
  revert live beyond
  refine moves_induction_tidy (P := fun state => state.shared.cancelled = [] → limit < state.shared.drawn →
      Bears (fun failure => failure.Exceeds limit) state.walk) (fun {state after} tidy turns bears live beyond => ?_)
    (fun branch before live => ?_) h fun _ beyond => absurd beyond (Nat.not_lt_zero limit)
  · have calm := (Walk.turns_grows turns).cancelled_eq_nil live
    by_cases kept : state.shared.drawn ≤ limit
    · exact turns_exceeds limited turns kept beyond
    · refine turns_bears (fun mem exceeds => ?_) (Or.inl calm) tidy turns (bears calm (Nat.lt_of_not_le kept))
      obtain ⟨id, includes⟩ := exceeds
      exact ⟨id, .nested mem includes⟩
  · cases live

theorem moves_unlimited (unlimited : launch.config.maxSteps = none) {schedule : List Move} {state : RunState}
    (h : (RunState.start launch).moves launch schedule = some state) (path : Path) (limit : Nat) (id : NodeId) :
    .ended path (.failed (.stepLimitExceeded limit id)) ∉ state.shared.journal := by
  intro mem
  obtain ⟨earlier, noted⟩ := exists_suffix_of_mem mem
  revert noted
  refine moves_induction_tidy
    (P := fun state => ¬ Event.ended path (.failed (.stepLimitExceeded limit id)) :: earlier <:+ state.shared.journal)
    (fun tidy turns fresh noted => ?_) (fun branch fresh => fresh) h (by simp [RunState.start])
  rcases turns.action tidy with same | ⟨inner, one, result, -, acts, same⟩
  · exact fresh (same ▸ noted)
  · rw [same] at noted
    rcases acts_refuses rfl acts noted with before | ⟨-, -, node, value, -, refuses⟩
    · exact fresh before
    · cases refuses with
      | exceeds passed =>
        obtain ⟨set, -⟩ := Config.limitBefore_eq_some_iff.1 passed
        rw [unlimited] at set
        cases set
      | violates violates => simp [Config.violation] at violates

end

/-- **The step limit is a threshold.** Let some interleaving of a run without a limit, and without cancellation, conclude
after a number of steps, and let its steps be blind to their numbers. Under no limit, or one that is not below that
number, every interleaving comes to the same conclusion, and no limit is exceeded in it. Under a limit below that number,
every interleaving comes to a failure that has the limit exceeded in it. -/
theorem step_limit_threshold {launch : Launch} (blind : launch.graph.StepBlind) {schedule : List Move}
    {final : RunState} {conclusion : Conclusion}
    (moved : (RunState.start (launch.limited none)).moves (launch.limited none) schedule = some final)
    (live : final.shared.cancelled = []) (concluded : final.conclusion? (launch.limited none) = some conclusion) :
    (∀ limit, (∀ bound, limit = some bound → final.shared.drawn ≤ bound) →
      (launch.limited limit).Settles fun other => other = conclusion) ∧
    (∀ failure limit, conclusion = .failed failure → ¬ failure.Exceeds limit) ∧
    ∀ bound < final.shared.drawn, (launch.limited (some bound)).Settles fun other =>
      ∃ failure, other = .failed failure ∧ failure.Exceeds bound := by
  obtain ⟨ending, ended, same⟩ := RunState.conclusion?_eq_some concluded
  refine ⟨fun limit roomy => ?_, fun failure limit failed => ?_, fun bound tight => ?_⟩
  · obtain ⟨outlook, start⟩ := start_hindsight blind limit moved live ended
    refine start.settles fun schedule state moved live last known other concluded => ?_
    rcases known with foreseen | curtailed
    · exact (foreseen.conclusion concluded).trans same.symm
    · exact absurd roomy curtailed.not_roomy
  · rintro ⟨id, includes⟩
    subst failed
    rcases conclusion_noted moved concluded _ includes with ⟨path, noted⟩ | missing | ⟨id, text, panicked⟩
    · exact moves_unlimited rfl moved path limit id noted
    · cases missing
    · cases panicked
  · obtain ⟨outlook, start⟩ := start_hindsight blind (some bound) moved live ended
    refine start.settles fun schedule state moved live last known other concluded => ?_
    obtain ⟨ending, ended, rfl⟩ := RunState.conclusion?_eq_some concluded
    have beyond : bound < state.shared.drawn := by
      rcases known with foreseen | curtailed
      · have heads := foreseen.heads
        have steps := foreseen.steps
        rw [ended] at heads
        cases heads
        simp only at steps
        omega
      · obtain ⟨limit, set, beyond⟩ := curtailed.beyond
        cases set
        exact beyond
    have bears := moves_exceeds rfl moved live beyond
    rw [ended] at bears
    obtain ⟨failure, rfl, exceeds⟩ := bears.of_ended
    exact ⟨failure, rfl, exceeds⟩

/-- Under a limit of two the second branch takes the last number, so that the first one exceeds it after three actions. -/
theorem step_limit_threshold_uneven :
    unevenLaunch.graph.StepBlind ∧
    ∃ final conclusion, (RunState.start (unevenLaunch.limited none)).moves (unevenLaunch.limited none) (unevenSchedule 11) =
        some final ∧ final.shared.cancelled = [] ∧
      final.conclusion? (unevenLaunch.limited none) = some conclusion ∧ final.shared.drawn = 3 ∧
      (unevenLaunch.limited (some 3)).Settles (fun other => other = conclusion) ∧
      ∃ state failure, (RunState.start (unevenLaunch.limited (some 2))).moves (unevenLaunch.limited (some 2))
          (unevenSchedule 3) = some state ∧
        state.conclusion? (unevenLaunch.limited (some 2)) = some (.failed failure) ∧ failure.Exceeds 2 := by
  obtain ⟨final, conclusion, moved, live, concluded, drawn⟩ : ∃ final conclusion,
      (RunState.start (unevenLaunch.limited none)).moves (unevenLaunch.limited none) (unevenSchedule 11) = some final ∧
        final.shared.cancelled = [] ∧ final.conclusion? (unevenLaunch.limited none) = some conclusion ∧
        final.shared.drawn = 3 := ⟨_, _, rfl, rfl, rfl, rfl⟩
  obtain ⟨state, other, went, calm, ended⟩ : ∃ state other,
      (RunState.start (unevenLaunch.limited (some 2))).moves (unevenLaunch.limited (some 2)) (unevenSchedule 3) =
        some state ∧ state.shared.cancelled = [] ∧
      state.conclusion? (unevenLaunch.limited (some 2)) = some other := ⟨_, _, rfl, rfl, rfl⟩
  obtain ⟨roomy, -, tight⟩ := step_limit_threshold stepBlind_uneven moved live concluded
  have settles := roomy (some 3) fun bound same => by
    cases same
    exact Nat.le_of_eq drawn
  obtain ⟨failure, rfl, exceeds⟩ := ((tight 2 (by rw [drawn]; decide)).1 _ state went calm).1 other ended
  exact ⟨stepBlind_uneven, final, conclusion, moved, live, concluded, drawn, settles, state, failure, went, ended, exceeds⟩

end StepFlow
