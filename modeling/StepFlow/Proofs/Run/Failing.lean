/-
A failure of a branch is a failure of the run.

A branch that fails ends its own walk only: its siblings go on, and the fan-out around it waits for all of them. `Bears`
says that somewhere in a tree of walks a failure of some kind has come up. It stays in the tree, since a fan-out hands
on what its branches handed to it, so that in the end the run itself fails with it. Results:
- `Joining.ending_of_failed`: a fan-out of which a branch failed fails, and its failure has that of the branch inside;
- `turns_bears`: a failure that has come up stays, whatever happens after it.
-/
import StepFlow.Proofs.Run.Joining

namespace StepFlow

/-! ## Fan-outs of which a branch failed -/

theorem Gather.ending_of_error {gather : Gather} {failure : Failure} (held : some (.error failure) ∈ gather.slots) :
    ∃ failures completed, gather.ending = .failed (.parallelBranches gather.source failures completed) ∧
      failure ∈ failures := by
  have among : failure ∈ (gather.slots.filterMap id).filterMap failure? :=
    List.mem_filterMap.2 ⟨.error failure, List.mem_filterMap.2 ⟨_, held, rfl⟩, rfl⟩
  have failing : ((gather.slots.filterMap id).filterMap failure?).isEmpty = false :=
    List.isEmpty_eq_false_iff.2 (List.ne_nil_of_mem among)
  refine ⟨_, (gather.slots.filterMap id).flatMap contributed, ?_, among⟩
  simp only [Gather.ending, Gather.merge, failing, Bool.false_eq_true, if_false]

theorem Gather.resultOf_eq_ok {gather : Gather} {task : TaskId} {ending : Ending} {outputs : List Output}
    (h : gather.resultOf task ending = .ok outputs) : ending = .outputs outputs := by
  cases ending with
  | outputs reached => cases h; rfl
  | failed failure => cases h
  | panicked panic => cases h

theorem Gather.ending_eq_outputs {gather : Gather} {outputs : List Output} (h : gather.ending = .outputs outputs) :
    ∀ output ∈ outputs, ∃ handed, some (.ok handed) ∈ gather.slots ∧ output ∈ handed := by
  intro output mem
  obtain ⟨result, listed, among⟩ : ∃ result ∈ gather.slots.filterMap id, output ∈ contributed result := by
    simp only [Gather.ending, Gather.merge] at h
    split at h
    · cases h
      exact List.mem_flatMap.1 mem
    · cases h
  obtain ⟨slot, held, rfl⟩ := List.mem_filterMap.1 listed
  cases result with
  | ok handed => exact ⟨handed, held, among⟩
  | error failure =>
    obtain ⟨failures, completed, failed, -⟩ := Gather.ending_of_error held
    rw [failed] at h
    cases h

/-- **A fan-out of which a branch failed fails with it.** -/
theorem Joining.ending_of_failed {graph : Orchestration} {branches : List (Branch Walk)} {gather : Gather} {slot : Nat}
    {branch : Branch Walk} {failure : Failure} (tidy : Joining graph branches [] gather)
    (there : branches[slot]? = some branch) (failed : branch.walk = .ended (.failed failure)) :
    ∃ failures completed, gather.ending = .failed (.parallelBranches gather.source failures completed) ∧
      failure ∈ failures := by
  obtain ⟨ending, ended, held⟩ := tidy.received slot branch there (by simp)
  rw [failed] at ended
  cases ended
  exact Gather.ending_of_error (List.mem_of_getElem? held)

/-! ## Failures that have come up -/

/-- somewhere in a tree of walks, one has ended with a failure of some kind -/
inductive Bears (Q : Failure → Prop) : Walk → Prop where
  | ended {failure : Failure} : Q failure → Bears Q (.ended (.failed failure))
  | branch {branches : List (Branch Walk)} {pending : List TaskId} {gather : Gather} {slot : Nat}
      {branch : Branch Walk} : branches[slot]? = some branch → Bears Q branch.walk →
      Bears Q (.joining branches pending gather)

section

variable {launch : Launch} {Q : Failure → Prop}

theorem Bears.of_ended {ending : Ending} (h : Bears Q (.ended ending)) :
    ∃ failure, ending = .failed failure ∧ Q failure := by
  cases h with
  | ended holds => exact ⟨_, rfl, holds⟩

/-- **A failure that has come up stays**, if it is of a kind that a fan-out passes on and no cancellation hides it. -/
theorem turns_bears
    (nested : ∀ {source failures completed failure}, failure ∈ failures → Q failure →
      Q (.parallelBranches source failures completed))
    {path : Path} {shared : Shared} {walk : Walk} {after : Shared × Walk}
    (cut : shared.cancelled = [] ∨ ∀ id, Q (.cancelled id))
    (tidy : Walk.Every (fun _ => Tidy launch.graph) path walk) (h : Walk.Turns launch path shared walk after)
    (before : Bears Q walk) : Bears Q after.2 := by
  induction h with
  | @act path shared walk after acts =>
    cases before with
    | ended _ => cases acts
    | branch there bears =>
      cases acts with
      | abandon cancelled =>
        rcases cut with live | hidden
        · rw [Shared.isCancelled_of_nil live] at cancelled; cases cancelled
        · exact .ended (hidden _)
      | merge _ =>
        obtain ⟨ending, ended, -⟩ := Joining.received tidy.root _ _ there (by simp)
        rw [ended] at bears
        obtain ⟨failure, rfl, holds⟩ := bears.of_ended
        obtain ⟨failures, completed, merged, among⟩ := Joining.ending_of_failed tidy.root there ended
        rw [merged]
        exact .ended (nested among holds)
  | receive _ _ =>
    cases before with
    | branch there bears => exact .branch there bears
  | @within path shared branches pending gather slot branch after there turns ih =>
    cases before with
    | @branch _ _ _ other one indexed bears =>
      by_cases same : slot = other
      · subst same
        obtain rfl := Option.some.inj (there.symm.trans indexed)
        have lt := (List.getElem?_eq_some_iff.1 there).1
        exact .branch (List.getElem?_set_self lt) (ih cut (tidy.inside _ (List.mem_of_getElem? there)) bears)
      · exact .branch ((List.getElem?_set_ne same).trans indexed) bears

end

end StepFlow
