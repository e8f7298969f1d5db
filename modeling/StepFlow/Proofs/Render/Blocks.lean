/-
What the lines of a failure say.

A failure is a tree: the failure of a fan-out holds those of its branches. Without colours each failure of the tree is
written as one block of lines (`Render.block`): its headline, two spaces further in for every fan-out around it, then the
causes that the text before them does not hold already, in the order of the chain, then the outputs that did finish. The
blocks stand in the order of the tree, each failure before those of its branches, and there is nothing between them.
Results:
- `failureLines_eq`: the lines of a failure are its own ones and those of its branches;
- `causeLines_plain`: which causes have a line;
- `newTexts_chain`: the first cause of the failure of a step or of a conversion never has one;
- `failure_in_blocks`: all of it, for a failure of any depth and width.
-/
import Mathlib.Data.List.Infix
import StepFlow.Render

namespace StepFlow

/-! ## The tree of a failure -/

namespace Failure

def inner : Failure → List Failure
  | .parallelBranches _ failures _ => failures
  | _ => []

theorem sizeOf_inner_lt {failure branch : Failure} (h : branch ∈ failure.inner) : sizeOf branch < sizeOf failure := by
  cases failure with
  | parallelBranches node failures completed =>
    have below : sizeOf branch < sizeOf failures := List.sizeOf_lt_of_mem h
    simp only [parallelBranches.sizeOf_spec]
    omega
  | _ => cases h

/-- What holds of a failure if it holds of those of its branches holds of every failure. -/
theorem inner_induction {Holds : Failure → Prop}
    (step : ∀ failure, (∀ branch ∈ failure.inner, Holds branch) → Holds failure) (failure : Failure) :
    Holds failure :=
  step failure fun branch mem =>
    have := sizeOf_inner_lt mem
    inner_induction step branch
termination_by sizeOf failure

mutual

/-- a failure and those in it, each before those of its branches, with the number of fan-outs around them -/
def nested : Nat → Failure → List (Nat × Failure)
  | depth, .parallelBranches node failures completed =>
    (depth, .parallelBranches node failures completed) :: nestedEach (depth + 1) failures
  | depth, failure => [(depth, failure)]

def nestedEach : Nat → List Failure → List (Nat × Failure)
  | _, [] => []
  | depth, failure :: rest => nested depth failure ++ nestedEach depth rest

end

theorem nestedEach_eq (depth : Nat) (failures : List Failure) :
    nestedEach depth failures = failures.flatMap (nested depth) := by
  induction failures with
  | nil => rfl
  | cons failure rest ih => rw [nestedEach, ih, List.flatMap_cons]

theorem nested_eq (depth : Nat) (failure : Failure) :
    failure.nested depth = (depth, failure) :: failure.inner.flatMap (nested (depth + 1)) := by
  cases failure with
  | parallelBranches node failures completed => rw [nested, nestedEach_eq, inner]
  | _ => rfl

/-! ## Its lines -/

/-- the texts of a failure and of the causes behind it, nearest first -/
def chain (failure : Failure) : List String :=
  failure.message :: failure.causes

end Failure

namespace Render

/-- the texts that are no part of the text before them -/
def newTexts (texts : List String) : List String :=
  ((texts.zip texts.tail).filter fun pair => !decide (pair.2.toList <:+: pair.1.toList)).map Prod.snd

def indented (depth : Nat) (text : String) : String :=
  String.ofList (List.replicate (2 * depth) ' ') ++ text ++ "\n"

/-- the lines that belong to a failure itself -/
def block (depth : Nat) (failure : Failure) : List String :=
  indented depth failure.message ::
    ((newTexts failure.chain).map fun cause => indented (depth + 1) ("cause: " ++ cause)) ++
      failure.partialOutputs.map fun output =>
        indented (depth + 1) ("completed " ++ output.node.name ++ " = " ++ output.value.compact)

theorem failuresLines_eq (colored : Bool) (depth : Nat) (failures : List Failure) :
    failuresLines colored depth failures = failures.flatMap (failureLines colored depth) := by
  induction failures with
  | nil => rfl
  | cons failure rest ih => rw [failuresLines, ih, List.flatMap_cons]

/-- The lines of a failure are its own ones, and after them those of its branches. -/
theorem failureLines_eq (colored : Bool) (depth : Nat) (failure : Failure) :
    failureLines colored depth failure =
      ((pad depth ++ paint colored .red failure.message ++ "\n") ::
        causeLines colored depth failure.message failure.causes ++
          failure.partialOutputs.map (completedLine colored depth)) ++
        failure.inner.flatMap (failureLines colored (depth + 1)) := by
  cases failure with
  | parallelBranches node failures completed =>
    simp [failureLines, failuresLines_eq, Failure.causes, Failure.inner, Failure.partialOutputs, causeLines]
  | _ => simp [failureLines, Failure.inner, Failure.partialOutputs]

theorem pad_eq (depth : Nat) : pad depth = String.ofList (List.replicate (2 * depth) ' ') := by
  induction depth with
  | zero => rfl
  | succ depth ih =>
    rw [pad, ih, Nat.mul_succ, Nat.add_comm, List.replicate_add, String.ofList_append]
    rfl

theorem occursIn_eq (needle text : String) : Text.occursIn needle text = decide (needle.toList <:+: text.toList) := by
  rw [Bool.eq_iff_iff, Text.occursIn_iff, decide_eq_true_iff]
  constructor
  · rintro ⟨before, after, split⟩
    exact ⟨before, after, split.symm⟩
  · rintro ⟨before, after, split⟩
    exact ⟨before, after, split.symm⟩

theorem newTexts_cons (shown cause : String) (rest : List String) :
    newTexts (shown :: cause :: rest) =
      if Text.occursIn cause shown then newTexts (cause :: rest) else cause :: newTexts (cause :: rest) := by
  rw [occursIn_eq]
  by_cases holds : cause.toList <:+: shown.toList <;> simp [newTexts, holds]

/-- **A cause has a line exactly if the text before it does not hold it.** By induction on the chain: the text that is
compared moves along it whether a line is written or not. -/
theorem causeLines_plain (depth : Nat) (shown : String) (causes : List String) :
    causeLines false depth shown causes =
      (newTexts (shown :: causes)).map fun cause => indented (depth + 1) ("cause: " ++ cause) := by
  induction causes generalizing shown with
  | nil => rfl
  | cons cause rest ih =>
    rw [causeLines, newTexts_cons]
    split
    · exact ih cause
    · rw [List.map_cons, ih cause, indented, pad_eq]
      rfl

theorem completedLine_plain (depth : Nat) (output : Output) :
    completedLine false depth output =
      indented (depth + 1) ("completed " ++ output.node.name ++ " = " ++ output.value.compact) := by
  rw [completedLine, indented, pad_eq]
  apply String.toList_inj.1
  simp [paint, toString]

theorem failureLines_plain (depth : Nat) (failure : Failure) :
    failureLines false depth failure = block depth failure ++ failure.inner.flatMap (failureLines false (depth + 1)) := by
  rw [failureLines_eq, causeLines_plain, pad_eq, funext (completedLine_plain depth)]
  rfl

/-- **The lines of a failure are the blocks of the failures in it.** By induction on the tree. -/
theorem failureLines_eq_blocks (failure : Failure) :
    ∀ depth, failureLines false depth failure = (failure.nested depth).flatMap fun entry => block entry.1 entry.2 := by
  induction failure using Failure.inner_induction with
  | step failure ih =>
    intro depth
    rw [failureLines_plain, Failure.nested_eq, List.flatMap_cons, List.flatMap_assoc]
    exact congrArg _ (List.flatMap_congr fun branch mem => ih branch mem (depth + 1))

/-- **The text of the failure of a step or of a conversion ends with that of its first cause.** -/
theorem occursIn_message {failure : Failure} {first : String} {rest : List String} (h : failure.causes = first :: rest) :
    Text.occursIn first failure.message = true := by
  have ends : ∃ before, failure.message = before ++ first := by
    cases failure with
    | step node error =>
      obtain ⟨rfl, -⟩ := List.cons.inj h
      exact ⟨_, rfl⟩
    | conversion source target error =>
      obtain ⟨rfl, -⟩ := List.cons.inj h
      exact ⟨_, rfl⟩
    | _ => cases h
  obtain ⟨before, split⟩ := ends
  exact (Text.occursIn_iff _ _).2 ⟨before.toList, [], by rw [split, String.toList_append, List.append_nil]⟩

theorem newTexts_chain {failure : Failure} {first : String} {rest : List String} (h : failure.causes = first :: rest) :
    newTexts failure.chain = newTexts (first :: rest) := by
  rw [Failure.chain, h, newTexts_cons, if_pos (occursIn_message h)]

end Render

/-- **No failure is lost and no cause is repeated.** Without colours the lines of a failure are those of the failures in it,
of each one exactly once and with each one before those of its branches: its text, two spaces further in for every fan-out
around it; a level deeper a line for each cause whose text is no part of the text before it, in the order of the chain; then
a line for each output that did finish, in their order; and no other line. The first cause of the failure of a step or of a
conversion is part of its text, so that none but the causes behind it have lines. -/
theorem failure_in_blocks (terminal : Bool) (failure : Failure) :
    ((Rendering.ofFailure (ColorMode.plain.isColored terminal) failure).lines =
        (failure.nested 0).flatMap fun entry => Render.block entry.1 entry.2) ∧
      (∀ (node : NodeId) (error : StepError),
        Render.newTexts (Failure.step node error).chain = Render.newTexts (error.message :: error.causes)) ∧
      ∀ (source target : NodeId) (error : ConversionError),
        Render.newTexts (Failure.conversion source target error).chain = [] := by
  refine ⟨Render.failureLines_eq_blocks failure 0, ?_, ?_⟩
  · intro node error
    exact Render.newTexts_chain rfl
  · intro source target error
    exact (Render.newTexts_chain rfl).trans rfl

/-- A cause that is folded into the one before it has no line, the one behind it has. -/
example :
    (Rendering.ofFailure false (.parallelBranches ⟨"a"⟩ [.step ⟨"b"⟩ (.encoding "read: gone" ["gone", "no disk"])]
      [⟨⟨"c"⟩, .null, [1]⟩])).lines =
      ["1 of the parallel branches from 'a' failed\n", "  completed c = null\n", "  node 'b' failed: read: gone\n",
        "    cause: no disk\n"] := by
  decide

end StepFlow
