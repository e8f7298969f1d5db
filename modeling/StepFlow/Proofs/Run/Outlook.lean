/-
What a run without cancellation has before it.

While no token is cancelled and no limit is met, what a walk will do is settled by where it stands: how many step
numbers it will draw, at most how many turns it will take, and how it will end. `Visits`, `Attempts` and `Takes` give this
outlook for a walk that arrives at a node, for one that attempts its step, and for one that takes a route; `Heads`
gives it for every walk in progress, fan-outs included. Results:
- `turns_heads`: whichever turn is taken, the ending of the outlook stays, a step number is drawn for every step it
  loses, and it has fewer turns left; only a step beyond the limit breaks it, and then leaves a shorter one;
- `exists_turn`: a walk that has an outlook and has not ended can take a turn.
-/
import Mathlib.Algebra.GroupWithZero.Nat
import Mathlib.Algebra.Order.BigOperators.Group.List
import Mathlib.Algebra.Order.Group.Nat
import StepFlow.Proofs.Run.Joining

namespace StepFlow

/-! ## How long activities take -/

/-- the turns that a busy walk spends on an activity while its token is live -/
def Activity.turns : Activity → Nat
  | .finish _ => 1
  | .pause next => next.turns + 2
  | .cancel _ next => next.turns + 1
  | .observe next => (next false).turns + 1
  | .hang => 0

/-- the most turns that a step spends on a value, whichever number up to the horizon it is started under -/
def Step.span (step : Step) (node : NodeId) (branch : Path) (value : Value) : Nat → Nat
  | 0 => 0
  | number + 1 =>
    max (step.span node branch value number)
      (step.run value { node := node, step := number + 1, branch := branch }).turns

theorem Step.turns_le_span {step : Step} {node : NodeId} {branch : Path} {value : Value} {number horizon : Nat}
    (positive : 1 ≤ number) (within : number ≤ horizon) :
    (step.run value { node := node, step := number, branch := branch }).turns ≤
      step.span node branch value horizon := by
  induction horizon with
  | zero => omega
  | succ horizon ih =>
    rw [Step.span]
    by_cases last : number = horizon + 1
    · subst last
      exact Nat.le_max_right _ _
    · exact Nat.le_trans (ih (by omega)) (Nat.le_max_left _ _)

/-! ## Outlooks -/

/-- what a walk has before it -/
structure Outlook where
  /-- the step numbers that it will draw -/
  steps : Nat
  /-- the most turns that it will take -/
  turns : Nat
  ending : Ending

namespace Outlook

/-- the outlook of a walk that takes some more turns first -/
def after (outlook : Outlook) (turns : Nat) : Outlook :=
  { outlook with turns := outlook.turns + turns }

/-- the outlook of a fan-out, from those of its branches: it receives what is pending and then merges -/
def join (source : NodeId) (targets : List NodeId) (pending : Nat) (outlooks : List Outlook) : Outlook :=
  { steps := (outlooks.map Outlook.steps).sum
    turns := (outlooks.map Outlook.turns).sum + pending + 1
    ending := Gather.merge source (List.zipWith Sequential.branchResult targets (outlooks.map Outlook.ending)) }

end Outlook

theorem sum_map_set {α : Type} {xs : List α} {slot : Nat} {old new : α} (f : α → Nat) (there : xs[slot]? = some old) :
    ((xs.set slot new).map f).sum + f old = (xs.map f).sum + f new := by
  induction xs generalizing slot with
  | nil => simp at there
  | cons first rest ih =>
    cases slot with
    | zero =>
      obtain rfl : first = old := by simpa using there
      simp only [List.set_cons_zero, List.map_cons, List.sum_cons]
      omega
    | succ slot =>
      have rest := ih (by simpa using there)
      simp only [List.set_cons_succ, List.map_cons, List.sum_cons]
      omega

mutual

/-- the outlook of a walk that arrives at a node -/
inductive Visits (launch : Launch) (horizon : Nat) : Path → NodeId → Value → Outlook → Prop where
  | stray {path : Path} {target : NodeId} {value : Value} : launch.graph.node? target = none →
      Visits launch horizon path target value ⟨0, 1, .failed (.unknownNode target target)⟩
  | found {path : Path} {target : NodeId} {value : Value} {node : Node} {outlook : Outlook} :
      launch.graph.node? target = some node → Attempts launch horizon path node value outlook →
      Visits launch horizon path target value (outlook.after 1)

inductive Attempts (launch : Launch) (horizon : Nat) : Path → Node → Value → Outlook → Prop where
  | refused {path : Path} {node : Node} {value : Value} {failure : Failure} :
      launch.config.violation node .input value = some failure →
      Attempts launch horizon path node value ⟨1, 1, .failed failure⟩
  | stepped {path : Path} {node : Node} {value : Value} {completion : Completion} {outlook : Outlook} :
      launch.config.violation node .input value = none →
      (∀ number, (node.step.run value ⟨node.id, number, path⟩).undisturbed = some completion) →
      Takes launch horizon path node.id (launch.respond node path completion) outlook →
      Attempts launch horizon path node value
        { outlook.after (node.step.span node.id path value horizon + 2) with steps := outlook.steps + 1 }

inductive Takes (launch : Launch) (horizon : Nat) : Path → NodeId → Route → Outlook → Prop where
  | stop {path : Path} {source : NodeId} {ending : Ending} :
      Takes launch horizon path source (.stop ending) ⟨0, 0, ending⟩
  | move {path : Path} {source : NodeId} {advancer : Advancer} {delivered : Value} {outlook : Outlook} :
      Visits launch horizon path advancer.target delivered outlook →
      Takes launch horizon path source (.move advancer delivered) outlook
  | split {path : Path} {source : NodeId} {value : Value} {fired : List (Nat × Advancer)} {outlooks : List Outlook} :
      outlooks.length = fired.length →
      (∀ (slot : Nat) one outlook, fired[slot]? = some one → outlooks[slot]? = some outlook →
        Takes launch horizon (path ++ [one.1]) source (launch.graph.along source one.2 value) outlook) →
      Takes launch horizon path source (.split value fired)
        (.join source (fired.map fun one => one.2.target) fired.length (outlooks.map fun outlook => outlook.after 1))

end

/-- the outlook of a walk in progress -/
inductive Heads (launch : Launch) (horizon : Nat) : Path → Walk → Outlook → Prop where
  | crossing {path : Path} {source : NodeId} {advancer : Advancer} {value : Value} {outlook : Outlook} :
      Takes launch horizon path source (launch.graph.along source advancer value) outlook →
      Heads launch horizon path (.crossing source advancer value) (outlook.after 1)
  | arriving {path : Path} {target : NodeId} {value : Value} {outlook : Outlook} :
      Visits launch horizon path target value outlook → Heads launch horizon path (.arriving target value) outlook
  | admitted {path : Path} {node : Node} {value : Value} {outlook : Outlook} :
      Attempts launch horizon path node value outlook → Heads launch horizon path (.admitted node value) outlook
  | ready {path : Path} {node : Node} {number : Nat} {value : Value} {completion : Completion} {outlook : Outlook} :
      1 ≤ number → number ≤ horizon →
      (∀ number, (node.step.run value ⟨node.id, number, path⟩).undisturbed = some completion) →
      Takes launch horizon path node.id (launch.respond node path completion) outlook →
      Heads launch horizon path (.ready node number value)
        (outlook.after (node.step.span node.id path value horizon + 1))
  | busy {path : Path} {node : Node} {activity : Activity} {completion : Completion} {outlook : Outlook} :
      activity.undisturbed = some completion →
      Takes launch horizon path node.id (launch.respond node path completion) outlook →
      Heads launch horizon path (.busy node activity) (outlook.after activity.turns)
  | suspended {path : Path} {node : Node} {activity : Activity} {completion : Completion} {outlook : Outlook} :
      activity.undisturbed = some completion →
      Takes launch horizon path node.id (launch.respond node path completion) outlook →
      Heads launch horizon path (.suspended node activity) (outlook.after (activity.turns + 1))
  | joining {path : Path} {branches : List (Branch Walk)} {pending : List TaskId} {gather : Gather}
      {outlooks : List Outlook} : outlooks.length = branches.length →
      (∀ (slot : Nat) branch outlook, branches[slot]? = some branch → outlooks[slot]? = some outlook →
        Heads launch horizon (path ++ [branch.index]) branch.walk outlook) →
      Heads launch horizon path (.joining branches pending gather)
        (.join gather.source gather.targets pending.length outlooks)
  | ended {path : Path} {ending : Ending} : Heads launch horizon path (.ended ending) ⟨0, 0, ending⟩

section

variable {launch : Launch} {horizon : Nat}

theorem heads_follow {path : Path} {source : NodeId} {route : Route} {outlook : Outlook}
    (h : Takes launch horizon path source route outlook) (shared : Shared) :
    Heads launch horizon path (Walk.follow path shared source route).2 outlook := by
  cases h with
  | stop => exact .ended
  | move visits => exact .arriving visits
  | @split _ _ value fired outlooks length takes =>
    have opened := Walk.getElem?_branches_fanOut path shared source value fired
    have heads : Heads launch horizon path (Walk.fanOut path shared source value fired).2
        (.join source (fired.map fun one => one.2.target) (List.range' shared.spawned fired.length).length
          (outlooks.map fun outlook => outlook.after 1)) := by
      refine .joining (by simp [length]) fun slot branch outlook there aim => ?_
      have indexed : some branch = _ := there.symm.trans (opened slot)
      obtain ⟨one, fires, rfl⟩ := Option.map_eq_some_iff.1 indexed.symm
      rw [List.getElem?_map] at aim
      obtain ⟨before, listed, rfl⟩ := Option.map_eq_some_iff.1 aim
      exact .crossing (takes slot one before fires listed)
    rw [List.length_range'] at heads
    exact heads

/-! ## Turns -/

/-- a turn keeps the ending, draws a number for every step that is gone from the outlook, and leaves fewer turns -/
structure Outlook.Passes (old new : Shared) (before after : Outlook) : Prop where
  ending : after.ending = before.ending
  steps : new.drawn + after.steps = old.drawn + before.steps
  turns : after.turns < before.turns

/-- a turn beyond the limit ends a branch early: the outlook may be another one, but it has no more steps and fewer turns
in it than there were -/
structure Outlook.Breaks (launch : Launch) (old new : Shared) (before after : Outlook) : Prop where
  beyond : ∃ limit, launch.config.maxSteps = some limit ∧ limit < new.drawn
  steps : new.drawn + after.steps ≤ old.drawn + before.steps
  turns : after.turns < before.turns

/-- What changes in one branch of a fan-out changes in the fan-out. -/
theorem Outlook.join_set {outlooks : List Outlook} {slot : Nat} {before : Outlook} (aim : outlooks[slot]? = some before)
    (after : Outlook) (source : NodeId) (targets : List NodeId) (pending : Nat) :
    (Outlook.join source targets pending (outlooks.set slot after)).steps + before.steps =
        (Outlook.join source targets pending outlooks).steps + after.steps ∧
      (Outlook.join source targets pending (outlooks.set slot after)).turns + before.turns =
        (Outlook.join source targets pending outlooks).turns + after.turns := by
  have steps : ((outlooks.set slot after).map Outlook.steps).sum + _ = _ := sum_map_set Outlook.steps aim
  have turns : ((outlooks.set slot after).map Outlook.turns).sum + _ = _ := sum_map_set Outlook.turns aim
  simp only [Outlook.join]
  omega

theorem Outlook.Passes.join {old new : Shared} {outlooks : List Outlook} {slot : Nat} {before after : Outlook}
    (h : before.Passes old new after) (aim : outlooks[slot]? = some before) (source : NodeId) (targets : List NodeId)
    (pending : Nat) : (Outlook.join source targets pending outlooks).Passes old new
      (.join source targets pending (outlooks.set slot after)) := by
  obtain ⟨steps, turns⟩ := Outlook.join_set aim after source targets pending
  have endings : (outlooks.set slot after).map Outlook.ending = outlooks.map Outlook.ending :=
    map_set_of_eq aim h.ending
  have drawn := h.steps
  have fewer := h.turns
  refine ⟨?_, by omega, by omega⟩
  simp only [Outlook.join, endings]

theorem Outlook.Breaks.join {old new : Shared} {outlooks : List Outlook} {slot : Nat} {before after : Outlook}
    (h : before.Breaks launch old new after) (aim : outlooks[slot]? = some before) (source : NodeId)
    (targets : List NodeId) (pending : Nat) : (Outlook.join source targets pending outlooks).Breaks launch old new
      (.join source targets pending (outlooks.set slot after)) := by
  obtain ⟨steps, turns⟩ := Outlook.join_set aim after source targets pending
  have drawn := h.steps
  have fewer := h.turns
  exact ⟨h.beyond, by omega, by omega⟩

theorem Outlook.passes_receive {pending : List TaskId} {id : TaskId} (waiting : id ∈ pending) (shared : Shared)
    (source : NodeId) (targets : List NodeId) (outlooks : List Outlook) :
    (Outlook.join source targets pending.length outlooks).Passes shared shared
      (.join source targets (pending.erase id).length outlooks) := by
  have fewer := List.length_erase_of_mem waiting
  have positive : 0 < pending.length := List.length_pos_of_mem waiting
  refine ⟨rfl, rfl, ?_⟩
  simp only [Outlook.join]
  omega

/-- Once every branch has been received, their outlooks are of nothing but endings, and the fan-out merges them. -/
theorem join_received {path : Path} {branches : List (Branch Walk)} {gather : Gather} {outlooks : List Outlook}
    (tidy : Joining launch.graph branches [] gather) (length : outlooks.length = branches.length)
    (heads : ∀ (slot : Nat) branch outlook, branches[slot]? = some branch → outlooks[slot]? = some outlook →
      Heads launch horizon (path ++ [branch.index]) branch.walk outlook) :
    (outlooks.map Outlook.steps).sum = 0 ∧ gather.ending = Gather.merge gather.source
      (List.zipWith Sequential.branchResult gather.targets (outlooks.map Outlook.ending)) := by
  have finished : ∀ (slot : Nat) branch outlook ending, branches[slot]? = some branch → outlooks[slot]? = some outlook →
      branch.walk = .ended ending → outlook = ⟨0, 0, ending⟩ := by
    intro slot branch outlook ending there aim ended
    have head := heads slot branch outlook there aim
    rw [ended] at head
    cases head
    rfl
  constructor
  · rw [List.sum_eq_zero_iff_forall_eq_nat]
    intro steps mem
    obtain ⟨outlook, among, rfl⟩ := List.mem_map.1 mem
    obtain ⟨slot, aim⟩ := List.mem_iff_getElem?.1 among
    have lt : slot < branches.length := length ▸ (List.getElem?_eq_some_iff.1 aim).1
    obtain ⟨ending, ended, -⟩ := tidy.received slot _ (List.getElem?_eq_getElem lt) (by simp)
    rw [finished slot _ outlook ending (List.getElem?_eq_getElem lt) aim ended]
  · have targets := tidy.length_targets
    refine tidy.ending (by simp; omega) fun slot branch target ending there ended leads => ?_
    have lt : slot < outlooks.length := length ▸ (List.getElem?_eq_some_iff.1 there).1
    have aim : outlooks[slot]? = some outlooks[slot] := List.getElem?_eq_getElem lt
    rw [List.getElem?_zipWith, leads, List.getElem?_map, aim, finished slot branch _ ending there aim ended]
    rfl

/-- Either the target is missing for the action as for the outlook, or the walk comes to the same node. -/
theorem arriving_heads {path : Path} {shared : Shared} {target : NodeId} {value : Value} {after : Shared × Walk}
    {outlook : Outlook} (live : shared.cancelled = [])
    (acts : Walk.Acts launch path shared (.arriving target value) after)
    (visits : Visits launch horizon path target value outlook) :
    ∃ next, Heads launch horizon path after.2 next ∧ outlook.Passes shared after.1 next := by
  cases visits with
  | stray absent =>
    cases acts with
    | stray _ => exact ⟨_, .ended, rfl, rfl, Nat.zero_lt_one⟩
    | stopped found _ => rw [absent] at found; cases found
    | pass found _ => rw [absent] at found; cases found
  | @found _ _ _ node before there attempts =>
    cases acts with
    | stray absent => rw [absent] at there; cases there
    | stopped _ cancelled => rw [Shared.isCancelled_of_nil live] at cancelled; cases cancelled
    | pass found _ =>
      obtain rfl := Option.some.inj (there.symm.trans found)
      exact ⟨before, .admitted attempts, rfl, rfl, Nat.lt_succ_self _⟩

/-- An attempt draws a number, even if the input is then refused. -/
theorem Attempts.one_le_steps {path : Path} {node : Node} {value : Value} {outlook : Outlook}
    (h : Attempts launch horizon path node value outlook) : 1 ≤ outlook.steps := by
  cases h with
  | refused _ => exact Nat.le_refl _
  | stepped _ _ _ => exact Nat.succ_le_succ (Nat.zero_le _)

theorem Attempts.one_le_turns {path : Path} {node : Node} {value : Value} {outlook : Outlook}
    (h : Attempts launch horizon path node value outlook) : 1 ≤ outlook.turns := by
  cases h with
  | refused _ => exact Nat.le_refl _
  | stepped _ _ _ => exact Nat.le_trans (Nat.le_add_left 1 _) (Nat.le_add_left _ _)

/-- The number that is drawn lies within the horizon. If it is beyond the limit, the walk ends there and then. -/
theorem admitted_heads {path : Path} {shared : Shared} {node : Node} {value : Value} {after : Shared × Walk}
    {outlook : Outlook} (within : shared.drawn + outlook.steps ≤ horizon)
    (acts : Walk.Acts launch path shared (.admitted node value) after)
    (attempts : Attempts launch horizon path node value outlook) :
    ∃ next, Heads launch horizon path after.2 next ∧
      (outlook.Passes shared after.1 next ∨ outlook.Breaks launch shared after.1 next) := by
  have oneStep := attempts.one_le_steps
  cases acts with
  | @exceed _ _ limit beyond =>
    exact ⟨_, .ended, Or.inr
      ⟨⟨limit, Config.limitBefore_eq_some_iff.1 beyond⟩, Nat.add_le_add_left oneStep _, attempts.one_le_turns⟩⟩
  | refuse _ violates =>
    cases attempts with
    | refused other =>
      obtain rfl := Option.some.inj (violates.symm.trans other)
      exact ⟨_, .ended, Or.inl ⟨rfl, rfl, Nat.zero_lt_one⟩⟩
    | stepped fits _ _ => rw [fits] at violates; cases violates
  | number _ fits =>
    cases attempts with
    | refused violates => rw [violates] at fits; cases fits
    | stepped _ completes takes =>
      refine ⟨_, .ready (Nat.succ_pos _) (by omega) completes takes, Or.inl ⟨rfl, ?_, ?_⟩⟩
      · simp only [Outlook.after, Shared.counted]
        omega
      · simp only [Outlook.after]
        omega

/-- A step ends as its activity does undisturbed: while its token is live, it observes nothing else. -/
theorem busy_heads {path : Path} {shared : Shared} {node : Node} {activity : Activity} {after : Shared × Walk}
    {completion : Completion} {outlook : Outlook} (live : shared.cancelled = [])
    (acts : Walk.Acts launch path shared (.busy node activity) after)
    (completes : activity.undisturbed = some completion)
    (takes : Takes launch horizon path node.id (launch.respond node path completion) outlook) :
    ∃ next, Heads launch horizon path after.2 next ∧ (outlook.after activity.turns).Passes shared after.1 next := by
  cases acts with
  | @finish _ finished route responds =>
    obtain rfl : finished = completion := Option.some.inj completes
    rw [responds.eq]
    exact ⟨outlook, heads_follow takes _, rfl, by simp [Outlook.after, Shared.record], Nat.lt_succ_self _⟩
  | pause =>
    refine ⟨_, .suspended completes takes, rfl, rfl, ?_⟩
    simp only [Outlook.after, Activity.turns]
    omega
  | cancel =>
    refine ⟨_, .busy completes takes, rfl, by simp [Outlook.after], ?_⟩
    simp only [Outlook.after, Activity.turns]
    omega
  | observe =>
    rw [Shared.isCancelled_of_nil live]
    refine ⟨_, .busy completes takes, rfl, rfl, ?_⟩
    simp only [Outlook.after, Activity.turns]
    omega
  | hang => cases completes

/-- **Every action keeps to the outlook**, unless it goes beyond the limit. -/
theorem acts_heads {path : Path} {shared : Shared} {walk : Walk} {after : Shared × Walk} {outlook : Outlook}
    (tidy : Tidy launch.graph walk) (live : shared.cancelled = []) (within : shared.drawn + outlook.steps ≤ horizon)
    (acts : Walk.Acts launch path shared walk after) (h : Heads launch horizon path walk outlook) :
    ∃ next, Heads launch horizon path after.2 next ∧
      (outlook.Passes shared after.1 next ∨ outlook.Breaks launch shared after.1 next) := by
  have calm : shared.isCancelled path = false := Shared.isCancelled_of_nil live path
  cases h with
  | @crossing _ source advancer value before takes =>
    cases acts with
    | cross along =>
      rw [along.eq]
      exact ⟨before, heads_follow takes shared, Or.inl ⟨rfl, by simp [Outlook.after], Nat.lt_succ_self _⟩⟩
  | arriving visits =>
    obtain ⟨next, heads, passes⟩ := arriving_heads live acts visits
    exact ⟨next, heads, Or.inl passes⟩
  | admitted attempts => exact admitted_heads within acts attempts
  | @ready _ node number value completion before positive small completes takes =>
    cases acts with
    | dismiss cancelled => rw [calm] at cancelled; cases cancelled
    | begin _ =>
      have spent : (node.step.run value ⟨node.id, number, path⟩).turns ≤ _ := Step.turns_le_span positive small
      refine ⟨_, .busy (completes number) takes, Or.inl ⟨rfl, rfl, ?_⟩⟩
      simp only [Outlook.after]
      omega
  | busy completes takes =>
    obtain ⟨next, heads, passes⟩ := busy_heads live acts completes takes
    exact ⟨next, heads, Or.inl passes⟩
  | @suspended _ node activity completion before completes takes =>
    cases acts with
    | interrupt cancelled => rw [calm] at cancelled; cases cancelled
    | resume _ _ =>
      refine ⟨_, .busy completes takes, Or.inl ⟨rfl, rfl, ?_⟩⟩
      simp only [Outlook.after]
      omega
  | @joining _ branches pending gather outlooks length heads =>
    cases acts with
    | abandon cancelled => rw [calm] at cancelled; cases cancelled
    | merge _ =>
      obtain ⟨exhausted, merged⟩ := join_received tidy length heads
      refine ⟨_, .ended, Or.inl ⟨merged, ?_, Nat.succ_pos _⟩⟩
      simp only [Outlook.join, exhausted]
      rfl
  | ended => cases acts

/-- **Every turn keeps to the outlook**, as long as no token has been cancelled, unless it goes beyond the limit. -/
theorem turns_heads {path : Path} {shared : Shared} {walk : Walk} {after : Shared × Walk} {outlook : Outlook}
    (tidy : Walk.Every (fun _ => Tidy launch.graph) path walk) (live : shared.cancelled = [])
    (within : shared.drawn + outlook.steps ≤ horizon) (turns : Walk.Turns launch path shared walk after)
    (h : Heads launch horizon path walk outlook) :
    ∃ next, Heads launch horizon path after.2 next ∧
      (outlook.Passes shared after.1 next ∨ outlook.Breaks launch shared after.1 next) := by
  induction turns generalizing outlook with
  | act acts => exact acts_heads tidy.root live within acts h
  | @receive path shared branches pending gather slot id index ending there waiting =>
    cases h with
    | @joining _ _ _ _ outlooks length heads =>
      refine ⟨_, .joining length heads, Or.inl ?_⟩
      rw [Gather.source_receive, Gather.targets_receive]
      exact Outlook.passes_receive waiting shared _ _ _
  | @within path shared branches pending gather slot branch after there _ ih =>
    cases h with
    | @joining _ _ _ _ outlooks length heads =>
      have lt : slot < outlooks.length := length ▸ (List.getElem?_eq_some_iff.1 there).1
      have aim : outlooks[slot]? = some outlooks[slot] := List.getElem?_eq_getElem lt
      have share : outlooks[slot].steps ≤ (outlooks.map Outlook.steps).sum :=
        List.le_sum_of_mem (List.mem_map_of_mem (List.getElem_mem lt))
      have room : shared.drawn + outlooks[slot].steps ≤ horizon := Nat.le_trans (Nat.add_le_add_left share _) within
      obtain ⟨next, head, goes⟩ :=
        ih (tidy.inside branch (List.mem_of_getElem? there)) live room (heads slot branch _ there aim)
      have kept : ∀ (other : Nat) one outlook, (branches.set slot { branch with walk := after.2 })[other]? = some one →
          (outlooks.set slot next)[other]? = some outlook →
          Heads launch horizon (path ++ [one.index]) one.walk outlook := agree_set heads head
      refine ⟨_, .joining (by simpa using length) kept, ?_⟩
      exact goes.imp (fun passes => passes.join aim _ _ _) fun breaks => breaks.join aim _ _ _

theorem Heads.awake {path : Path} {walk : Walk} {outlook : Outlook} (h : Heads launch horizon path walk outlook) :
    Walk.Every (fun _ walk => ∀ node, walk ≠ .suspended node .hang) path walk := by
  induction h with
  | suspended completes _ =>
    refine Walk.every_whole rfl fun node same => ?_
    cases same
    cases completes
  | @joining path branches pending gather outlooks length heads ih =>
    refine .intro nofun fun branch mem => ?_
    obtain ⟨slot, there⟩ := List.mem_iff_getElem?.1 mem
    have lt : slot < outlooks.length := length ▸ (List.getElem?_eq_some_iff.1 there).1
    exact ih slot branch _ there (List.getElem?_eq_getElem lt)
  | _ => exact Walk.every_whole rfl nofun

/-- **A walk with an outlook is never stuck.** -/
theorem exists_turn {path : Path} {walk : Walk} {outlook : Outlook} (h : Heads launch horizon path walk outlook)
    (tidy : Walk.Every (fun _ => Tidy launch.graph) path walk) {shared : Shared} (going : ∀ ending, walk ≠ .ended ending) :
    ∃ turn after, walk.turn launch turn path shared = some after :=
  exists_turn_of_tidy tidy (h.awake.mono fun _ _ awake node same => absurd same (awake node)) going

end

end StepFlow
