/-
A run that has concluded, looked at from its end.

A run that has come to an end within its limit and without cancellation shows what was before it all the time. Going
back from its end turn by turn, every walk on the way had an outlook: the step numbers drawn and the ending are those
that the run came to. The outlook of a walk does not depend on a limit, so that at the start it is an outlook of the run
under any limit. Results:
- `turns_hindsight`: if a walk has an outlook after a turn, it had one before that the turn passes on;
- `start_hindsight_within`: the run under any limit has, from its start, an outlook that agrees with a run that has kept
  to its own; `start_hindsight`: so it has with the run without one.
-/
import StepFlow.Proofs.Run.Numbering
import StepFlow.Proofs.Run.Recording

namespace StepFlow

def Launch.limited (launch : Launch) (limit : Option Nat) : Launch :=
  { launch with config := launch.config.withMaxSteps limit }

section

variable {launch : Launch} {own limit : Option Nat} {horizon : Nat} {path : Path} {shared : Shared} {walk : Walk}
  {after : Shared × Walk}

/-! ## Turns -/

/-- A walk that has just taken a route has no other outlook than the route. -/
theorem takes_of_heads {source : NodeId} {route : Route} {outlook : Outlook}
    (h : Heads launch horizon path (Walk.follow path shared source route).2 outlook) :
    Takes launch horizon path source route outlook := by
  cases route with
  | stop ending =>
    cases h
    exact .stop
  | move advancer delivered =>
    cases h with
    | arriving visits => exact .move visits
  | split value fired =>
    have opened := Walk.getElem?_branches_fanOut path shared source value fired
    cases h with
    | @joining _ branches _ _ outlooks length heads =>
      have same : outlooks.length = fired.length := by simpa using length
      -- each branch has yet to take its advancer, which is one turn
      have each : ∀ slot < fired.length, ∃ before : Outlook, outlooks[slot]? = some (before.after 1) ∧
          ∀ one, fired[slot]? = some one →
            Takes launch horizon (path ++ [one.1]) source (launch.graph.along source one.2 value) before := by
        intro slot lt
        have indexed : fired[slot]? = some fired[slot] := List.getElem?_eq_getElem lt
        have there := opened slot
        rw [indexed] at there
        have aim : outlooks[slot]? = some outlooks[slot] := List.getElem?_eq_getElem (same ▸ lt)
        have head := heads slot _ _ there aim
        generalize outlooks[slot] = outlook at aim head
        cases head with
        | crossing takes =>
          refine ⟨_, aim, fun one other => ?_⟩
          obtain rfl := Option.some.inj (indexed.symm.trans other)
          exact takes
      obtain ⟨befores, listed, takes⟩ := exists_list each
      have mapped : outlooks = befores.map fun before => before.after 1 := by
        refine List.ext_getElem? fun slot => ?_
        by_cases lt : slot < fired.length
        · have indexed : befores[slot]? = some befores[slot] := List.getElem?_eq_getElem (listed ▸ lt)
          rw [(takes slot _ indexed).1, List.getElem?_map, indexed]
          rfl
        · rw [List.getElem?_eq_none (by omega), List.getElem?_eq_none (by simp; omega)]
      have routed : Takes launch horizon path source (.split value fired) (.join source
          (fired.map fun one => one.2.target) fired.length (befores.map fun before => before.after 1)) :=
        .split listed fun slot one outlook indexed aim => (takes slot outlook aim).2 one indexed
      rw [← mapped] at routed
      rw [List.length_range']
      exact routed

/-- A fan-out whose branches have all ended has them for an outlook. -/
theorem exists_heads_joined (horizon : Nat) (path : Path) {branches : List (Branch Walk)} {gather : Gather}
    (tidy : Joining launch.graph branches [] gather) :
    ∃ outlook, Heads launch horizon path (.joining branches [] gather) outlook ∧ outlook.steps = 0 ∧
      0 < outlook.turns ∧ outlook.ending = gather.ending := by
  have each : ∀ slot < branches.length, ∃ outlook, ∀ branch, branches[slot]? = some branch →
      Heads launch horizon (path ++ [branch.index]) branch.walk outlook := by
    intro slot lt
    have there : branches[slot]? = some branches[slot] := List.getElem?_eq_getElem lt
    obtain ⟨ending, ended, -⟩ := tidy.received slot _ there (by simp)
    refine ⟨⟨0, 0, ending⟩, fun branch other => ?_⟩
    obtain rfl := Option.some.inj (there.symm.trans other)
    rw [ended]
    exact .ended
  obtain ⟨outlooks, length, heads⟩ := exists_list each
  have heads : ∀ (slot : Nat) branch outlook, branches[slot]? = some branch → outlooks[slot]? = some outlook →
      Heads launch horizon (path ++ [branch.index]) branch.walk outlook :=
    fun slot branch outlook there aim => heads slot outlook aim branch there
  obtain ⟨exhausted, merged⟩ := join_received tidy length heads
  exact ⟨_, .joining length heads, exhausted, Nat.succ_pos _, merged.symm⟩

section

variable {next : Outlook} {held : List Nat}

/-- **An action of a run within its limit passes on an outlook**, if the walk has one after it. -/
theorem acts_hindsight (blind : launch.graph.StepBlind) (tidy : Tidy launch.graph walk)
    (live : after.1.cancelled = []) (kept : ∀ bound, own = some bound → after.1.drawn ≤ bound) (holds : Holds walk held)
    (within : ∀ number ∈ held, 1 ≤ number ∧ number ≤ horizon)
    (acts : Walk.Acts (launch.limited own) path shared walk after)
    (h : Heads (launch.limited limit) horizon path after.2 next) :
    ∃ outlook, Heads (launch.limited limit) horizon path walk outlook ∧ outlook.Passes shared after.1 next := by
  have calm : shared.isCancelled path = false :=
    Shared.isCancelled_of_nil ((Walk.acts_grows acts).cancelled_eq_nil live) path
  cases acts with
  | cross along =>
    rw [along.eq] at h ⊢
    exact ⟨_, .crossing (takes_of_heads h), rfl, by simp [Outlook.after], Nat.lt_succ_self _⟩
  | stray absent =>
    cases h with
    | ended => exact ⟨_, .arriving (.stray absent), rfl, rfl, Nat.zero_lt_one⟩
  | stopped _ cancelled => rw [calm] at cancelled; cases cancelled
  | pass found _ =>
    cases h with
    | admitted attempts => exact ⟨_, .arriving (.found found attempts), rfl, rfl, Nat.lt_succ_self _⟩
  | exceed beyond =>
    obtain ⟨set, passed⟩ := Config.limitBefore_eq_some_iff.1 beyond
    exact absurd (kept _ set) (Nat.not_le_of_lt passed)
  | refuse _ violates =>
    cases h with
    | ended => exact ⟨_, .admitted (.refused violates), rfl, rfl, Nat.zero_lt_one⟩
  | number _ fits =>
    cases h with
    | ready _ _ completes takes =>
      refine ⟨_, .admitted (.stepped fits completes takes), rfl, ?_, ?_⟩
      · simp only [Outlook.after, Shared.counted]
        omega
      · simp only [Outlook.after]
        omega
  | dismiss cancelled => rw [calm] at cancelled; cases cancelled
  | @begin node step value _ =>
    cases holds with
    | none unready _ => exact absurd rfl (unready _ _ _)
    | ready =>
      obtain ⟨positive, small⟩ := within step (by simp)
      cases h with
      | busy completes takes =>
        have always := fun number =>
          (blind node (Orchestration.mem_nodes_of_node? tidy) value path number step).trans completes
        have spent : (node.step.run value ⟨node.id, step, path⟩).turns ≤ _ := Step.turns_le_span positive small
        refine ⟨_, .ready positive small always takes, rfl, rfl, ?_⟩
        simp only [Outlook.after]
        omega
  | finish responds =>
    rw [responds.eq] at h ⊢
    exact ⟨_, .busy rfl (takes_of_heads h), rfl, by simp [Outlook.after, Shared.record], Nat.lt_succ_self _⟩
  | pause =>
    cases h with
    | suspended completes takes =>
      refine ⟨_, .busy completes takes, rfl, rfl, ?_⟩
      simp only [Outlook.after, Activity.turns]
      omega
  | cancel =>
    cases h with
    | busy completes takes =>
      refine ⟨_, .busy completes takes, rfl, by simp [Outlook.after], ?_⟩
      simp only [Outlook.after, Activity.turns]
      omega
  | observe =>
    rw [calm] at h
    cases h with
    | busy completes takes =>
      refine ⟨_, .busy completes takes, rfl, rfl, ?_⟩
      simp only [Outlook.after, Activity.turns]
      omega
  | hang =>
    cases h with
    | suspended completes _ => cases completes
  | interrupt cancelled => rw [calm] at cancelled; cases cancelled
  | resume _ _ =>
    cases h with
    | busy completes takes =>
      refine ⟨_, .suspended completes takes, rfl, rfl, ?_⟩
      simp only [Outlook.after]
      omega
  | abandon cancelled => rw [calm] at cancelled; cases cancelled
  | merge _ =>
    cases h with
    | ended =>
      have fan : Joining (launch.limited limit).graph _ [] _ := tidy
      obtain ⟨outlook, heads, exhausted, positive, merged⟩ := exists_heads_joined horizon path fan
      exact ⟨outlook, heads, merged.symm, by rw [exhausted]; rfl, positive⟩

/-- **A turn of a run within its limit passes on an outlook**, if the walk has one after it. -/
theorem turns_hindsight (blind : launch.graph.StepBlind) (tidy : Walk.Every (fun _ => Tidy launch.graph) path walk)
    (live : after.1.cancelled = []) (kept : ∀ bound, own = some bound → after.1.drawn ≤ bound) (holds : Holds walk held)
    (within : ∀ number ∈ held, 1 ≤ number ∧ number ≤ horizon)
    (turns : Walk.Turns (launch.limited own) path shared walk after)
    (h : Heads (launch.limited limit) horizon path after.2 next) :
    ∃ outlook, Heads (launch.limited limit) horizon path walk outlook ∧ outlook.Passes shared after.1 next := by
  induction turns generalizing next held with
  | act acts => exact acts_hindsight blind tidy.root live kept holds within acts h
  | @receive path shared branches pending gather slot id index ending there waiting =>
    cases h with
    | joining length heads =>
      refine ⟨_, .joining length heads, ?_⟩
      rw [Gather.source_receive, Gather.targets_receive]
      exact Outlook.passes_receive waiting shared _ _ _
  | @within path shared branches pending gather slot branch after there _ ih =>
    have lt : slot < branches.length := (List.getElem?_eq_some_iff.1 there).1
    cases holds with
    | none _ whole => exact absurd rfl (whole _ _ _)
    | @joining _ _ _ lots same each =>
      cases h with
      | @joining _ _ _ _ outlooks length heads =>
        have listed : lots[slot]? = some lots[slot] := List.getElem?_eq_getElem (same ▸ lt)
        have aimed : slot < outlooks.length := by simpa [length] using lt
        have aim : outlooks[slot]? = some outlooks[slot] := List.getElem?_eq_getElem aimed
        have head := heads slot { branch with walk := after.2 } _ (List.getElem?_set_self lt) aim
        have mine : ∀ number ∈ lots[slot], 1 ≤ number ∧ number ≤ horizon :=
          fun number mem => within number (List.mem_flatten_of_mem (List.mem_of_getElem? listed) mem)
        obtain ⟨before, earlier, passes⟩ :=
          ih (tidy.inside branch (List.mem_of_getElem? there)) live kept (each slot branch _ there listed) mine head
        have again : ∀ (other : Nat) one outlook,
            ((branches.set slot { branch with walk := after.2 }).set slot branch)[other]? = some one →
            (outlooks.set slot before)[other]? = some outlook →
            Heads (launch.limited limit) horizon (path ++ [one.index]) one.walk outlook := agree_set heads earlier
        rw [List.set_set, set_of_getElem? there] at again
        have put : (outlooks.set slot before)[slot]? = some before := List.getElem?_set_self aimed
        have back := passes.join put gather.source gather.targets pending.length
        rw [List.set_set, set_of_getElem? aim] at back
        exact ⟨_, .joining (by simpa using length) again, back⟩

end

/-! ## Runs -/

/-- **A run that has concluded within its limit had an outlook from its start.** Whatever the limit of another run, the
outlook is one of that run as well. -/
theorem moves_hindsight (blind : launch.graph.StepBlind) (limit : Option Nat) {schedule : List Move}
    {state final : RunState} {ending : Ending}
    (tidy : Walk.Every (fun _ => Tidy (launch.limited own).graph) [] state.walk) {held lost : List Nat}
    (numbered : Numbered (launch.limited own).config state held lost)
    (h : state.moves (launch.limited own) schedule = some final) (live : final.shared.cancelled = [])
    (kept : ∀ bound, own = some bound → final.shared.drawn ≤ bound) (ended : final.walk = .ended ending) :
    ∃ outlook, Foreseen (launch.limited limit) ⟨final.shared.drawn, ending⟩ state outlook := by
  induction schedule generalizing state held lost with
  | nil =>
    cases h
    refine ⟨⟨0, 0, ending⟩, ?_, rfl, rfl, tidy⟩
    rw [ended]
    exact .ended
  | cons move rest ih =>
    obtain ⟨result, turns, calm, h⟩ := RunState.moves_cons_live h live
    obtain ⟨later, more, carried⟩ := turns_numbered tidy turns numbered
    obtain ⟨next, heads, same, steps, -⟩ := ih (turns_tidy turns tidy) carried h
    have grown : result.1.drawn ≤ final.shared.drawn := Nat.le_trans (Nat.le_add_right _ _) (Nat.le_of_eq steps)
    have within : ∀ number ∈ held, 1 ≤ number ∧ number ≤ final.shared.drawn := by
      intro number mem
      have drawn := numbered.drawn.2 number (List.mem_append_right _ mem)
      have before := (Walk.turns_grows turns).drawn
      omega
    obtain ⟨outlook, earlier, passes⟩ := turns_hindsight blind tidy calm
      (fun bound set => Nat.le_trans grown (kept bound set)) numbered.holds within turns heads
    exact ⟨outlook, earlier, passes.ending.symm.trans same, passes.steps.symm.trans steps, tidy⟩

/-- From its start, the run under any limit has an outlook that agrees with a run that has kept to its own limit. -/
theorem start_hindsight_within (blind : launch.graph.StepBlind) (limit : Option Nat) {schedule : List Move}
    {final : RunState} {ending : Ending}
    (h : (RunState.start (launch.limited own)).moves (launch.limited own) schedule = some final)
    (live : final.shared.cancelled = []) (kept : ∀ bound, own = some bound → final.shared.drawn ≤ bound)
    (ended : final.walk = .ended ending) :
    ∃ outlook, Foreseen (launch.limited limit) ⟨final.shared.drawn, ending⟩
      (RunState.start (launch.limited limit)) outlook := by
  have start := @moves_tidy (launch.limited own) [] _ rfl
  obtain ⟨held, lost, numbered⟩ := @moves_numbered (launch.limited own) _ [] rfl
  exact moves_hindsight blind limit start numbered h live kept ended

/-- From its start, the run under any limit has an outlook that agrees with the run without one. -/
theorem start_hindsight (blind : launch.graph.StepBlind) (limit : Option Nat) {schedule : List Move} {final : RunState}
    {ending : Ending} (h : (RunState.start (launch.limited none)).moves (launch.limited none) schedule = some final)
    (live : final.shared.cancelled = []) (ended : final.walk = .ended ending) :
    ∃ outlook, Foreseen (launch.limited limit) ⟨final.shared.drawn, ending⟩
      (RunState.start (launch.limited limit)) outlook :=
  start_hindsight_within blind limit h live nofun ended

end

end StepFlow
