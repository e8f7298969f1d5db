/-
What a cancelled token stops.

A token counts as cancelled once it, or that of a branch around it, has been cancelled, by a step or from outside, and stays
so. From then on no step is started on its branch or within, a fan-out there ends as cancelled whatever its branches have
handed in, and every walk there comes to its end within a bound. Results:
- `acts_starts`: an action starts a step only under a live token;
- `acts_ended`: how the end of a branch relates to its token;
- `turns_drain`, `exists_turn_of_cancelled`: under a cancelled token every turn leaves fewer, until the walk has ended;
- `cancellation_law`: all of this for every run, with its converse: a branch is cancelled only through a token of its own or
  of a branch around it.
-/
import Mathlib.Data.List.Perm.Subperm
import StepFlow.Proofs.Run.Accounting
import StepFlow.Proofs.Run.Orderly
import StepFlow.Proofs.Run.Outlook
import StepFlow.Proofs.Run.Refusals

namespace StepFlow

/-! ## Tokens -/

namespace Shared

theorem isCancelled_iff {shared : Shared} {path : Path} :
    shared.isCancelled path = true ↔ ∃ token ∈ shared.cancelled, token <+: path := by
  simp [isCancelled, List.any_eq_true]

theorem isCancelled_mono {old new : Shared} {path : Path} (grown : old.cancelled <:+ new.cancelled)
    (h : old.isCancelled path = true) : new.isCancelled path = true := by
  obtain ⟨token, mem, around⟩ := isCancelled_iff.1 h
  exact isCancelled_iff.2 ⟨token, grown.subset mem, around⟩

/-- Cancelling a branch reaches everything within it. -/
theorem isCancelled_within {shared : Shared} {path inner : Path} (h : shared.isCancelled path = true)
    (within : path <+: inner) : shared.isCancelled inner = true := by
  obtain ⟨token, mem, around⟩ := isCancelled_iff.1 h
  exact isCancelled_iff.2 ⟨token, mem, around.trans within⟩

/-- Cancelling a branch does not reach the branches beside it. -/
theorem isCancelled_cancel_beside (shared : Shared) {path rest : Path} {index other : Nat} (apart : index ≠ other) :
    (shared.cancel (path ++ [index])).isCancelled (path ++ other :: rest) = shared.isCancelled (path ++ other :: rest) := by
  have outside : (path ++ [index]).isPrefixOf (path ++ other :: rest) = false := by
    rw [Bool.eq_false_iff]
    intro inside
    have second : path ++ [other] <+: path ++ other :: rest := ⟨rest, by simp⟩
    exact apart (index_unique (List.isPrefixOf_iff_prefix.1 inside) second)
  simp only [isCancelled, cancel, List.any_cons, outside, Bool.false_or]

end Shared

/-! ## Starts and ends -/

theorem Along.ne_cancelled {graph : Orchestration} {source : NodeId} {advancer : Advancer} {value : Value} {route : Route}
    (h : Along graph source advancer value route) (node : NodeId) : route ≠ .stop (.failed (.cancelled node)) := by
  cases h <;> simp

theorem Config.violation_ne_cancelled (config : Config) (node : Node) (port : Port) (value : Value) (id : NodeId) :
    config.violation node port value ≠ some (.cancelled id) := by
  simp [Config.violation]

theorem Responds.ne_cancelled {launch : Launch} {node : Node} {path : Path} {completion : Completion} {route : Route}
    (h : Responds launch node path completion route) (id : NodeId) : route ≠ .stop (.failed (.cancelled id)) := by
  cases h with
  | along _ _ _ along => exact along.ne_cancelled id
  | violated violates =>
    rintro same
    cases same
    exact launch.config.violation_ne_cancelled node .output _ id violates
  | _ => simp

/-- how the end of a branch relates to its token: as cancelled it ends only under a cancelled token, at the node where it
had split if it had; and once it had split it ends otherwise only under a live one -/
inductive Closes (shared : Shared) (path : Path) (earlier : List Event) : Ending → Prop where
  | cut {node : NodeId} : shared.isCancelled path = true → (∀ source fired, .split path source fired ∈ earlier → source = node) →
      Closes shared path earlier (.failed (.cancelled node))
  | own {ending : Ending} : (∀ node, ending ≠ .failed (.cancelled node)) →
      (∀ source fired, .split path source fired ∈ earlier → shared.isCancelled path = false) →
      Closes shared path earlier ending

section

variable {launch : Launch} {path : Path} {shared : Shared} {walk : Walk} {after : Shared × Walk}

/-- **An action starts a step only under a live token.** -/
theorem acts_starts (h : Walk.Acts launch path shared walk after) :
    ∃ events, after.1.journal = events ++ shared.journal ∧
      ∀ branch node step, .started branch node step ∈ events → shared.isCancelled branch = false := by
  have nothing : after.1.journal = shared.journal → ∃ events, after.1.journal = events ++ shared.journal ∧
      ∀ branch node step, .started branch node step ∈ events → shared.isCancelled branch = false :=
    fun same => ⟨[], same, by simp⟩
  cases h with
  | @cross source advancer value route _ =>
    refine ⟨[route.event path source], Walk.journal_follow .., fun branch node step mem => ?_⟩
    cases route <;> simp [Route.event] at mem
  | @finish node completion route _ =>
    refine ⟨[route.event path node.id, .returned path node.id completion], Walk.journal_follow .., ?_⟩
    intro branch id step mem
    cases route <;> simp [Route.event] at mem
  | @begin node step value live =>
    refine ⟨[.started path node.id step], rfl, fun branch id number mem => ?_⟩
    cases List.mem_singleton.1 mem
    exact live
  | cancel => exact nothing (Shared.journal_cancelScope ..)
  | pass _ _ | number _ _ | pause | observe | hang | resume _ _ => exact nothing rfl
  | stray _ | stopped _ _ | exceed _ | refuse _ _ | dismiss _ | interrupt _ | abandon _ | merge _ =>
    exact ⟨[.ended path _], rfl, by simp⟩

/-- A walk that has not split fails as it does, whether its token is live or not. -/
theorem Closes.of_unsplit {earlier : List Event} {ending : Ending}
    (unsplit : ∀ source fired, .split path source fired ∉ earlier)
    (caused : ∀ node, ending = .failed (.cancelled node) → shared.isCancelled path = true) :
    Closes shared path earlier ending := by
  by_cases kind : ∃ node, ending = .failed (.cancelled node)
  · obtain ⟨node, rfl⟩ := kind
    exact .cut (caused node rfl) fun source fired split => absurd split (unsplit source fired)
  · exact .own (fun node same => kind ⟨node, same⟩) fun source fired split => absurd split (unsplit source fired)

/-- **How an action ends a branch.** -/
theorem acts_ended (settled : Settled launch shared path walk) (h : Walk.Acts launch path shared walk after) {place : Path}
    {ending : Ending} {earlier : List Event} (noted : .ended place ending :: earlier <:+ after.1.journal) :
    .ended place ending :: earlier <:+ shared.journal ∨ place = path ∧ Closes shared path earlier ending := by
  have fails : ∀ {failure : Failure}, (∀ source fired, .split path source fired ∉ shared.journal) →
      (∀ node, failure = .cancelled node → shared.isCancelled path = true) →
      .ended place ending :: earlier <:+ .ended path (.failed failure) :: shared.journal →
      .ended place ending :: earlier <:+ shared.journal ∨ place = path ∧ Closes shared path earlier ending := by
    intro failure unsplit caused noted
    have closed : .ended place ending :: earlier <:+ (Walk.close path shared (.failed failure)).1.journal := noted
    refine (suffix_close closed).imp_right ?_
    rintro ⟨here, rfl, rfl⟩
    exact ⟨here, .of_unsplit unsplit fun node same => caused node (Ending.failed.inj same)⟩
  cases h with
  | cross along =>
    refine (suffix_follow noted).imp_right ?_
    rintro ⟨here, rfl, rfl⟩
    refine ⟨here, .of_unsplit (fun source fired split => ?_) fun node same => ?_⟩
    · exact settled.2 _ split (List.prefix_refl path)
    · exact absurd (same ▸ rfl) (along.ne_cancelled node)
  | @finish node completion route responds =>
    have going : Going (.returned path node.id completion :: shared.journal) path := Going.cons settled rfl rfl
    rcases suffix_follow noted with before | ⟨here, rfl, rfl⟩
    · exact Or.inl (suffix_ordinary rfl before)
    · refine Or.inr ⟨here, .of_unsplit going.unsplit fun id same => ?_⟩
      exact absurd (same ▸ rfl) (responds.ne_cancelled id)
  | stray _ => exact fails (Going.unsplit settled) (by simp) noted
  | exceed _ => exact fails (Going.unsplit settled) (by simp) noted
  | refuse _ violates =>
    refine fails (Going.unsplit settled) (fun id same => ?_) noted
    exact absurd (same ▸ violates) (launch.config.violation_ne_cancelled _ _ _ id)
  | stopped _ cancelled => exact fails (Going.unsplit settled) (fun _ _ => cancelled) noted
  | dismiss cancelled => exact fails (Going.unsplit settled) (fun _ _ => cancelled) noted
  | interrupt cancelled => exact fails (Going.unsplit settled) (fun _ _ => cancelled) noted
  | abandon cancelled =>
    refine (suffix_close noted).imp_right ?_
    rintro ⟨here, rfl, rfl⟩
    exact ⟨here, .cut cancelled fun source fired split => (settled.once source fired split).1.symm ▸ rfl⟩
  | @merge branches gather live =>
    refine (suffix_close noted).imp_right ?_
    rintro ⟨here, rfl, same⟩
    refine ⟨here, .own (fun node cut => ?_) fun _ _ _ => live⟩
    obtain ⟨failures, completed, parallel, -⟩ := Gather.ending_eq_failed (same.trans cut)
    cases parallel
  | begin _ => exact Or.inl (suffix_ordinary rfl noted)
  | cancel => exact Or.inl (by simpa using noted)
  | pass _ _ | number _ _ | pause | observe | hang | resume _ _ => exact Or.inl noted

end

/-! ## The end of everything -/

/-- the most actions of an activity until it ends or suspends itself -/
def Activity.burst : Activity → Nat
  | .finish _ => 1
  | .pause _ => 1
  | .cancel _ next => next.burst + 1
  | .observe next => max (next true).burst (next false).burst + 1
  | .hang => 1

theorem Activity.burst_observe_le (next : Bool → Activity) (cancelled : Bool) :
    (next cancelled).burst < (Activity.observe next).burst := by
  rw [Activity.burst]
  cases cancelled <;> omega

mutual

/-- the most turns that a walk takes under a cancelled token -/
def Walk.drain : Walk → Nat
  | .crossing _ _ _ => 2
  | .arriving _ _ => 1
  | .admitted _ _ => 2
  | .ready _ _ _ => 1
  | .busy node activity => activity.burst + 3 * node.advancers.length + 1
  | .suspended _ _ => 1
  | .joining branches pending _ => drainAll branches + pending.length + 1
  | .ended _ => 0

def drainAll : List (Branch Walk) → Nat
  | [] => 0
  | ⟨_, _, walk⟩ :: rest => Walk.drain walk + drainAll rest

end

theorem drainAll_eq (branches : List (Branch Walk)) : drainAll branches = (branches.map fun branch => branch.walk.drain).sum := by
  induction branches with
  | nil => rfl
  | cons branch rest ih => rw [drainAll, ih, List.map_cons, List.sum_cons]

section

variable {launch : Launch} {path : Path} {shared : Shared} {walk : Walk} {after : Shared × Walk}

theorem drain_fanOut (shared : Shared) (source : NodeId) (value : Value) (fired : List (Nat × Advancer)) :
    (Walk.fanOut path shared source value fired).2.drain = 3 * fired.length + 1 := by
  have each : ∀ (ids : List TaskId), ids.length = fired.length →
      drainAll (List.zipWith (fun id (one : Nat × Advancer) => ⟨id, one.1, .crossing source one.2 value⟩) ids fired) =
        2 * fired.length := by
    intro ids length
    induction fired generalizing ids with
    | nil => rw [List.zipWith_nil_right]; rfl
    | cons one rest ih =>
      obtain ⟨id, more, rfl⟩ := List.exists_cons_of_length_eq_add_one length
      rw [List.zipWith_cons_cons, drainAll, ih more (by simpa using length), Walk.drain, List.length_cons]
      omega
  simp only [Walk.fanOut, Walk.drain, each _ List.length_range', List.length_range']
  omega

/-- **Under a cancelled token every action leaves fewer.** -/
theorem acts_drain (cancelled : shared.isCancelled path = true) (h : Walk.Acts launch path shared walk after) :
    after.2.drain < walk.drain := by
  cases h with
  | @cross source advancer value route along =>
    cases along with
    | delivered _ _ => simp [Walk.follow, Walk.drain]
    | _ => simp [Walk.follow, Walk.close, Walk.drain]
  | @finish node completion route responds =>
    cases route with
    | stop ending => simp [Walk.follow, Walk.close, Walk.drain]
    | move advancer delivered =>
      simp only [Walk.follow, Walk.drain, Activity.burst]
      omega
    | split value fired =>
      obtain ⟨fires, -⟩ := responds.splits value fired rfl
      have fewer := (Node.fired_spec fires).1.length_le
      simp only [Walk.follow, drain_fanOut, Walk.drain, Activity.burst]
      omega
  | pass _ live => rw [cancelled] at live; cases live
  | begin live => rw [cancelled] at live; cases live
  | resume live _ => rw [cancelled] at live; cases live
  | number _ _ => simp [Walk.drain]
  | pause => simp only [Walk.drain, Activity.burst]; omega
  | cancel => simp only [Walk.drain, Activity.burst]; omega
  | @observe node next =>
    have fewer := Activity.burst_observe_le next (shared.isCancelled path)
    simp only [Walk.drain]
    omega
  | hang => simp only [Walk.drain, Activity.burst]; omega
  | _ => simp [Walk.fail, Walk.close, Walk.drain]

/-- **Under a cancelled token every turn leaves fewer**, wherever it is taken. -/
theorem turns_drain (cancelled : shared.isCancelled path = true) (h : Walk.Turns launch path shared walk after) :
    after.2.drain < walk.drain := by
  induction h with
  | act acts => exact acts_drain cancelled acts
  | @receive path shared branches pending gather slot id index ending _ waiting =>
    have fewer := List.length_erase_of_mem waiting
    have positive := List.length_pos_of_mem waiting
    simp only [Walk.drain]
    omega
  | @within path shared branches pending gather slot branch after there _ ih =>
    have fewer := ih (Shared.isCancelled_within cancelled (List.prefix_append path [branch.index]))
    have sum : ((branches.set slot { branch with walk := after.2 }).map fun one => one.walk.drain).sum +
        branch.walk.drain = (branches.map fun one => one.walk.drain).sum + after.2.drain :=
      sum_map_set (fun one : Branch Walk => one.walk.drain) there
    simp only [Walk.drain, drainAll_eq]
    omega

/-- **Under a cancelled token no walk is stuck** before its end. -/
theorem exists_turn_of_cancelled (tidy : Walk.Every (fun _ => Tidy launch.graph) path walk)
    (cancelled : shared.isCancelled path = true) (going : ∀ ending, walk ≠ .ended ending) :
    ∃ turn after, walk.turn launch turn path shared = some after := by
  have reached : Walk.Every (fun inner _ => shared.isCancelled inner = true) path walk := by
    clear going
    induction tidy with
    | @intro path walk _ _ ih =>
      refine .intro cancelled fun branch mem => ih branch mem ?_
      exact Shared.isCancelled_within cancelled (List.prefix_append path [branch.index])
  exact exists_turn_of_tidy tidy (reached.mono fun _ _ token _ _ => token) going

end

/-! ## Runs -/

def Move.isTurn : Move → Bool
  | .turn _ => true
  | .cancel _ => false

section

variable {launch : Launch} {more : List Move} {state after : RunState} {path : Path}

theorem Known.starts (known : Known launch state) {next : Shared × Walk}
    (turns : Walk.Turns launch [] state.shared state.walk next) : ∃ events, next.1.journal = events ++ state.shared.journal ∧
      ∀ branch node step, .started branch node step ∈ events → state.shared.isCancelled branch = false := by
  rcases turns.action known.tidy with same | ⟨inner, one, result, -, acts, same⟩
  · exact ⟨[], by rw [same]; rfl, by simp⟩
  · rw [same]
    exact acts_starts acts

theorem Known.ends (known : Known launch state) {next : Shared × Walk}
    (turns : Walk.Turns launch [] state.shared state.walk next) {ending : Ending} {earlier : List Event}
    (noted : .ended path ending :: earlier <:+ next.1.journal) :
    .ended path ending :: earlier <:+ state.shared.journal ∨ Closes state.shared path earlier ending := by
  rcases turns.action known.settled with same | ⟨inner, one, result, settled, acts, same⟩
  · exact Or.inl (same ▸ noted)
  · rw [same] at noted
    refine (acts_ended settled acts noted).imp_right ?_
    rintro ⟨rfl, closes⟩
    exact closes

/-- **Nothing is started any more** under a cancelled token. -/
theorem moves_quiet (known : Known launch state) (h : state.moves launch more = some after)
    (cancelled : state.shared.isCancelled path = true) :
    ∃ events, after.shared.journal = events ++ state.shared.journal ∧
      ∀ branch node step, .started branch node step ∈ events → ¬path <+: branch := by
  refine (moves_induction_known (P := fun later => later.shared.isCancelled path = true ∧
    ∃ events, later.shared.journal = events ++ state.shared.journal ∧
      ∀ branch node step, .started branch node step ∈ events → ¬path <+: branch) ?_ ?_ h known
    ⟨cancelled, [], rfl, by simp⟩).2.2
  · rintro later next known turns ⟨cancelled, events, journal, quiet⟩
    refine ⟨Shared.isCancelled_mono (Walk.turns_grows turns).cancelled cancelled, ?_⟩
    obtain ⟨new, grown, starts⟩ := known.starts turns
    refine ⟨new ++ events, by rw [grown, journal, List.append_assoc], fun branch node step mem within => ?_⟩
    rcases List.mem_append.1 mem with mem | mem
    · have live := starts branch node step mem
      rw [Shared.isCancelled_within cancelled within] at live
      cases live
    · exact quiet branch node step mem within
  · rintro later branch ⟨cancelled, noted⟩
    exact ⟨Shared.isCancelled_mono (List.suffix_cons _ _) cancelled, noted⟩

/-- **A fan-out under a cancelled token ends as cancelled**, whatever its branches have handed in. -/
theorem moves_abandoned (known : Known launch state) (h : state.moves launch more = some after)
    (cancelled : state.shared.isCancelled path = true) (unended : ∀ ending, .ended path ending ∉ state.shared.journal)
    {ending : Ending} {earlier : List Event} (noted : .ended path ending :: earlier <:+ after.shared.journal)
    {source : NodeId} {fired : List Nat} (split : .split path source fired ∈ earlier) :
    ending = .failed (.cancelled source) := by
  refine (moves_induction_known (P := fun later => later.shared.isCancelled path = true ∧ ∀ ending earlier,
    .ended path ending :: earlier <:+ later.shared.journal → ∀ source fired, .split path source fired ∈ earlier →
      ending = .failed (.cancelled source)) ?_ ?_ h known ⟨cancelled, ?_⟩).2.2 ending earlier noted source fired split
  · rintro later next known turns ⟨cancelled, before⟩
    refine ⟨Shared.isCancelled_mono (Walk.turns_grows turns).cancelled cancelled, ?_⟩
    intro ending earlier noted source fired split
    rcases known.ends turns noted with old | closes
    · exact before ending earlier old source fired split
    · cases closes with
      | cut _ blamed => rw [blamed source fired split]
      | own _ live =>
        have live := live source fired split
        rw [cancelled] at live
        cases live
  · rintro later branch ⟨cancelled, before⟩
    exact ⟨Shared.isCancelled_mono (List.suffix_cons _ _) cancelled, before⟩
  · exact fun ending earlier noted => absurd (noted.subset List.mem_cons_self) (unended ending)

/-- **A branch ends as cancelled only through its own token** or that of a branch around it. -/
theorem moves_caused {schedule : List Move} (h : (RunState.start launch).moves launch schedule = some state)
    {node : NodeId} (noted : .ended path (.failed (.cancelled node)) ∈ state.shared.journal) :
    state.shared.isCancelled path = true := by
  refine (moves_induction_known (P := fun state => ∀ path node,
    .ended path (.failed (.cancelled node)) ∈ state.shared.journal → state.shared.isCancelled path = true) ?_ ?_ h
    (known_start launch) ?_).2 path node noted
  · intro state next known turns before path node noted
    obtain ⟨earlier, noted⟩ := exists_suffix_of_mem noted
    refine Shared.isCancelled_mono (Walk.turns_grows turns).cancelled ?_
    rcases known.ends turns noted with old | closes
    · exact before path node (old.subset List.mem_cons_self)
    · cases closes with
      | cut cancelled _ => exact cancelled
      | own other _ => exact absurd rfl (other node)
  · exact fun branch before path node noted =>
      Shared.isCancelled_mono (List.suffix_cons _ _) (before path node noted)
  · intro path node noted
    cases noted

/-- **A run whose token is cancelled ends within a bound.** -/
theorem moves_drain (h : state.moves launch more = some after) (cancelled : state.shared.isCancelled [] = true) :
    more.countP Move.isTurn + after.walk.drain ≤ state.walk.drain := by
  induction more generalizing state with
  | nil =>
    cases h
    simp
  | cons move rest ih =>
    rw [RunState.moves_cons] at h
    obtain ⟨next, moved, h⟩ := Option.bind_eq_some_iff.1 h
    cases move with
    | turn turn =>
      obtain ⟨result, taken, rfl⟩ := Option.map_eq_some_iff.1 moved
      have turns := Walk.turns_of_turn taken
      have fewer := turns_drain cancelled turns
      have later := ih h (Shared.isCancelled_mono (Walk.turns_grows turns).cancelled cancelled)
      rw [List.countP_cons_of_pos rfl]
      simp only at later
      omega
    | cancel branch =>
      cases moved
      have later := @ih ⟨state.shared.cancel branch, state.walk⟩ h
        (Shared.isCancelled_mono (List.suffix_cons _ _) cancelled)
      rwa [List.countP_cons_of_neg (by simp [Move.isTurn])]

end

/-- what cancellation does to a run that goes from one state to another -/
structure CancellationLaw (launch : Launch) (state after : RunState) (more : List Move) : Prop where
  /-- under a cancelled token no step is started, on its branch or within -/
  quiet : ∀ path, state.shared.isCancelled path = true →
    ∃ events, after.shared.journal = events ++ state.shared.journal ∧
      ∀ branch node step, .started branch node step ∈ events → ¬path <+: branch
  /-- a branch under a cancelled token that splits, or had split without having ended, ends as cancelled there -/
  abandoned : ∀ path source fired ending, state.shared.isCancelled path = true →
    (∀ final, .ended path final ∉ state.shared.journal) → .split path source fired ∈ after.shared.journal →
      .ended path ending ∈ after.shared.journal → ending = .failed (.cancelled source)
  /-- a run under a cancelled token whose root splits, or had split, concludes as cancelled there -/
  root : state.shared.isCancelled [] = true → state.conclusion? launch = none →
    ∀ source fired, .split [] source fired ∈ after.shared.journal →
      ∀ conclusion, after.conclusion? launch = some conclusion → conclusion = .failed (.cancelled source)
  /-- a run under a cancelled token concludes: it can go on until it has, and not for long -/
  returns : state.shared.isCancelled [] = true → more.countP Move.isTurn ≤ state.walk.drain ∧
    (after.conclusion? launch = none → ∃ turn next, after.move launch (.turn turn) = some next)
  /-- a branch ends as cancelled only through a token of its own or of a branch around it -/
  caused : ∀ path node, .ended path (.failed (.cancelled node)) ∈ after.shared.journal →
    ∃ token ∈ after.shared.cancelled, token <+: path
  /-- every cancellation inside the failure of the run is that of a branch -/
  inside : ∀ failure, after.conclusion? launch = some (.failed failure) → ∀ node, failure.Includes (.cancelled node) →
    ∃ path, .ended path (.failed (.cancelled node)) ∈ after.shared.journal
  /-- cancelling a branch leaves the tokens of the branches beside it as they are -/
  beside : ∀ path index other rest, index ≠ other →
    (state.shared.cancel (path ++ [index])).isCancelled (path ++ other :: rest) =
      state.shared.isCancelled (path ++ other :: rest)

/-- **What a cancelled token stops**, from any state of any run on, under every schedule, whoever cancels what. -/
theorem cancellation_law {launch : Launch} {schedule more : List Move} {state after : RunState}
    (moved : (RunState.start launch).moves launch schedule = some state)
    (later : state.moves launch more = some after) : CancellationLaw launch state after more := by
  have known := moves_known moved
  have final : (RunState.start launch).moves launch (schedule ++ more) = some after := by
    rw [RunState.moves, List.foldlM_append]
    exact Option.bind_eq_some_iff.2 ⟨state, moved, later⟩
  have known' := moves_known final
  have abandoned : ∀ path source fired ending, state.shared.isCancelled path = true →
      (∀ final, .ended path final ∉ state.shared.journal) → .split path source fired ∈ after.shared.journal →
        .ended path ending ∈ after.shared.journal → ending = .failed (.cancelled source) := by
    intro path source fired ending cancelled unended split noted
    obtain ⟨earlier, noted⟩ := exists_suffix_of_mem noted
    exact moves_abandoned known later cancelled unended noted (known'.orderly.split_before_end split noted)
  refine ⟨fun path cancelled => moves_quiet known later cancelled, abandoned, ?_, ?_, ?_, ?_,
    fun path index other rest apart => Shared.isCancelled_cancel_beside state.shared apart⟩
  · intro cancelled going source fired split conclusion concluded
    obtain ⟨ending, ended, rfl⟩ := RunState.conclusion?_eq_some concluded
    have unended := unended_of_settled known.settled.root (RunState.unended_of_conclusion? going)
    have settled := known'.settled.root
    rw [ended] at settled
    have noted : .ended [] ending ∈ after.shared.journal := by
      refine settled.resolve_right fun unbegun => ?_
      rw [unbegun.2] at split
      cases split
    rw [abandoned [] source fired ending cancelled unended split noted]
    rfl
  · intro cancelled
    have bound := moves_drain later cancelled
    refine ⟨by omega, fun going => ?_⟩
    have unended := RunState.unended_of_conclusion? going
    have still := Shared.isCancelled_mono (RunState.moves_cancelled later) cancelled
    obtain ⟨turn, next, taken⟩ := exists_turn_of_cancelled known'.tidy still unended
    exact ⟨turn, ⟨next.1, next.2⟩, by rw [RunState.move, taken]; rfl⟩
  · exact fun path node noted => Shared.isCancelled_iff.1 (moves_caused final noted)
  · intro failure concluded node includes
    rcases conclusion_noted final concluded _ includes with noted | missing | ⟨id, text, panicked⟩
    · exact noted
    · cases missing
    · cases panicked

def revocableLaunch : Launch := { nestedLaunch with control := .caller false }

/-- The first branch comes to rest, and then whoever started the run cancels it. -/
def revokedSchedule : List Move :=
  List.replicate 4 (.turn .act) ++ List.replicate 5 (.turn (.within 0 .act)) ++ [.cancel []]

/-- The second branch takes its advancer and is stopped at the node it comes to. -/
def winding : List Move :=
  [.turn (.within 1 .act), .turn (.within 1 .act), .turn (.receive 0), .turn (.receive 1), .turn .act]

/-- The output of the first branch does not keep the run from being cancelled where it split. -/
theorem cancellation_law_fork :
    ∃ state after conclusion, (RunState.start revocableLaunch).moves revocableLaunch revokedSchedule = some state ∧
      state.moves revocableLaunch winding = some after ∧
      .ended [0] (.outputs [⟨⟨"b"⟩, .int 7, [0]⟩]) ∈ state.shared.journal ∧
      after.conclusion? revocableLaunch = some conclusion ∧ conclusion = .failed (.cancelled ⟨"a"⟩) ∧
      winding.countP Move.isTurn ≤ state.walk.drain := by
  obtain ⟨state, after, conclusion, moved, later, cancelled, going, split, reached, concluded⟩ :
      ∃ state after conclusion, (RunState.start revocableLaunch).moves revocableLaunch revokedSchedule = some state ∧
        state.moves revocableLaunch winding = some after ∧ state.shared.isCancelled [] = true ∧
        state.conclusion? revocableLaunch = none ∧ .split [] ⟨"a"⟩ [0, 1] ∈ after.shared.journal ∧
        .ended [0] (.outputs [⟨⟨"b"⟩, .int 7, [0]⟩]) ∈ state.shared.journal ∧
        after.conclusion? revocableLaunch = some conclusion := by
    exact ⟨_, _, _, rfl, rfl, rfl, rfl, List.mem_of_getElem? (i := 7) rfl, List.mem_cons_self, rfl⟩
  have law := cancellation_law moved later
  exact ⟨state, after, conclusion, moved, later, reached, concluded, law.root cancelled going _ _ split _ concluded,
    (law.returns cancelled).1⟩

end StepFlow
