/-
What the journal records of a run without cancellation.

`Recorded` ties a walk in progress to the entries that it has left: none while it has neither split nor ended, those of
its branches once it has split, and a whole course once it has ended. Results:
- `turns_recorded`: a turn adds the same entries to the walk and to the journal;
- `moves_faithful`: of a run without cancellation, the journal records exactly what its walk has done.
-/
import StepFlow.Proofs.Run.Course

namespace StepFlow

/-- a walk with the splits and ends that it has left in the journal, its own and those of its branches -/
inductive Recorded (graph : Orchestration) : Path → Walk → List Event → Prop where
  | going {path : Path} {walk : Walk} : (∀ ending, walk ≠ .ended ending) →
      (∀ branches pending gather, walk ≠ .joining branches pending gather) → Recorded graph path walk []
  | joining {path : Path} {branches : List (Branch Walk)} {pending : List TaskId} {gather : Gather}
      {records : List (List Event)} : records.length = branches.length →
      (∀ (slot : Nat) branch events, branches[slot]? = some branch → records[slot]? = some events →
        Recorded graph (path ++ [branch.index]) branch.walk events) →
      Recorded graph path (.joining branches pending gather)
        (.split path gather.source (branches.map Branch.index) :: records.flatten)
  | ended {path : Path} {ending : Ending} {events : List Event} :
      (∀ target, ∃ leaves, Course graph target path ending events leaves) →
      Recorded graph path (.ended ending) events

theorem flatten_set_perm {α : Type} {lists : List (List α)} {slot : Nat} {old new more : List α}
    (there : lists[slot]? = some old) (grown : new.Perm (more ++ old)) :
    (lists.set slot new).flatten.Perm (more ++ lists.flatten) := by
  obtain ⟨others, whole, changed⟩ := exists_flatten_perm there
  refine (changed new).trans ((grown.append_right others).trans ?_)
  rw [List.append_assoc]
  exact (whole.symm).append_left more

section

variable {launch : Launch}

/-! ## Ends -/

theorem Along.final {graph : Orchestration} {source : NodeId} {advancer : Advancer} {value : Value} {route : Route}
    (h : Along graph source advancer value route) (path : Path) {ending : Ending} (stops : route = .stop ending) :
    Final path ending := by
  cases h with
  | missing _ => cases stops; exact .failed rfl
  | panicked _ _ => cases stops; exact .panicked
  | refused _ _ => cases stops; exact .failed rfl
  | delivered _ _ => cases stops

theorem isSingle_violation {config : Config} {node : Node} {port : Port} {value : Value} {failure : Failure}
    (h : config.violation node port value = some failure) : failure.isSingle = true := by
  simp only [Config.violation, Option.ite_none_right_eq_some] at h
  obtain ⟨-, same⟩ := h
  cases same
  rfl

theorem Responds.final {node : Node} {path : Path} {completion : Completion} {route : Route}
    (h : Responds launch node path completion route) {ending : Ending} (stops : route = .stop ending) :
    Final path ending := by
  cases h with
  | panicked => cases stops; exact .failed rfl
  | failed => cases stops; exact .failed rfl
  | violated violates => cases stops; exact .failed (isSingle_violation violates)
  | result _ _ => cases stops; exact .output
  | guard _ _ _ => cases stops; exact .panicked
  | rest _ _ _ _ => cases stops; exact .output
  | stuck _ _ _ _ => cases stops; exact .failed rfl
  | along _ _ _ along => exact along.final path stops
  | split _ _ _ _ => cases stops

/-! ## Turns -/

/-- after a turn, the walk has the new splits and ends of the journal added to those it had -/
def Records (graph : Orchestration) (path : Path) (shared : Shared) (events : List Event) (after : Shared × Walk) :
    Prop :=
  ∃ new later, after.1.journal = new ++ shared.journal ∧ Recorded graph path after.2 later ∧
    later.Perm (new.filter Event.isLandmark ++ events)

theorem close_records {graph : Orchestration} {path : Path} {ending : Ending} (final : Final path ending)
    (shared : Shared) : Records graph path shared [] (Walk.close path shared ending) :=
  ⟨[.ended path ending], [.ended path ending], rfl, .ended fun _ => ⟨_, .leaf final⟩, .refl _⟩

theorem follow_records {graph : Orchestration} {path : Path} {source : NodeId} {route : Route}
    (final : ∀ ending, route = .stop ending → Final path ending) (shared : Shared) :
    Records graph path shared [] (Walk.follow path shared source route) := by
  cases route with
  | stop ending => exact close_records (final ending rfl) shared
  | move advancer delivered =>
    exact ⟨[.moved path source advancer delivered], [], rfl, .going (by simp [Walk.follow]) (by simp [Walk.follow]), .nil⟩
  | split value fired =>
    have opened := Walk.getElem?_branches_fanOut path shared source value fired
    have indices := Walk.map_index_branches_fanOut path shared source value fired
    have unrecorded : (fired.map fun _ => ([] : List Event)).flatten = [] := by simp
    have recorded : Recorded graph path (Walk.fanOut path shared source value fired).2
        (.split path source (fired.map Prod.fst) :: (fired.map fun _ => ([] : List Event)).flatten) := by
      rw [← indices]
      refine .joining (by simp) fun slot branch events there aim => ?_
      have indexed : some branch = _ := there.symm.trans (opened slot)
      obtain ⟨one, -, rfl⟩ := Option.map_eq_some_iff.1 indexed.symm
      rw [List.getElem?_map] at aim
      obtain ⟨_, -, rfl⟩ := Option.map_eq_some_iff.1 aim
      exact .going (by simp) (by simp)
    rw [unrecorded] at recorded
    exact ⟨[.split path source (fired.map Prod.fst)], _, rfl, recorded, .refl _⟩

/-- What is put into the journal beside splits and ends is not recorded. -/
theorem Records.after {graph : Orchestration} {path : Path} {shared middle : Shared} {events : List Event}
    {after : Shared × Walk} {more : List Event} (h : Records graph path middle events after)
    (journal : middle.journal = more ++ shared.journal) (ordinary : ∀ event ∈ more, event.isLandmark = false) :
    Records graph path shared events after := by
  obtain ⟨new, later, same, recorded, perm⟩ := h
  have nothing : more.filter Event.isLandmark = [] :=
    List.filter_eq_nil_iff.2 fun event mem => by simp [ordinary event mem]
  refine ⟨new ++ more, later, by rw [same, journal, List.append_assoc], recorded, ?_⟩
  rwa [List.filter_append, nothing, List.append_nil]

theorem going_records {graph : Orchestration} {path : Path} {shared : Shared} {after : Shared × Walk}
    (journal : after.1.journal = shared.journal) (unended : ∀ ending, after.2 ≠ .ended ending)
    (whole : ∀ branches pending gather, after.2 ≠ .joining branches pending gather) :
    Records graph path shared [] after :=
  ⟨[], [], journal, .going unended whole, .nil⟩

theorem Recorded.eq_nil {graph : Orchestration} {path : Path} {walk : Walk} {events : List Event}
    (h : Recorded graph path walk events) (unended : ∀ ending, walk ≠ .ended ending)
    (whole : ∀ branches pending gather, walk ≠ .joining branches pending gather) : events = [] := by
  cases h with
  | going _ _ => rfl
  | joining _ _ => exact absurd rfl (whole _ _ _)
  | ended _ => exact absurd rfl (unended _)

theorem exists_list {α : Type} {P : Nat → α → Prop} {length : Nat} (h : ∀ slot < length, ∃ x, P slot x) :
    ∃ xs : List α, xs.length = length ∧ ∀ (slot : Nat) x, xs[slot]? = some x → P slot x := by
  refine ⟨List.ofFn fun slot : Fin length => Classical.choose (h slot slot.isLt), List.length_ofFn, ?_⟩
  intro slot x indexed
  obtain ⟨lt, rfl⟩ := List.getElem?_eq_some_iff.1 indexed
  rw [List.getElem_ofFn]
  exact Classical.choose_spec (h slot (by simpa using lt))

theorem map_eq_map_of_slots {α β γ : Type} {xs : List α} {ys : List β} {f : α → γ} {g : β → γ}
    (length : xs.length = ys.length)
    (same : ∀ (slot : Nat) x y, xs[slot]? = some x → ys[slot]? = some y → f x = g y) : xs.map f = ys.map g := by
  refine List.ext_getElem (by simpa using length) fun slot first second => ?_
  rw [List.getElem_map, List.getElem_map]
  exact same slot _ _ (List.getElem?_eq_getElem _) (List.getElem?_eq_getElem _)

theorem Recorded.exists_course {graph : Orchestration} {path : Path} {ending : Ending} {events : List Event}
    (h : Recorded graph path (.ended ending) events) (target : NodeId) :
    ∃ leaves, Course graph target path ending events leaves := by
  cases h with
  | going unended _ => exact absurd rfl (unended ending)
  | ended courses => exact courses target

/-- what a part of a course says about the branch in a slot of a fan-out -/
structure Part.Fits (graph : Orchestration) (node : Node) (path : Path) (branches : List (Branch Walk))
    (records : List (List Event)) (gather : Gather) (slot : Nat) (part : Part) : Prop where
  branch : ∃ id, branches[slot]? = some ⟨id, part.index, .ended part.ending⟩
  record : records[slot]? = some part.events
  leads : gather.targets[slot]? = some part.target
  advancer : ∃ advancer, node.advancers[part.index]? = some advancer ∧ part.target = advancer.target
  course : Course graph part.target (path ++ [part.index]) part.ending part.events part.leaves

/-- Once all of its branches have been received, there is a part for each of them. -/
theorem exists_parts {graph : Orchestration} {path : Path} {branches : List (Branch Walk)} {gather : Gather}
    {records : List (List Event)} (tidy : Joining graph branches [] gather) (length : records.length = branches.length)
    (recorded : ∀ (slot : Nat) branch events, branches[slot]? = some branch → records[slot]? = some events →
      Recorded graph (path ++ [branch.index]) branch.walk events) :
    ∃ (node : Node) (parts : List Part), graph.node? gather.source = some node ∧ parts.length = branches.length ∧
      ∀ (slot : Nat) part, parts[slot]? = some part → part.Fits graph node path branches records gather slot := by
  obtain ⟨node, found, advancers⟩ := tidy.source
  refine ⟨node, ?_⟩
  suffices parts : ∀ slot < branches.length, ∃ part : Part, part.Fits graph node path branches records gather slot by
    obtain ⟨parts, same, each⟩ := exists_list parts
    exact ⟨parts, found, same, each⟩
  intro slot lt
  have there : branches[slot]? = some branches[slot] := List.getElem?_eq_getElem lt
  have inRecords : slot < records.length := length ▸ lt
  have noted : records[slot]? = some records[slot] := List.getElem?_eq_getElem inRecords
  obtain ⟨final, ended, -⟩ := tidy.received slot _ there (by simp)
  obtain ⟨advancer, starts, leads⟩ := advancers slot _ there
  have record := recorded slot _ _ there noted
  generalize branches[slot] = branch at there ended starts record
  obtain ⟨id, index, walk⟩ := branch
  obtain rfl : walk = .ended final := ended
  obtain ⟨leaves, course⟩ := record.exists_course advancer.target
  exact ⟨⟨index, advancer.target, final, _, leaves⟩, ⟨id, there⟩, noted, leads, ⟨advancer, starts, rfl⟩, course⟩

/-- **A fan-out that merges has run its course.** -/
theorem merge_records {graph : Orchestration} {path : Path} {branches : List (Branch Walk)} {gather : Gather}
    {events : List Event} (tidy : Joining graph branches [] gather)
    (before : Recorded graph path (.joining branches [] gather) events) (shared : Shared) :
    Records graph path shared events (Walk.close path shared gather.ending) := by
  cases before with
  | going _ whole => exact absurd rfl (whole _ _ _)
  | @joining _ _ _ _ records length recorded =>
    obtain ⟨node, parts, found, same, each⟩ := exists_parts tidy length recorded
    have fits : ∀ part ∈ parts, ∃ slot, part.Fits graph node path branches records gather slot := by
      intro part mem
      obtain ⟨slot, indexed⟩ := List.mem_iff_getElem?.1 mem
      exact ⟨slot, each slot part indexed⟩
    have indices : branches.map Branch.index = parts.map Part.index := by
      refine map_eq_map_of_slots same.symm fun slot branch part there indexed => ?_
      obtain ⟨id, again⟩ := (each slot part indexed).branch
      exact congrArg Branch.index (Option.some.inj (there.symm.trans again))
    have gathered : records.flatten = parts.flatMap Part.events := by
      have lists : records.map id = parts.map Part.events :=
        map_eq_map_of_slots (length.trans same.symm) fun slot record part noted indexed =>
          Option.some.inj (noted.symm.trans (each slot part indexed).record)
      rw [List.map_id] at lists
      rw [lists, List.flatMap_def]
    have merged : gather.ending = Gather.merge gather.source (parts.map Part.result) := by
      refine tidy.ending (by simpa using same) fun slot branch target final there ended leads => ?_
      have lt : slot < parts.length := same ▸ (List.getElem?_eq_some_iff.1 there).1
      have indexed : parts[slot]? = some parts[slot] := List.getElem?_eq_getElem lt
      have fit := each slot _ indexed
      obtain ⟨id, again⟩ := fit.branch
      rw [Option.some.inj (there.symm.trans again)] at ended
      cases ended
      rw [List.getElem?_map, indexed, Option.some.inj (leads.symm.trans fit.leads)]
      rfl
    have increasing := tidy.ordered
    rw [indices] at increasing ⊢
    rw [gathered, merged]
    refine ⟨[.ended path _], _, rfl, .ended fun _ => ⟨_, .fork found increasing ?_ ?_⟩, .refl _⟩
    · intro part mem
      obtain ⟨slot, fit⟩ := fits part mem
      exact fit.advancer
    · intro part mem
      obtain ⟨slot, fit⟩ := fits part mem
      exact fit.course

/-- **An action is recorded as it is.** -/
theorem acts_recorded {path : Path} {shared : Shared} {walk : Walk} {after : Shared × Walk} {events : List Event}
    (tidy : Tidy launch.graph walk) (live : shared.cancelled = []) (acts : Walk.Acts launch path shared walk after)
    (before : Recorded launch.graph path walk events) : Records launch.graph path shared events after := by
  have calm : shared.isCancelled path = false := Shared.isCancelled_of_nil live path
  cases acts with
  | merge _ => exact merge_records tidy before shared
  | abandon cancelled => rw [calm] at cancelled; cases cancelled
  | stopped _ cancelled => rw [calm] at cancelled; cases cancelled
  | dismiss cancelled => rw [calm] at cancelled; cases cancelled
  | interrupt cancelled => rw [calm] at cancelled; cases cancelled
  | cross along =>
    obtain rfl := before.eq_nil (by simp) (by simp)
    exact follow_records (fun ending stops => along.final path stops) shared
  | @finish node completion route responds =>
    obtain rfl := before.eq_nil (by simp) (by simp)
    have journal : (shared.record (.returned path node.id completion)).journal =
        [.returned path node.id completion] ++ shared.journal := rfl
    have recorded : Records launch.graph path (shared.record (.returned path node.id completion)) []
        (Walk.follow path (shared.record (.returned path node.id completion)) node.id route) :=
      follow_records (fun ending stops => responds.final stops) _
    exact recorded.after journal (by simp [Event.isLandmark])
  | stray _ =>
    obtain rfl := before.eq_nil (by simp) (by simp)
    exact close_records (.failed rfl) shared
  | exceed _ =>
    obtain rfl := before.eq_nil (by simp) (by simp)
    exact close_records (.failed rfl) shared.counted
  | refuse _ violates =>
    obtain rfl := before.eq_nil (by simp) (by simp)
    exact close_records (.failed (isSingle_violation violates)) shared.counted
  | @begin node step value _ =>
    obtain rfl := before.eq_nil (by simp) (by simp)
    have journal : (shared.record (.started path node.id step)).journal =
        [.started path node.id step] ++ shared.journal := rfl
    have recorded : Records launch.graph path (shared.record (.started path node.id step)) []
        (shared.record (.started path node.id step),
          .busy node (node.step.run value { node := node.id, step := step, branch := path })) :=
      going_records rfl (by simp) (by simp)
    exact recorded.after journal (by simp [Event.isLandmark])
  | _ =>
    obtain rfl := before.eq_nil (by simp) (by simp)
    exact going_records (by simp) (by simp) (by simp)

/-- **A turn is recorded as it is.** -/
theorem turns_recorded {path : Path} {shared : Shared} {walk : Walk} {after : Shared × Walk} {events : List Event}
    (tidy : Walk.Every (fun _ => Tidy launch.graph) path walk) (live : shared.cancelled = [])
    (turns : Walk.Turns launch path shared walk after) (before : Recorded launch.graph path walk events) :
    Records launch.graph path shared events after := by
  induction turns generalizing events with
  | act acts => exact acts_recorded tidy.root live acts before
  | @receive path shared branches pending gather slot id index ending _ _ =>
    cases before with
    | going _ whole => exact absurd rfl (whole _ _ _)
    | @joining _ _ _ _ records length recorded =>
      refine ⟨[], _, rfl, .joining length recorded, ?_⟩
      rw [Gather.source_receive]
      exact .refl _
  | @within path shared branches pending gather slot branch after there _ ih =>
    cases before with
    | going _ whole => exact absurd rfl (whole _ _ _)
    | @joining _ _ _ _ records length recorded =>
      have lt : slot < records.length := length ▸ (List.getElem?_eq_some_iff.1 there).1
      have noted : records[slot]? = some records[slot] := List.getElem?_eq_getElem lt
      obtain ⟨new, later, journal, inner, perm⟩ :=
        ih (tidy.inside branch (List.mem_of_getElem? there)) live (recorded slot branch _ there noted)
      have indices : (branches.set slot { branch with walk := after.2 }).map Branch.index = branches.map Branch.index :=
        map_set_of_eq there rfl
      have kept : ∀ (other : Nat) one events, (branches.set slot { branch with walk := after.2 })[other]? = some one →
          (records.set slot later)[other]? = some events →
          Recorded launch.graph (path ++ [one.index]) one.walk events := agree_set recorded inner
      refine ⟨new, _, journal, .joining (by simpa using length) kept, ?_⟩
      rw [indices]
      exact ((flatten_set_perm noted perm).cons _).trans List.perm_middle.symm

/-- The fan-outs of a run are in order, and as long as no token is cancelled, the splits and ends in its journal are those
of its walk and of the branches within, each once. -/
def Faithful (graph : Orchestration) (state : RunState) : Prop :=
  Walk.Every (fun _ => Tidy graph) [] state.walk ∧ (state.shared.cancelled = [] →
    ∃ events, Recorded graph [] state.walk events ∧ events.Perm (state.shared.journal.filter Event.isLandmark))

/-- **The journal is faithful** at every point of every run that has an entry. -/
theorem moves_faithful (designated : launch.graph.entry ≠ none) {schedule : List Move} {state : RunState}
    (h : (RunState.start launch).moves launch schedule = some state) : Faithful launch.graph state := by
  refine RunState.moves_induction (P := Faithful launch.graph) (fun turns before => ?_)
    (fun branch before => ⟨before.1, fun calm => ?_⟩) h ?_
  · refine ⟨turns_tidy turns before.1, fun live => ?_⟩
    have calm := (Walk.turns_grows turns).cancelled_eq_nil live
    obtain ⟨events, recorded, perm⟩ := before.2 calm
    obtain ⟨new, later, journal, recorded, grown⟩ := turns_recorded before.1 calm turns recorded
    refine ⟨later, recorded, ?_⟩
    rw [journal, List.filter_append]
    exact grown.trans (perm.append_left _)
  · cases calm
  · obtain ⟨entry, designated⟩ := Option.ne_none_iff_exists'.1 designated
    refine ⟨@moves_tidy launch [] _ rfl, fun _ => ⟨[], ?_, .nil⟩⟩
    simp only [RunState.start, designated]
    exact .going (by simp) (by simp)

end

end StepFlow
