/-
What becomes of a panic.

A step that panics fails at its own node. A guard or a converter that panics takes down the walk that ran it; `TakenDown`
says, of a journal, which walks that happens to, and to whom it is due. Inside a branch the fan-out around it catches the
panic, as a failure of the target of the advancer that the branch was started on, and waits for the other branches as
ever; only the walk at the root has nothing around it. Results:
- `Orderly.takenDown`, `Answered.ended_of_takenDown`: a branch ends with a panic exactly if its walk is taken down;
- `Course.reports`: what a branch fails with by itself is at the bottom of the failure of the run;
- `Course.siblings`: a fan-out waits for all of its branches, and what they yield is kept;
- `panics_contained`: what a run returns, and what it waits for, when user code panics.
-/
import StepFlow.Proofs.Run.Accounting
import StepFlow.Proofs.Run.Orderly

namespace StepFlow

/-! ## Walks that are taken down -/

/-- the step of a node returned a value on a branch, and the advancers of the node are looked at -/
structure Advances (launch : Launch) (journal : List Event) (path : Path) (node : Node) (output : Value) : Prop where
  found : launch.graph.node? node.id = some node
  returned : .returned path node.id (.value output) ∈ journal
  fits : launch.config.violation node .output output = none
  goes : launch.graph.result ≠ some node.id

/-- user code takes down the walk of a branch -/
inductive TakenDown (launch : Launch) (journal : List Event) : Path → Panic → Prop where
  /-- a guard, asked about what a step of the branch returned -/
  | guard {path : Path} {node : Node} {output : Value} {panic : Panic} : Advances launch journal path node output →
      Trips node.parallel output panic node.advancers → TakenDown launch journal path panic
  /-- the converter of the only advancer that fired on it -/
  | converter {path : Path} {node : Node} {output : Value} {index : Nat} {advancer : Advancer} {panic : Panic} :
      Advances launch journal path node output → node.fired output = .ok [(index, advancer)] →
      launch.graph.contains advancer.target = true → advancer.deliver output = .error panic →
      TakenDown launch journal path panic
  /-- the converter of the advancer that the branch was started on, before anything else happens to the branch -/
  | crossing {path : Path} {node : Node} {output : Value} {fired : List (Nat × Advancer)} {index : Nat}
      {advancer : Advancer} {panic : Panic} : Advances launch journal path node output →
      node.fired output = .ok fired → 2 ≤ fired.length → (index, advancer) ∈ fired →
      launch.graph.contains advancer.target = true → advancer.deliver output = .error panic →
      TakenDown launch journal (path ++ [index]) panic

theorem TakenDown.exists_event {launch : Launch} {journal : List Event} {path : Path} {panic : Panic}
    (h : TakenDown launch journal path panic) : ∃ event, event ∈ journal := by
  cases h with
  | guard advances _ => exact ⟨_, advances.returned⟩
  | converter advances _ _ _ => exact ⟨_, advances.returned⟩
  | crossing advances _ _ _ _ _ => exact ⟨_, advances.returned⟩

section

variable {launch : Launch} {journal : List Event} {path : Path} {panic : Panic}

/-- **Only a guard or a converter makes a branch end with a panic.** -/
theorem Orderly.takenDown (h : Orderly launch journal) (ended : .ended path (.panicked panic) ∈ journal) :
    TakenDown launch journal path panic := by
  obtain ⟨earlier, noted⟩ := exists_suffix_of_mem ended
  have before : earlier <:+ journal := (List.suffix_cons _ _).trans noted
  rcases (h _ _ noted).panicked path panic rfl with ⟨node, completion, rest, rfl, found, stops⟩ |
    ⟨source, advancer, value, opened, stops⟩
  · -- in answer to a step
    have returned : .returned path node.id completion ∈ journal := before.subset List.mem_cons_self
    have responds := respond_spec launch node path completion
    rw [stops] at responds
    cases responds with
    | guard fits goes trips => exact .guard ⟨found, returned, fits, goes⟩ (Node.fired_eq_error_iff.1 trips)
    | along fits goes fires along =>
      cases along with
      | panicked there panics => exact .converter ⟨found, returned, fits, goes⟩ fires there panics
  · -- right after it was started
    cases opened with
    | @intro outer node value fired index advancer rest found splits fires noted =>
      have returned : .returned outer node.id (.value value) ∈ journal :=
        (noted.trans before).subset (List.mem_cons_of_mem _ List.mem_cons_self)
      have along := along_spec launch.graph node.id advancer value
      rw [stops] at along
      have responds := respond_spec launch node outer (.value value)
      rw [splits] at responds
      cases responds with
      | along _ _ _ single => exact absurd rfl (single.ne_split value fired)
      | split fits goes all several =>
        cases along with
        | panicked there panics => exact .crossing ⟨found, returned, fits, goes⟩ all several fires there panics

theorem Answered.exists_answer (h : Answered launch journal) {node : Node} {completion : Completion}
    (found : launch.graph.node? node.id = some node) (returned : .returned path node.id completion ∈ journal) :
    ∃ earlier, (launch.respond node path completion).event path node.id :: .returned path node.id completion :: earlier <:+
      journal := by
  obtain ⟨earlier, noted⟩ := exists_suffix_of_mem returned
  obtain ⟨twin, there, answer⟩ := h path node.id completion earlier noted
  obtain rfl := Option.some.inj (found.symm.trans there)
  exact ⟨earlier, answer⟩

/-- Of a value that makes the walk split, every branch that has begun has taken its own advancer first. -/
theorem Answered.first_of_split (h : Answered launch journal) (orderly : Orderly launch journal) {node : Node}
    {output : Value} {fired : List (Nat × Advancer)} {index : Nat} {advancer : Advancer} {event : Event}
    (found : launch.graph.node? node.id = some node) (returned : .returned path node.id (.value output) ∈ journal)
    (splits : launch.respond node path (.value output) = .split output fired) (fires : (index, advancer) ∈ fired)
    (mem : event ∈ journal) (here : event.branch = path ++ [index]) :
    (launch.graph.along node.id advancer output).event (path ++ [index]) node.id ∈ journal := by
  obtain ⟨rest, answer⟩ := h.exists_answer found returned
  rw [splits] at answer
  obtain ⟨source, other, value, before, opened, first⟩ := orderly.opened (by simp) mem here
  obtain ⟨twin, positions, earlier, rfl, there, responds, among, noted⟩ := opened.exists_split
  -- the branch splits once, so that this is the split the branch was started by
  obtain ⟨-, -, same⟩ := orderly.split_unique answer (noted.trans ((List.suffix_cons _ _).trans first))
  obtain ⟨-, origin, completion⟩ := Event.returned.inj (List.cons.inj same).1
  obtain rfl := Completion.value.inj completion
  rw [← origin] at there
  obtain rfl := Option.some.inj (found.symm.trans there)
  obtain rfl := (Route.split.inj (splits.symm.trans responds)).2
  obtain ⟨all, -⟩ := (respond_spec launch node path (.value output)).splits output fired splits
  obtain rfl := (Node.fired_spec all).1.unique fires among
  exact first.subset List.mem_cons_self

/-- **A branch whose walk is taken down ends with the panic**, if every branch that was started has ended. -/
theorem Answered.ended_of_takenDown (h : Answered launch journal) (orderly : Orderly launch journal)
    (joined : ∀ path source fired, .split path source fired ∈ journal → ∀ index ∈ fired,
      ∃ ending, .ended (path ++ [index]) ending ∈ journal)
    (down : TakenDown launch journal path panic) : .ended path (.panicked panic) ∈ journal := by
  cases down with
  | @guard path node output panic advances trips =>
    obtain ⟨found, returned, fits, goes⟩ := advances
    obtain ⟨earlier, answer⟩ := h.exists_answer found returned
    rw [← (Responds.guard fits goes (Node.fired_eq_error_iff.2 trips)).eq] at answer
    exact answer.subset List.mem_cons_self
  | @converter path node output index advancer panic advances fires there panics =>
    obtain ⟨found, returned, fits, goes⟩ := advances
    obtain ⟨earlier, answer⟩ := h.exists_answer found returned
    rw [← (Responds.along fits goes fires (.panicked there panics)).eq] at answer
    exact answer.subset List.mem_cons_self
  | @crossing outer node output fired index advancer panic advances all several fires there panics =>
    obtain ⟨found, returned, fits, goes⟩ := advances
    have responds : Responds launch node outer (.value output) (.split output fired) := .split fits goes all several
    have splits := responds.eq.symm
    obtain ⟨earlier, answer⟩ := h.exists_answer found returned
    rw [splits] at answer
    obtain ⟨ending, ended⟩ := joined outer node.id _ (answer.subset List.mem_cons_self) index (List.mem_map_of_mem fires)
    have first := h.first_of_split orderly found returned splits fires ended rfl
    rw [← (Along.panicked there panics).eq] at first
    exact first

theorem Answered.ended_of_panicked (h : Answered launch journal) {id : NodeId}
    (returned : .returned path id (.panicked panic) ∈ journal) :
    .ended path (.failed (.panicked id panic.text)) ∈ journal := by
  obtain ⟨earlier, noted⟩ := exists_suffix_of_mem returned
  obtain ⟨node, found, answer⟩ := h path id (.panicked panic) earlier noted
  obtain rfl := Orchestration.id_of_node? found
  exact answer.subset List.mem_cons_self

end

/-! ## What the run reports -/

namespace Course

variable {graph : Orchestration} {target : NodeId} {root path : Path} {ending final : Ending} {events : List Event}
  {leaves : List Leaf}

/-- A branch that ended otherwise than a fan-out is a leaf, with what it handed on. -/
theorem exists_leaf (h : Course graph target root ending events leaves) (noted : .ended path final ∈ events)
    (other : ∀ source results, Gather.merge source results ≠ final) : ∃ leaf ∈ leaves,
      (path = root ∧ leaf.result = Sequential.branchResult target final) ∨
        ∃ aim, StartedOn graph events path aim ∧ leaf.result = Sequential.branchResult aim final := by
  rcases h.ended_cases noted with ⟨-, leaf, mem, rfl⟩ | ⟨source, fired, split⟩
  · obtain ⟨-, other, there, handed⟩ := h.of_mem_leaves leaf mem
    cases h.unique _ noted _ there rfl rfl
    exact ⟨leaf, mem, handed⟩
  · obtain ⟨parts, -, fork⟩ := h.fork_of_split split
    have same := h.unique _ noted _ fork.ended rfl rfl
    exact absurd (Event.ended.inj same).2.symm (other source _)

theorem eq_of_panicked {panic : Panic} (h : Course graph target root (.panicked panic) events leaves) :
    events = [.ended root (.panicked panic)] := by
  generalize same : Ending.panicked panic = ending at h
  cases h with
  | leaf _ => rfl
  | fork _ _ _ _ => exact absurd same.symm (merge_ne_panicked _ _ panic)

theorem ne_panicked (h : Course graph target root ending events leaves) {event : Event} (mem : event ∈ events)
    (other : ∀ panic, event ≠ .ended root (.panicked panic)) (panic : Panic) : ending ≠ .panicked panic := by
  rintro rfl
  rw [h.eq_of_panicked] at mem
  exact other panic (List.mem_singleton.1 mem)

/-- **The failure of a leaf is at the bottom of that of the run**, unless the run ends with a panic. -/
theorem reports (h : Course graph target root ending events leaves) (caught : ∀ panic, ending ≠ .panicked panic)
    {leaf : Leaf} (mem : leaf ∈ leaves) {failure : Failure} (failed : leaf.result = .error failure) :
    ∃ whole, ending = .failed whole ∧ failure ∈ whole.singles := by
  have among : failure ∈ leaves.filterMap Leaf.failure? :=
    List.mem_filterMap.2 ⟨leaf, mem, by rw [Leaf.failure?, failed, Gather.failure?]⟩
  rw [← h.singles] at among
  obtain ⟨whole, held, bottom⟩ := List.mem_flatMap.1 among
  cases ending with
  | outputs reached => cases held
  | failed other =>
    cases List.mem_singleton.1 held
    exact ⟨whole, rfl, bottom⟩
  | panicked panic => exact absurd rfl (caught panic)

/-- A branch that fails by itself has its failure at the bottom of that of the run, or alone if it is the root. -/
theorem reports_failed (h : Course graph target root ending events leaves) {failure : Failure}
    (noted : .ended path (.failed failure) ∈ events) (single : failure.isSingle = true) :
    ∃ whole, ending = .failed whole ∧ failure ∈ whole.singles ∧ (path = root → whole = failure) := by
  obtain ⟨leaf, mem, handed⟩ := h.exists_leaf noted fun source results => merge_ne_single source results single
  have failed : leaf.result = .error failure := by
    rcases handed with ⟨-, same⟩ | ⟨aim, -, same⟩
    · exact same
    · exact same
  obtain ⟨whole, rfl, bottom⟩ := h.reports (h.ne_panicked noted (by simp)) mem failed
  refine ⟨whole, rfl, bottom, ?_⟩
  rintro rfl
  cases h.unique _ h.ended_mem _ noted rfl rfl
  rfl

/-- A branch within that ends with a panic has it, as a failure of its target, at the bottom of the failure of the run. -/
theorem reports_panicked (h : Course graph target root ending events leaves) {panic : Panic}
    (noted : .ended path (.panicked panic) ∈ events) (inner : path ≠ root) : ∃ aim whole,
      StartedOn graph events path aim ∧ ending = .failed whole ∧ .panicked aim panic.text ∈ whole.singles := by
  obtain ⟨leaf, mem, ⟨same, -⟩ | ⟨aim, started, failed⟩⟩ :=
    h.exists_leaf noted fun source results => merge_ne_panicked source results panic
  · exact absurd same inner
  · obtain ⟨whole, rfl, bottom⟩ := h.reports (h.ne_panicked noted (by simp [inner])) mem failed
    exact ⟨aim, whole, started, rfl, bottom⟩

end Course

/-- The outputs of leaves that are within a path are those of the leaves within it. -/
theorem filter_outputs {leaves : List Leaf} (paths : ∀ leaf ∈ leaves, ∀ output ∈ leaf.outputs, output.path = leaf.path)
    (path : Path) : (leaves.flatMap Leaf.outputs).filter (fun output => path.isPrefixOf output.path) =
      (leaves.filter (Leaf.isWithin path)).flatMap Leaf.outputs := by
  induction leaves with
  | nil => rfl
  | cons leaf rest ih =>
    have same : ∀ output ∈ leaf.outputs, path.isPrefixOf output.path = leaf.isWithin path := by
      intro output held
      rw [paths leaf List.mem_cons_self output held, Leaf.isWithin]
    rw [List.flatMap_cons, List.filter_append, ih fun other mem => paths other (List.mem_cons_of_mem _ mem),
      List.filter_congr same]
    cases within : leaf.isWithin path with
    | true => simp [within]
    | false => simp [within]

/-- What a branch yields is found among what the run yields, at the paths within the branch. -/
theorem Fork.yields {graph : Orchestration} {target : NodeId} {root path : Path} {ending final : Ending}
    {events : List Event} {leaves : List Leaf} {source : NodeId} {parts : List Part} {index : Nat}
    (h : Fork graph events leaves path source parts) (course : Course graph target root ending events leaves)
    (among : index ∈ parts.map Part.index) (noted : .ended (path ++ [index]) final ∈ events) :
    ending.yields.filter (fun output => (path ++ [index]).isPrefixOf output.path) = final.yields := by
  obtain ⟨part, mem, rfl⟩ := List.mem_map.1 among
  have ended := h.inside part mem _ (h.courses part mem).ended_mem
  obtain rfl := (Event.ended.inj (course.unique _ noted _ ended rfl rfl)).2
  calc ending.yields.filter (fun output => (path ++ [part.index]).isPrefixOf output.path)
      = (leaves.flatMap Leaf.outputs).filter (fun output => (path ++ [part.index]).isPrefixOf output.path) := by
        rw [← course.contributed, contributed_branchResult]
    _ = (leaves.filter (Leaf.isWithin (path ++ [part.index]))).flatMap Leaf.outputs :=
        filter_outputs (fun leaf held output => course.path_of_mem_outputs held) _
    _ = part.leaves.flatMap Leaf.outputs := by rw [h.share_part mem]
    _ = part.ending.yields := by rw [← (h.courses part mem).contributed, contributed_branchResult]

theorem Orderly.exists_ended {launch : Launch} {journal : List Event} {path : Path} {source : NodeId} {fired : List Nat}
    {ending : Ending} (h : Orderly launch journal) (split : .split path source fired ∈ journal)
    (ended : .ended path ending ∈ journal) : ∃ earlier, .ended path ending :: earlier <:+ journal ∧
      ∀ index ∈ fired, ∃ final, .ended (path ++ [index]) final ∈ earlier := by
  obtain ⟨earlier, noted⟩ := exists_suffix_of_mem ended
  exact ⟨earlier, noted, (h _ _ noted).joined path ending source fired rfl (h.split_before_end split noted)⟩

section

variable {launch : Launch} {state : RunState} {target : NodeId} {path : Path} {ending : Ending} {events : List Event}
  {leaves : List Leaf}

/-- **In a run that has ended, a branch ends with a panic exactly if its walk was taken down.** -/
theorem Course.ended_iff_takenDown (h : Course launch.graph target [] ending events leaves) (known : Known launch state)
    (recorded : SameLandmarks events state.shared.journal) {panic : Panic} :
    .ended path (.panicked panic) ∈ state.shared.journal ↔ TakenDown launch state.shared.journal path panic := by
  refine ⟨known.orderly.takenDown, known.answered.ended_of_takenDown known.orderly ?_⟩
  intro path source fired split index mem
  obtain ⟨result, ending, aim, noted, -⟩ := h.exists_handsOn recorded split mem
  exact ⟨ending, noted⟩

/-- **No branch is given up for another**: a fan-out has waited for all of its branches, and what each of them yields is
among what the run yields. -/
theorem Course.siblings (h : Course launch.graph target [] ending events leaves) (known : Known launch state)
    (recorded : SameLandmarks events state.shared.journal) {source : NodeId} {fired : List Nat}
    (split : .split path source fired ∈ state.shared.journal) : ∃ final earlier,
      .ended path final :: earlier <:+ state.shared.journal ∧ ∀ index ∈ fired, ∃ final,
        .ended (path ++ [index]) final ∈ earlier ∧
          ending.yields.filter (fun output => (path ++ [index]).isPrefixOf output.path) = final.yields := by
  obtain ⟨parts, rfl, fork⟩ := h.fork_of_split (recorded.inEvents _ rfl split)
  obtain ⟨earlier, noted, all⟩ := known.orderly.exists_ended split (recorded.inJournal _ rfl fork.ended)
  refine ⟨_, earlier, noted, fun index mem => ?_⟩
  obtain ⟨final, before⟩ := all index mem
  have there := ((List.suffix_cons _ _).trans noted).subset before
  exact ⟨final, before, fork.yields h mem (recorded.inEvents _ rfl there)⟩

end

/-- what becomes of the panics of user code in a run that has come to its conclusion -/
structure Containment (launch : Launch) (journal : List Event) (conclusion : Conclusion) : Prop where
  /-- a panic escapes exactly if a guard or a converter takes down the walk at the root -/
  escapes : ∀ panic, conclusion = .panicked panic ↔ TakenDown launch journal [] panic
  /-- a step that panics is a failure of its node, wherever it runs -/
  steps : ∀ path id panic, .returned path id (.panicked panic) ∈ journal →
    .ended path (.failed (.panicked id panic.text)) ∈ journal ∧
      ∃ failure, conclusion = .failed failure ∧ .panicked id panic.text ∈ failure.singles ∧
        (path = [] → failure = .panicked id panic.text)
  /-- a guard or a converter that takes down the walk of a branch is a failure of the target of the advancer that the
  branch was started on -/
  branches : ∀ path index panic, TakenDown launch journal (path ++ [index]) panic →
    ∃ target, StartedOn launch.graph journal (path ++ [index]) target ∧
      HandsOn launch.graph journal (path ++ [index]) (.error (.panicked target panic.text)) ∧
      ∃ failure, conclusion = .failed failure ∧ .panicked target panic.text ∈ failure.singles
  /-- beside a failure, every fan-out has waited for all of its branches, and what they yielded has been kept -/
  siblings : ∀ failure, conclusion = .failed failure → ∀ path source fired, .split path source fired ∈ journal →
    ∃ ending earlier, .ended path ending :: earlier <:+ journal ∧
      ∀ index ∈ fired, ∃ final, .ended (path ++ [index]) final ∈ earlier ∧
        failure.partialOutputs.filter (fun output => (path ++ [index]).isPrefixOf output.path) = final.yields

/-- A run in which nothing has happened has no panic to contain. -/
theorem containment_nil {launch : Launch} {conclusion : Conclusion} (caught : ∀ panic, conclusion ≠ .panicked panic) :
    Containment launch [] conclusion := by
  refine ⟨fun panic => iff_of_false (caught panic) fun down => ?_, nofun, fun path index panic down => ?_, nofun⟩
  · obtain ⟨event, mem⟩ := down.exists_event
    cases mem
  · obtain ⟨event, mem⟩ := down.exists_event
    cases mem

/-- **Panics are contained.** Let a run without cancellation conclude, under any schedule. A panic escapes exactly if a
guard or a converter takes down the walk at the root. A step that panics is a failure of its node, with the text of the
panic; a guard or a converter that takes down the walk of a branch is a failure of the target of the advancer that the
branch was started on. Either failure is at the bottom of that of the run, whose fan-outs have all waited for all of their
branches, and kept what these yielded. -/
theorem panics_contained {launch : Launch} {schedule : List Move} {state : RunState} {conclusion : Conclusion}
    (moved : (RunState.start launch).moves launch schedule = some state) (live : state.shared.cancelled = [])
    (concluded : state.conclusion? launch = some conclusion) :
    Containment launch state.shared.journal conclusion := by
  obtain ⟨ending, ended, rfl⟩ := RunState.conclusion?_eq_some concluded
  cases designated : launch.graph.entry with
  | none =>
    obtain ⟨walk, empty⟩ := moves_without_entry designated moved
    cases ended.symm.trans walk
    rw [empty]
    exact containment_nil nofun
  | some entry =>
    have known := moves_known moved
    obtain ⟨events, leaves, course, recorded⟩ :=
      exists_course_of_ended (by simp [designated]) moved live ended entry
    refine ⟨fun panic => ?_, fun path id panic returned => ?_, fun path index panic down => ?_,
      fun failure failed path source fired split => ?_⟩
    · rw [← course.ended_iff_takenDown known recorded]
      constructor
      · intro escaped
        obtain rfl : ending = .panicked panic := by
          cases ending <;> cases escaped
          rfl
        exact recorded.inJournal _ rfl course.ended_mem
      · intro noted
        cases course.unique _ course.ended_mem _ (recorded.inEvents _ rfl noted) rfl rfl
        rfl
    · have noted := known.answered.ended_of_panicked returned
      obtain ⟨whole, rfl, bottom, root⟩ := course.reports_failed (recorded.inEvents _ rfl noted) rfl
      exact ⟨noted, whole, rfl, bottom, root⟩
    · have noted := (course.ended_iff_takenDown known recorded).2 down
      obtain ⟨target, whole, started, rfl, bottom⟩ :=
        course.reports_panicked (recorded.inEvents _ rfl noted) (by simp)
      have started := started.mono recorded.inJournal
      exact ⟨target, started, ⟨_, target, noted, started, rfl⟩, whole, rfl, bottom⟩
    · obtain rfl : ending = .failed failure := by
        cases ending <;> cases failed
        rfl
      exact course.siblings known recorded split

/-- a node that splits into a branch that comes to rest, one whose converter panics and one whose step does -/
def panickingLaunch : Launch :=
  { graph :=
      { nodes := [
          { id := ⟨"a"⟩, step := .identity .int64, parallel := true,
            advancers := [.always (.direct ⟨"b"⟩),
              .always (.converting ⟨"c"⟩ ⟨.int64, fun _ => .error ⟨some "boom"⟩⟩), .always (.direct ⟨"d"⟩)] },
          { id := ⟨"b"⟩, step := .identity .int64, deadEnd := true },
          { id := ⟨"c"⟩, step := .identity .int64, deadEnd := true },
          { id := ⟨"d"⟩, step := { input := .int64, output := .int64, run := fun _ _ => .panic ⟨none⟩ } }],
        entry := some ⟨"a"⟩ }
    input := .int 7 }

/-- Both panics come first, and the branch that comes to rest is received last. -/
def panickingSchedule : List Move :=
  List.replicate 4 (.turn .act) ++ .turn (.within 1 .act) :: List.replicate 5 (.turn (.within 2 .act)) ++
    List.replicate 5 (.turn (.within 0 .act)) ++
    [.turn (.receive 1), .turn (.receive 2), .turn (.receive 0), .turn .act]

theorem panics_contained_fork :
    ∃ state failure target, (RunState.start panickingLaunch).moves panickingLaunch panickingSchedule = some state ∧
      state.shared.cancelled = [] ∧ state.conclusion? panickingLaunch = some (.failed failure) ∧
      failure.partialOutputs = [⟨⟨"b"⟩, .int 7, [0]⟩] ∧
      StartedOn panickingLaunch.graph state.shared.journal [1] target ∧ .panicked target "boom" ∈ failure.singles ∧
      .panicked ⟨"d"⟩ "non-string panic payload" ∈ failure.singles := by
  obtain ⟨state, moved, live, concluded, root, step⟩ : ∃ state,
      (RunState.start panickingLaunch).moves panickingLaunch panickingSchedule = some state ∧
      state.shared.cancelled = [] ∧ state.conclusion? panickingLaunch = some (.failed (.parallelBranches ⟨"a"⟩
        [.panicked ⟨"c"⟩ "boom", .panicked ⟨"d"⟩ "non-string panic payload"] [⟨⟨"b"⟩, .int 7, [0]⟩])) ∧
      .returned [] ⟨"a"⟩ (.value (.int 7)) ∈ state.shared.journal ∧
      .returned [2] ⟨"d"⟩ (.panicked ⟨none⟩) ∈ state.shared.journal := by
    exact ⟨_, rfl, rfl, rfl, List.mem_of_getElem? (i := 11) rfl, List.mem_of_getElem? (i := 6) rfl⟩
  have contained := panics_contained moved live concluded
  have advances : Advances panickingLaunch state.shared.journal [] panickingLaunch.graph.nodes[0] (.int 7) :=
    ⟨rfl, root, rfl, by simp [panickingLaunch]⟩
  have down : TakenDown panickingLaunch state.shared.journal ([] ++ [1]) ⟨some "boom"⟩ :=
    .crossing advances rfl (by simp) (List.mem_of_getElem? (i := 1) rfl) rfl rfl
  obtain ⟨target, started, -, failure, same, bottom⟩ := contained.branches [] 1 _ down
  obtain ⟨-, other, same', bottom', -⟩ := contained.steps [2] _ _ step
  cases same
  cases same'
  exact ⟨state, _, target, moved, live, concluded, rfl, started, bottom, bottom'⟩

end StepFlow
