/-
What the failure of a fan-out accounts for.

A run without cancellation whose root splits has leaves: the branches that ended without splitting. `LeavesOf` says when
a list of leaves is complete, and `Accounts` what the failure of a fan-out says about those within it. Results:
- `Fork.accounts`: the failure of every fan-out accounts for the leaves within;
- `fan_out_accounts`: the run fails exactly if a leaf did, no leaf is lost or counted twice, and the order is that of
  declaration, in what the run returns and in every failure inside it.
-/
import StepFlow.Proofs.Run.Recording

namespace StepFlow

/-! ## The accounts of a fan-out -/

/-- what the failure of a fan-out on a branch says about the leaves within: it has an entry for every advancer that
fired and below which some leaf failed, in order; at the bottom are the failures of the leaves; the completed outputs
are those of the leaves; and a fan-out inside has a block of them, that of its own path -/
structure Accounts (graph : Orchestration) (journal : List Event) (leaves : List Leaf) (path : Path) (fired : List Nat)
    (failures : List Failure) (completed : List Output) : Prop where
  nonempty : failures ≠ []
  entries : List.Forall₂ (fun index failure => HandsOn graph journal (path ++ [index]) (.error failure))
    (fired.filter fun index =>
      (leaves.filter (Leaf.isWithin (path ++ [index]))).any fun leaf => leaf.failure?.isSome) failures
  bottom : failures.flatMap Failure.singles = (leaves.filter (Leaf.isWithin path)).filterMap Leaf.failure?
  outputs : completed = (leaves.filter (Leaf.isWithin path)).flatMap Leaf.outputs
  blocks : ∀ index ∈ fired, ∀ source failures block,
    HandsOn graph journal (path ++ [index]) (.error (.parallelBranches source failures block)) →
      block = completed.filter (fun output => (path ++ [index]).isPrefixOf output.path) ∧ block <:+: completed

/-- The failures among results, matched with the positions that have them. -/
theorem forall₂_failures {R : Nat → Failure → Prop} {parts : List Part} {fails : Nat → Bool}
    (agrees : ∀ part ∈ parts, fails part.index = (Gather.failure? part.result).isSome)
    (related : ∀ part ∈ parts, ∀ failure, part.result = .error failure → R part.index failure) :
    List.Forall₂ R ((parts.map Part.index).filter fails) ((parts.map Part.result).filterMap Gather.failure?) := by
  induction parts with
  | nil => exact .nil
  | cons part rest ih =>
    have tail := ih (fun other mem => agrees other (List.mem_cons_of_mem _ mem))
      (fun other mem => related other (List.mem_cons_of_mem _ mem))
    have head := agrees part List.mem_cons_self
    rw [List.map_cons, List.map_cons, List.filter_cons, List.filterMap_cons, head]
    cases result : part.result with
    | ok outputs => exact tail
    | error failure => exact .cons (related part List.mem_cons_self failure result) tail

namespace Fork

variable {graph : Orchestration} {events : List Event} {leaves : List Leaf} {path : Path} {source : NodeId}
  {parts : List Part}

theorem share_part (h : Fork graph events leaves path source parts) {part : Part} (mem : part ∈ parts) :
    leaves.filter (Leaf.isWithin (path ++ [part.index])) = part.leaves := by
  have coarser : leaves.filter (Leaf.isWithin (path ++ [part.index])) =
      (leaves.filter (Leaf.isWithin path)).filter (Leaf.isWithin (path ++ [part.index])) := by
    rw [List.filter_filter]
    refine List.filter_congr fun leaf _ => ?_
    rw [Bool.eq_iff_iff, Bool.and_eq_true]
    refine ⟨fun inner => ⟨inner, ?_⟩, And.left⟩
    exact List.isPrefixOf_iff_prefix.2 (prefix_of_snoc (List.isPrefixOf_iff_prefix.1 inner))
  rw [coarser, h.share, filter_flatMap_leaves h.increasing h.courses mem (List.prefix_refl _)]
  exact List.filter_eq_self.2 fun leaf held => List.isPrefixOf_iff_prefix.2 ((h.courses part mem).within.2 leaf held)

theorem startedOn (h : Fork graph events leaves path source parts) {part : Part} (mem : part ∈ parts) :
    StartedOn graph events (path ++ [part.index]) part.target := by
  obtain ⟨node, found, advancers⟩ := h.advancers
  obtain ⟨advancer, there, target⟩ := advancers part mem
  rw [target]
  exact .intro h.noted (List.mem_map_of_mem mem) found there

theorem handsOn (h : Fork graph events leaves path source parts) {part : Part} (mem : part ∈ parts) :
    HandsOn graph events (path ++ [part.index]) part.result :=
  ⟨part.ending, part.target, h.inside part mem _ (h.courses part mem).ended_mem, h.startedOn mem, rfl⟩

theorem path_of_mem_contributed (h : Fork graph events leaves path source parts) {part : Part} (mem : part ∈ parts)
    {output : Output} (handed : output ∈ Gather.contributed part.result) : path ++ [part.index] <+: output.path := by
  have course := h.courses part mem
  rw [Part.result, course.contributed] at handed
  obtain ⟨leaf, held, handed⟩ := List.mem_flatMap.1 handed
  rw [course.path_of_mem_outputs held handed]
  exact course.within.2 leaf held

theorem merge_eq_failed {origin : NodeId} {results : List BranchResult} {failures : List Failure}
    {completed : List Output}
    (h : Gather.merge origin results = .failed (.parallelBranches source failures completed)) :
    results.filterMap Gather.failure? ≠ [] ∧ origin = source ∧ failures = results.filterMap Gather.failure? ∧
      completed = results.flatMap Gather.contributed := by
  rcases merge_cases origin results with ⟨-, same⟩ | ⟨failing, same⟩
  · rw [same] at h
    cases h
  · rw [same] at h
    cases h
    exact ⟨failing, rfl, rfl, rfl⟩

theorem result_of_handsOn {target : NodeId} {root : Path} {ending : Ending}
    (course : Course graph target root ending events leaves) (h : Fork graph events leaves path source parts)
    {part : Part} (mem : part ∈ parts) {result : BranchResult}
    (handed : HandsOn graph events (path ++ [part.index]) result) : result = part.result := by
  obtain ⟨final, aim, noted, started, rfl⟩ := handed
  have ended := h.inside part mem _ (h.courses part mem).ended_mem
  cases course.unique _ noted _ ended rfl rfl
  obtain rfl := course.started_unique started (h.startedOn mem)
  rfl

/-- The outputs that a fan-out gathers from one part are a block among all that it gathers, that of its path. -/
theorem block (h : Fork graph events leaves path source parts) {part : Part} (mem : part ∈ parts) :
    Gather.contributed part.result = ((parts.map Part.result).flatMap Gather.contributed).filter
        (fun output => (path ++ [part.index]).isPrefixOf output.path) ∧
      Gather.contributed part.result <:+: (parts.map Part.result).flatMap Gather.contributed := by
  have gathered : (parts.map Part.result).flatMap Gather.contributed =
      parts.flatMap fun part => Gather.contributed part.result := List.flatMap_map ..
  rw [gathered]
  constructor
  · rw [List.filter_flatMap, flatMap_of_single h.increasing mem fun other among differs => ?_]
    · refine (List.filter_eq_self.2 fun output handed => ?_).symm
      exact List.isPrefixOf_iff_prefix.2 (h.path_of_mem_contributed mem handed)
    · refine List.filter_eq_nil_iff.2 fun output handed within => differs ?_
      exact index_unique (h.path_of_mem_contributed among handed) (List.isPrefixOf_iff_prefix.1 within)
  · obtain ⟨before, after, rfl⟩ := List.append_of_mem mem
    rw [List.flatMap_append, List.flatMap_cons, ← List.append_assoc]
    exact List.infix_append _ _ _

/-- **The failure of a fan-out accounts for its leaves.** -/
theorem accounts {target : NodeId} {root : Path} {ending : Ending}
    (course : Course graph target root ending events leaves) (h : Fork graph events leaves path source parts)
    {failures : List Failure} {completed : List Output}
    (merged : Gather.merge source (parts.map Part.result) = .failed (.parallelBranches source failures completed)) :
    Accounts graph events leaves path (parts.map Part.index) failures completed := by
  obtain ⟨node, found, advancers⟩ := h.advancers
  have own : Course graph target path _ _ (parts.flatMap Part.leaves) := .fork found h.increasing advancers h.courses
  have gathered := own.contributed
  have bottom := own.singles
  rw [merged] at gathered bottom
  obtain ⟨nonempty, -, rfl, rfl⟩ := merge_eq_failed merged
  refine ⟨nonempty, forall₂_failures (fun part mem => ?_) (fun part mem failure result => ?_), ?_, ?_,
    fun index mem origin nested block handed => ?_⟩
  · rw [h.share_part mem]
    exact (h.courses part mem).failed_iff.symm
  · exact result ▸ h.handsOn mem
  · rw [h.share, ← bottom]
    simp [Sequential.branchResult, Gather.failure?, Failure.singles_parallelBranches]
  · rw [h.share]
    exact gathered
  · obtain ⟨part, among, rfl⟩ := List.mem_map.1 mem
    have result := result_of_handsOn course h among handed
    have share := h.block among
    rw [← result] at share
    exact share

end Fork

/-! ## Runs -/

/-- the leaves of a run, in the order of their paths: the branches that ended without splitting, each with an output of
its own or a failure other than that of a fan-out; and every branch that was started has ended -/
structure LeavesOf (graph : Orchestration) (journal : List Event) (leaves : List Leaf) : Prop where
  mem_iff : ∀ leaf, leaf ∈ leaves ↔
    HandsOn graph journal leaf.path leaf.result ∧ ∀ source fired, .split leaf.path source fired ∉ journal
  ordered : leaves.Pairwise fun one other => one.path < other.path
  single : ∀ leaf ∈ leaves, (∃ node value, leaf.result = .ok [⟨node, value, leaf.path⟩]) ∨
    ∃ failure, failure.isSingle = true ∧ leaf.result = .error failure
  found : ∀ path ending, .ended path ending ∈ journal → (∀ source fired, .split path source fired ∉ journal) →
    ∃ leaf ∈ leaves, leaf.path = path
  joined : ∀ path source fired, .split path source fired ∈ journal → ∀ index ∈ fired,
    ∃ result, HandsOn graph journal (path ++ [index]) result

/-- A run without an entry has failed before its first move, and nothing ever happens. -/
theorem moves_without_entry {launch : Launch} (designated : launch.graph.entry = none) {schedule : List Move}
    {state : RunState} (h : (RunState.start launch).moves launch schedule = some state) :
    state.walk = .ended (.failed .noEntry) ∧ state.shared.journal = [] := by
  refine RunState.moves_induction
    (P := fun state => state.walk = .ended (.failed .noEntry) ∧ state.shared.journal = [])
    (fun turns before => ?_) (fun branch before => before) h ?_
  · exact absurd before.1 (Walk.turns_ne_ended turns _)
  · simp [RunState.start, designated]

section

variable {graph : Orchestration} {target : NodeId} {ending : Ending} {events journal : List Event} {leaves : List Leaf}

theorem Course.exists_handsOn {path : Path} (h : Course graph target path ending events leaves)
    (recorded : SameLandmarks events journal) {inner : Path} {source : NodeId} {fired : List Nat}
    (split : .split inner source fired ∈ journal) {index : Nat} (mem : index ∈ fired) :
    ∃ result, HandsOn graph journal (inner ++ [index]) result := by
  obtain ⟨parts, rfl, fork⟩ := h.fork_of_split (recorded.inEvents _ rfl split)
  obtain ⟨part, among, rfl⟩ := List.mem_map.1 mem
  exact ⟨part.result, (fork.handsOn among).mono recorded.inJournal⟩

theorem Course.leavesOf {path : Path} (h : Course graph target path ending events leaves) {source : NodeId}
    {fired : List Nat} (forked : .split path source fired ∈ events) (recorded : SameLandmarks events journal) :
    LeavesOf graph journal leaves := by
  refine ⟨fun leaf => ?_, h.ordered, h.single, fun inner final noted unsplit => ?_,
    fun inner source fired noted index mem => ?_⟩
  · rw [h.mem_leaves_iff forked leaf]
    constructor
    · rintro ⟨handed, unsplit⟩
      exact ⟨handed.mono recorded.inJournal, fun source fired noted => unsplit source fired (recorded.inEvents _ rfl noted)⟩
    · rintro ⟨handed, unsplit⟩
      exact ⟨handed.mono recorded.inEvents, fun source fired noted => unsplit source fired (recorded.inJournal _ rfl noted)⟩
  · rcases h.ended_cases (recorded.inEvents _ rfl noted) with ⟨-, leaf, mem, same⟩ | ⟨source, fired, split⟩
    · exact ⟨leaf, mem, same⟩
    · exact absurd (recorded.inJournal _ rfl split) (unsplit source fired)
  · exact h.exists_handsOn recorded noted mem

theorem Course.accounts {path : Path} (h : Course graph target path ending events leaves)
    (recorded : SameLandmarks events journal) {inner : Path} {source : NodeId} {failures : List Failure}
    {completed : List Output} (noted : .ended inner (.failed (.parallelBranches source failures completed)) ∈ journal) :
    ∃ fired, .split inner source fired ∈ journal ∧ Accounts graph journal leaves inner fired failures completed := by
  have ended := recorded.inEvents _ rfl noted
  rcases h.ended_cases ended with ⟨final, -⟩ | ⟨origin, fired, split⟩
  · cases final with
    | failed single => cases single
  · obtain ⟨parts, rfl, fork⟩ := h.fork_of_split split
    have merged := h.unique _ fork.ended _ ended rfl rfl
    have merged : Gather.merge origin (parts.map Part.result) = _ := (Event.ended.inj merged).2
    obtain ⟨-, rfl, rfl, rfl⟩ := Fork.merge_eq_failed merged
    have accounts := fork.accounts h merged
    refine ⟨_, recorded.inJournal _ rfl split, accounts.nonempty, ?_, accounts.bottom, accounts.outputs, ?_⟩
    · exact accounts.entries.imp fun index failure handed => handed.mono recorded.inJournal
    · intro index mem origin nested block handed
      exact accounts.blocks index mem origin nested block (handed.mono recorded.inEvents)

end

/-- A run without cancellation that has ended leaves the splits and ends of a course in its journal, if it has an entry. -/
theorem exists_course_of_ended {launch : Launch} {schedule : List Move} {state : RunState} {ending : Ending}
    (designated : launch.graph.entry ≠ none) (moved : (RunState.start launch).moves launch schedule = some state)
    (live : state.shared.cancelled = []) (ended : state.walk = .ended ending) (target : NodeId) :
    ∃ events leaves, Course launch.graph target [] ending events leaves ∧ SameLandmarks events state.shared.journal := by
  obtain ⟨events, recorded, perm⟩ := (moves_faithful designated moved).2 live
  rw [ended] at recorded
  obtain ⟨leaves, course⟩ := recorded.exists_course target
  refine ⟨events, leaves, course, fun event _ mem => ?_, fun event landmark mem => ?_⟩
  · exact (List.mem_filter.1 (perm.mem_iff.1 mem)).1
  · exact perm.mem_iff.2 (List.mem_filter.2 ⟨mem, landmark⟩)

theorem entry_ne_none {launch : Launch} {schedule : List Move} {state : RunState} {event : Event}
    (moved : (RunState.start launch).moves launch schedule = some state) (mem : event ∈ state.shared.journal) :
    launch.graph.entry ≠ none := by
  intro none
  rw [(moves_without_entry none moved).2] at mem
  cases mem

/-- **No branch is lost or counted twice.** Let a run without cancellation split at its root and conclude. It has a
complete list of leaves, in the order of declaration. The run fails exactly if a leaf failed; its failure is then that
of the fan-out at the root, the failures at its bottom are those of the leaves, and its partial outputs are the outputs
of the leaves. Otherwise it succeeds with the outputs of the leaves. And at every level of the failure, the failure of a
fan-out accounts for the leaves within. -/
theorem fan_out_accounts {launch : Launch} {schedule : List Move} {state : RunState} {conclusion : Conclusion}
    {source : NodeId} {fired : List Nat} (moved : (RunState.start launch).moves launch schedule = some state)
    (live : state.shared.cancelled = []) (split : .split [] source fired ∈ state.shared.journal)
    (concluded : state.conclusion? launch = some conclusion) :
    ∃ leaves, LeavesOf launch.graph state.shared.journal leaves ∧
      ((∃ failure, conclusion = .failed failure) ↔ ∃ leaf ∈ leaves, leaf.failure?.isSome = true) ∧
      (∀ failure, conclusion = .failed failure →
        (∃ failures completed, failure = .parallelBranches source failures completed) ∧
        failure.singles = leaves.filterMap Leaf.failure? ∧ failure.partialOutputs = leaves.flatMap Leaf.outputs ∧
        .ended [] (.failed failure) ∈ state.shared.journal) ∧
      ((∀ leaf ∈ leaves, leaf.failure? = none) → conclusion = .succeeded
        { steps := state.shared.drawn, outputs := leaves.flatMap Leaf.outputs, result := launch.graph.result }) ∧
      ∀ path source failures completed,
        .ended path (.failed (.parallelBranches source failures completed)) ∈ state.shared.journal →
        ∃ fired, .split path source fired ∈ state.shared.journal ∧
          Accounts launch.graph state.shared.journal leaves path fired failures completed := by
  obtain ⟨ending, ended, rfl⟩ := RunState.conclusion?_eq_some concluded
  obtain ⟨events, leaves, course, recorded⟩ :=
    exists_course_of_ended (entry_ne_none moved split) moved live ended source
  have forked := recorded.inEvents _ rfl split
  obtain ⟨parts, rfl, fork⟩ := course.fork_of_split forked
  obtain rfl : ending = Gather.merge source (parts.map Part.result) :=
    (Event.ended.inj (course.unique _ course.ended_mem _ fork.ended rfl rfl)).2
  have gathered := course.contributed
  have bottom := course.singles
  have fails := course.failed_iff
  have noted := recorded.inJournal _ rfl fork.ended
  refine ⟨leaves, course.leavesOf forked recorded, ?_⟩
  rcases merge_cases source (parts.map Part.result) with ⟨-, same⟩ | ⟨-, same⟩
  · rw [same] at gathered bottom fails
    have well : ∀ leaf ∈ leaves, leaf.failure?.isSome = false := by
      simpa [Sequential.branchResult, Gather.failure?] using fails.symm
    rw [same]
    refine ⟨⟨?_, ?_⟩, ?_, fun _ => ?_, fun path source failures completed noted =>
      course.accounts recorded noted⟩
    · rintro ⟨failure, failed⟩
      cases failed
    · rintro ⟨leaf, mem, failed⟩
      rw [well leaf mem] at failed
      cases failed
    · intro failure failed
      cases failed
    · simp only [Sequential.branchResult, Gather.contributed] at gathered
      rw [Ending.conclusion, gathered]
  · rw [same] at gathered bottom fails noted
    have failed : ∃ leaf ∈ leaves, leaf.failure?.isSome = true := List.any_eq_true.1 fails.symm
    rw [same]
    refine ⟨⟨fun _ => failed, fun _ => ⟨_, rfl⟩⟩, fun failure same => ?_, fun well => ?_,
      fun path source failures completed noted => course.accounts recorded noted⟩
    · cases same
      refine ⟨⟨_, _, rfl⟩, ?_, gathered, noted⟩
      rw [← bottom]
      simp [Sequential.branchResult, Gather.failure?]
    · obtain ⟨leaf, mem, failing⟩ := failed
      rw [well leaf mem] at failing
      cases failing

/-- a node that splits into a branch that comes to rest and one that splits again, where one of two branches is stuck -/
def nestedLaunch : Launch :=
  { graph :=
      { nodes := [
          { id := ⟨"a"⟩, step := .identity .int64, parallel := true,
            advancers := [.always (.direct ⟨"b"⟩), .always (.direct ⟨"c"⟩)] },
          { id := ⟨"b"⟩, step := .identity .int64, deadEnd := true },
          { id := ⟨"c"⟩, step := .identity .int64, parallel := true,
            advancers := [.always (.direct ⟨"b"⟩), .always (.direct ⟨"d"⟩)] },
          { id := ⟨"d"⟩, step := .identity .int64 }],
        entry := some ⟨"a"⟩ }
    input := .int 7 }

/-- Inner branches are received before the outer one, and always the last first. -/
def nestedSchedule : List Move :=
  List.replicate 4 (.turn .act) ++ List.replicate 5 (.turn (.within 1 .act)) ++
    List.replicate 5 (.turn (.within 1 (.within 1 .act))) ++ List.replicate 5 (.turn (.within 1 (.within 0 .act))) ++
    [.turn (.within 1 (.receive 1)), .turn (.within 1 (.receive 0)), .turn (.within 1 .act), .turn (.receive 1)] ++
    List.replicate 5 (.turn (.within 0 .act)) ++ [.turn (.receive 0), .turn .act]

theorem fan_out_accounts_nested :
    ∃ state failure leaves, (RunState.start nestedLaunch).moves nestedLaunch nestedSchedule = some state ∧
      state.shared.cancelled = [] ∧ .split [] ⟨"a"⟩ [0, 1] ∈ state.shared.journal ∧
      state.conclusion? nestedLaunch = some (.failed failure) ∧
      LeavesOf nestedLaunch.graph state.shared.journal leaves ∧
      leaves.filterMap Leaf.failure? = [.deadEnd ⟨"d"⟩] ∧
      leaves.flatMap Leaf.outputs = [⟨⟨"b"⟩, .int 7, [0]⟩, ⟨⟨"b"⟩, .int 7, [1, 0]⟩] := by
  let nested : Failure := .parallelBranches ⟨"c"⟩ [.deadEnd ⟨"d"⟩] [⟨⟨"b"⟩, .int 7, [1, 0]⟩]
  obtain ⟨state, moved, live, split, concluded⟩ : ∃ state,
      (RunState.start nestedLaunch).moves nestedLaunch nestedSchedule = some state ∧ state.shared.cancelled = [] ∧
      .split [] ⟨"a"⟩ [0, 1] ∈ state.shared.journal ∧ state.conclusion? nestedLaunch = some (.failed
        (.parallelBranches ⟨"a"⟩ [nested] [⟨⟨"b"⟩, .int 7, [0]⟩, ⟨⟨"b"⟩, .int 7, [1, 0]⟩])) := by
    exact ⟨_, rfl, rfl, List.mem_of_getElem? (i := 18) rfl, rfl⟩
  obtain ⟨leaves, complete, -, failed, -⟩ := fan_out_accounts moved live split concluded
  obtain ⟨-, bottom, outputs, -⟩ := failed _ rfl
  exact ⟨state, _, leaves, moved, live, split, concluded, complete, bottom.symm, outputs.symm⟩

end StepFlow
