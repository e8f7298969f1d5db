/-
Branches that have run their course.

`Course` describes a branch that has ended, without any cancellation, as a tree: it either came to an end by itself, at
a leaf, or it split, and each of its branches has run its course. With it go the entries that it left in the journal and
its leaves from left to right. Results, all by induction on such a tree:
- `Course.ordered`: the leaves come in the order of their paths, which is that of declaration;
- `Course.contributed`, `Course.singles`: nothing is lost, repeated or moved when outputs and failures are gathered;
- `Course.sub`: every branch that ended within is such a tree itself, with its share of the leaves;
- `Course.mem_leaves_iff`: the leaves are the branches that ended without splitting.
-/
import Mathlib.Data.List.Forall2
import Mathlib.Data.List.Nodup
import StepFlow.Proofs.Run.Joining

namespace StepFlow

/-! ## Failures and leaves -/

namespace Failure

def isSingle : Failure → Bool
  | .parallelBranches _ _ _ => false
  | _ => true

mutual

/-- the failures at the bottom of a failure, in order: itself, unless it is that of a fan-out -/
def singles : Failure → List Failure
  | .parallelBranches _ failures _ => singlesOfAll failures
  | failure => [failure]

def singlesOfAll : List Failure → List Failure
  | [] => []
  | failure :: rest => singles failure ++ singlesOfAll rest

end

theorem singlesOfAll_eq (failures : List Failure) : singlesOfAll failures = failures.flatMap singles := by
  induction failures with
  | nil => rfl
  | cons failure rest ih => rw [singlesOfAll, ih, List.flatMap_cons]

theorem singles_parallelBranches (source : NodeId) (failures : List Failure) (completed : List Output) :
    (Failure.parallelBranches source failures completed).singles = failures.flatMap singles := by
  rw [singles, singlesOfAll_eq]

theorem singles_of_isSingle {failure : Failure} (h : failure.isSingle = true) : failure.singles = [failure] := by
  cases failure with
  | parallelBranches source failures completed => cases h
  | _ => rfl

end Failure

/-- the end of a branch that did not split, as the fan-out around it sees it -/
structure Leaf where
  path : Path
  result : BranchResult

namespace Leaf

def outputs (leaf : Leaf) : List Output := Gather.contributed leaf.result

def failure? (leaf : Leaf) : Option Failure := Gather.failure? leaf.result

def isWithin (path : Path) (leaf : Leaf) : Bool := path.isPrefixOf leaf.path

end Leaf

/-- the outputs that a branch hands on, whether it succeeds or fails -/
def Ending.yields : Ending → List Output
  | .outputs reached => reached
  | .failed failure => failure.partialOutputs
  | .panicked _ => []

theorem contributed_branchResult (target : NodeId) (ending : Ending) :
    Gather.contributed (Sequential.branchResult target ending) = ending.yields := by
  cases ending <;> rfl

/-- what a branch that does not split can end with -/
inductive Final (path : Path) : Ending → Prop where
  | output {node : NodeId} {value : Value} : Final path (.outputs [⟨node, value, path⟩])
  | failed {failure : Failure} : failure.isSingle = true → Final path (.failed failure)
  | panicked {panic : Panic} : Final path (.panicked panic)

/-! ## What the journal says of branches -/

namespace Event

def isSplit : Event → Bool
  | .split _ _ _ => true
  | _ => false

/-- whether an entry says that a branch has split or come to its end -/
def isLandmark : Event → Bool
  | .split _ _ _ => true
  | .ended _ _ => true
  | _ => false

end Event

/-- the splits and ends of branches are the same in both -/
structure SameLandmarks (events journal : List Event) : Prop where
  inJournal : ∀ event, event.isLandmark = true → event ∈ events → event ∈ journal
  inEvents : ∀ event, event.isLandmark = true → event ∈ journal → event ∈ events

/-- What is in a journal has been the last entry in it at some time. -/
theorem exists_suffix_of_mem {event : Event} {journal : List Event} (mem : event ∈ journal) :
    ∃ earlier, event :: earlier <:+ journal := by
  obtain ⟨later, earlier, split⟩ := List.append_of_mem mem
  exact ⟨earlier, later, split.symm⟩

/-- the branch of a path was started on an advancer to this target -/
inductive StartedOn (graph : Orchestration) (journal : List Event) : Path → NodeId → Prop where
  | intro {path : Path} {source : NodeId} {fired : List Nat} {index : Nat} {node : Node} {advancer : Advancer} :
      .split path source fired ∈ journal → index ∈ fired → graph.node? source = some node →
      node.advancers[index]? = some advancer → StartedOn graph journal (path ++ [index]) advancer.target

/-- what the branch of a path handed to the fan-out that started it; a panic is a failure of the advancer's target -/
def HandsOn (graph : Orchestration) (journal : List Event) (path : Path) (result : BranchResult) : Prop :=
  ∃ ending target, .ended path ending ∈ journal ∧ StartedOn graph journal path target ∧
    result = Sequential.branchResult target ending

theorem StartedOn.mono {graph : Orchestration} {journal more : List Event} {path : Path} {target : NodeId}
    (h : StartedOn graph journal path target)
    (among : ∀ event, event.isLandmark = true → event ∈ journal → event ∈ more) :
    StartedOn graph more path target := by
  cases h with
  | intro noted mem found there => exact .intro (among _ rfl noted) mem found there

theorem HandsOn.mono {graph : Orchestration} {journal more : List Event} {path : Path} {result : BranchResult}
    (h : HandsOn graph journal path result)
    (among : ∀ event, event.isLandmark = true → event ∈ journal → event ∈ more) : HandsOn graph more path result := by
  obtain ⟨ending, target, noted, started, same⟩ := h
  exact ⟨ending, target, among _ rfl noted, started.mono among, same⟩

/-! ## What a fan-out hands on -/

section

variable (target source : NodeId) (results : List BranchResult)

/-- A fan-out ends with the outputs of its branches if none of them failed, and with a failure of its own otherwise. -/
theorem merge_cases :
    (results.filterMap Gather.failure? = [] ∧
      Gather.merge source results = .outputs (results.flatMap Gather.contributed)) ∨
    (results.filterMap Gather.failure? ≠ [] ∧ Gather.merge source results = .failed (.parallelBranches source
      (results.filterMap Gather.failure?) (results.flatMap Gather.contributed))) := by
  cases failures : results.filterMap Gather.failure? with
  | nil => exact Or.inl ⟨rfl, by simp [Gather.merge, failures]⟩
  | cons failure rest => exact Or.inr ⟨by simp, by simp [Gather.merge, failures]⟩

theorem merge_eq_outputs {source : NodeId} {results : List BranchResult} {outputs : List Output}
    (h : Gather.merge source results = .outputs outputs) :
    results.filterMap Gather.failure? = [] ∧ outputs = results.flatMap Gather.contributed := by
  rcases merge_cases source results with ⟨clean, same⟩ | ⟨-, same⟩
  · rw [same] at h
    cases h
    exact ⟨clean, rfl⟩
  · rw [same] at h
    cases h

theorem merge_ne_panicked (panic : Panic) : Gather.merge source results ≠ .panicked panic := by
  rcases merge_cases source results with ⟨-, same⟩ | ⟨-, same⟩
  · rw [same]; simp
  · rw [same]; simp

theorem merge_ne_single {failure : Failure} (single : failure.isSingle = true) :
    Gather.merge source results ≠ .failed failure := by
  rcases merge_cases source results with ⟨-, same⟩ | ⟨-, same⟩
  · rw [same]; simp
  · rw [same]
    rintro whole
    cases whole
    cases single

theorem contributed_merge :
    Gather.contributed (Sequential.branchResult target (Gather.merge source results)) =
      results.flatMap Gather.contributed := by
  rcases merge_cases source results with ⟨-, same⟩ | ⟨-, same⟩
  · rw [same]; rfl
  · rw [same]; rfl

/-- The failures at the bottom of what a fan-out hands on are those of its branches. -/
theorem singles_merge :
    (Gather.failure? (Sequential.branchResult target (Gather.merge source results))).toList.flatMap Failure.singles =
      results.flatMap fun result => (Gather.failure? result).toList.flatMap Failure.singles := by
  have gathered : (results.filterMap Gather.failure?).flatMap Failure.singles =
      results.flatMap fun result => (Gather.failure? result).toList.flatMap Failure.singles := by
    rw [List.filterMap_eq_flatMap_toList, List.flatMap_assoc]
  rw [← gathered]
  rcases merge_cases source results with ⟨none, same⟩ | ⟨-, same⟩
  · rw [same, none]
    rfl
  · rw [same]
    simp [Sequential.branchResult, Gather.failure?, Failure.singles_parallelBranches]

theorem failed_merge :
    (Gather.failure? (Sequential.branchResult target (Gather.merge source results))).isSome =
      results.any fun result => (Gather.failure? result).isSome := by
  rcases merge_cases source results with ⟨none, same⟩ | ⟨failing, same⟩
  · rw [same]
    refine (List.any_eq_false.2 fun result mem => ?_).symm
    simpa using List.filterMap_eq_nil_iff.1 none result mem
  · rw [same]
    obtain ⟨failure, mem⟩ := List.exists_mem_of_ne_nil _ failing
    obtain ⟨result, among, failed⟩ := List.mem_filterMap.1 mem
    exact (List.any_eq_true.2 ⟨result, among, by rw [failed]; rfl⟩).symm

end

/-! ## Courses -/

/-- a branch of a branch that split, with its advancer, its ending, its entries in the journal and its leaves -/
structure Part where
  index : Nat
  target : NodeId
  ending : Ending
  events : List Event
  leaves : List Leaf

def Part.result (part : Part) : BranchResult := Sequential.branchResult part.target part.ending

/-- the entries of a branch that has split and ended -/
def forkEvents (path : Path) (source : NodeId) (ending : Ending) (parts : List Part) : List Event :=
  .ended path ending :: .split path source (parts.map Part.index) :: parts.flatMap Part.events

section

variable {path : Path} {source : NodeId} {ending : Ending} {parts : List Part} {event : Event}

theorem mem_forkEvents (h : event ∈ forkEvents path source ending parts) :
    event = .ended path ending ∨ event = .split path source (parts.map Part.index) ∨
      ∃ part ∈ parts, event ∈ part.events := by
  rcases List.mem_cons.1 h with same | h
  · exact Or.inl same
  · rcases List.mem_cons.1 h with same | h
    · exact Or.inr (Or.inl same)
    · exact Or.inr (Or.inr (List.mem_flatMap.1 h))

theorem ended_mem_forkEvents : .ended path ending ∈ forkEvents path source ending parts :=
  List.mem_cons_self

theorem split_mem_forkEvents : .split path source (parts.map Part.index) ∈ forkEvents path source ending parts :=
  List.mem_cons_of_mem _ List.mem_cons_self

theorem mem_forkEvents_of_part {part : Part} (mem : part ∈ parts) (held : event ∈ part.events) :
    event ∈ forkEvents path source ending parts :=
  List.mem_cons_of_mem _ (List.mem_cons_of_mem _ (List.mem_flatMap.2 ⟨part, mem, held⟩))

end

/-- a branch that was started on an advancer to `target` and has run its course -/
inductive Course (graph : Orchestration) : NodeId → Path → Ending → List Event → List Leaf → Prop where
  | leaf {target : NodeId} {path : Path} {ending : Ending} : Final path ending →
      Course graph target path ending [.ended path ending] [⟨path, Sequential.branchResult target ending⟩]
  | fork {target : NodeId} {path : Path} {source : NodeId} {node : Node} {parts : List Part} :
      graph.node? source = some node → (parts.map Part.index).Pairwise (· < ·) →
      (∀ part ∈ parts, ∃ advancer, node.advancers[part.index]? = some advancer ∧ part.target = advancer.target) →
      (∀ part ∈ parts, Course graph part.target (path ++ [part.index]) part.ending part.events part.leaves) →
      Course graph target path (Gather.merge source (parts.map Part.result))
        (forkEvents path source (Gather.merge source (parts.map Part.result)) parts) (parts.flatMap Part.leaves)

/-! ## Paths -/

theorem prefix_of_snoc {path other : Path} {index : Nat} (h : path ++ [index] <+: other) : path <+: other :=
  (List.prefix_append path [index]).trans h

theorem not_snoc_prefix {path : Path} {index : Nat} : ¬path ++ [index] <+: path := by
  intro h
  have longer := h.length_le
  rw [List.length_append, List.length_singleton] at longer
  omega

theorem index_unique {path other : Path} {i j : Nat} (first : path ++ [i] <+: other) (second : path ++ [j] <+: other) :
    i = j := by
  obtain ⟨rest, rfl⟩ := first
  rw [List.append_assoc, List.prefix_append_right_inj, List.singleton_append] at second
  exact (List.cons_prefix_cons.1 second).1.symm

/-- Paths within different branches are ordered as the branches are. -/
theorem lt_of_index_lt {path first second : Path} {i j : Nat} (one : path ++ [i] <+: first)
    (other : path ++ [j] <+: second) (lt : i < j) : first < second := by
  obtain ⟨rest, rfl⟩ := one
  obtain ⟨more, rfl⟩ := other
  induction path with
  | nil => exact List.Lex.rel lt
  | cons head tail ih => exact List.Lex.cons ih

theorem part_unique {parts : List Part} (increasing : (parts.map Part.index).Pairwise (· < ·)) {part other : Part}
    (mem : part ∈ parts) (among : other ∈ parts) (same : part.index = other.index) : part = other :=
  List.inj_on_of_nodup_map (increasing.imp Nat.ne_of_lt) mem among same

namespace Course

variable {graph : Orchestration} {target : NodeId} {path : Path} {ending : Ending} {events : List Event}
  {leaves : List Leaf}

theorem ended_mem (h : Course graph target path ending events leaves) : .ended path ending ∈ events := by
  cases h with
  | leaf _ => exact List.mem_cons_self
  | fork _ _ _ _ => exact ended_mem_forkEvents

/-- Its entries and its leaves belong to it or to a branch within. -/
theorem within (h : Course graph target path ending events leaves) :
    (∀ event ∈ events, path <+: event.branch) ∧ ∀ leaf ∈ leaves, path <+: leaf.path := by
  induction h with
  | leaf _ => exact ⟨by simp [Event.branch], by simp⟩
  | @fork target path source node parts _ _ _ _ ih =>
    refine ⟨fun event mem => ?_, fun leaf mem => ?_⟩
    · rcases mem_forkEvents mem with rfl | rfl | ⟨part, among, mem⟩
      · exact List.prefix_refl path
      · exact List.prefix_refl path
      · exact prefix_of_snoc ((ih part among).1 event mem)
    · obtain ⟨part, among, mem⟩ := List.mem_flatMap.1 mem
      exact prefix_of_snoc ((ih part among).2 leaf mem)

/-- **The leaves come in the order of their paths.** -/
theorem ordered (h : Course graph target path ending events leaves) :
    leaves.Pairwise fun one other => one.path < other.path := by
  induction h with
  | leaf _ => simp
  | @fork target path source node parts _ increasing _ courses ih =>
    refine List.pairwise_flatMap.2 ⟨ih, (List.pairwise_map.1 increasing).imp_of_mem ?_⟩
    intro part other mem among lt leaf inside one within
    exact lt_of_index_lt ((courses part mem).within.2 leaf inside) ((courses other among).within.2 one within) lt

theorem single (h : Course graph target path ending events leaves) :
    ∀ leaf ∈ leaves, (∃ node value, leaf.result = .ok [⟨node, value, leaf.path⟩]) ∨
      ∃ failure, failure.isSingle = true ∧ leaf.result = .error failure := by
  induction h with
  | leaf final =>
    intro leaf mem
    rw [List.mem_singleton.1 mem]
    cases final with
    | output => exact Or.inl ⟨_, _, rfl⟩
    | failed single => exact Or.inr ⟨_, single, rfl⟩
    | panicked => exact Or.inr ⟨_, rfl, rfl⟩
  | fork _ _ _ _ ih =>
    intro leaf mem
    obtain ⟨part, among, mem⟩ := List.mem_flatMap.1 mem
    exact ih part among leaf mem

theorem path_of_mem_outputs (h : Course graph target path ending events leaves) {leaf : Leaf} (mem : leaf ∈ leaves)
    {output : Output} (held : output ∈ leaf.outputs) : output.path = leaf.path := by
  rcases h.single leaf mem with ⟨node, value, result⟩ | ⟨failure, single, result⟩
  · rw [Leaf.outputs, result] at held
    rw [List.mem_singleton.1 held]
  · rw [Leaf.outputs, result] at held
    cases failure with
    | parallelBranches source failures completed => cases single
    | _ => cases held

/-! ## What is handed on -/

/-- **No output is lost**: a branch hands on the outputs of its leaves, in their order, whether it fails or not. -/
theorem contributed (h : Course graph target path ending events leaves) :
    Gather.contributed (Sequential.branchResult target ending) = leaves.flatMap Leaf.outputs := by
  induction h with
  | leaf _ => simp [Leaf.outputs]
  | @fork target path source node parts _ _ _ _ ih =>
    rw [contributed_merge, List.flatMap_assoc, List.flatMap_map]
    exact List.flatMap_congr fun part mem => ih part mem

/-- **No failure is lost**: at the bottom of what a branch hands on are the failures of its leaves, in their order. -/
theorem singles (h : Course graph target path ending events leaves) :
    (Gather.failure? (Sequential.branchResult target ending)).toList.flatMap Failure.singles =
      leaves.filterMap Leaf.failure? := by
  induction h with
  | leaf final =>
    cases final with
    | output => rfl
    | failed single => simp [Sequential.branchResult, Gather.failure?, Leaf.failure?, Failure.singles_of_isSingle single]
    | panicked => rfl
  | @fork target path source node parts _ _ _ _ ih =>
    rw [singles_merge, List.filterMap_flatMap, List.flatMap_map]
    exact List.flatMap_congr fun part mem => ih part mem

theorem failed_iff (h : Course graph target path ending events leaves) :
    (Gather.failure? (Sequential.branchResult target ending)).isSome = leaves.any fun leaf => leaf.failure?.isSome := by
  induction h with
  | leaf _ => simp [Leaf.failure?]
  | @fork target path source node parts _ _ _ _ ih =>
    rw [failed_merge, List.any_map, List.any_flatMap, Bool.eq_iff_iff, List.any_eq_true, List.any_eq_true]
    refine exists_congr fun part => and_congr_right fun mem => ?_
    rw [← ih part mem]
    rfl

/-! ## The branches within -/

theorem unique (h : Course graph target path ending events leaves) :
    ∀ event ∈ events, ∀ other ∈ events, event.branch = other.branch → event.isSplit = other.isSplit → event = other := by
  induction h with
  | leaf _ =>
    intro event mem other among _ _
    rw [List.mem_singleton.1 mem, List.mem_singleton.1 among]
  | @fork target path source node parts _ increasing _ courses ih =>
    -- an entry of a branch within is not one of the fan-out itself
    have apart : ∀ part ∈ parts, ∀ event ∈ part.events, event.branch ≠ path := by
      intro part among event mem same
      have inside := (courses part among).within.1 event mem
      rw [same] at inside
      exact not_snoc_prefix inside
    intro event mem other among same kind
    rcases mem_forkEvents mem with rfl | rfl | ⟨part, hp, mem⟩
    · rcases mem_forkEvents among with rfl | rfl | ⟨twin, ht, among⟩
      · rfl
      · cases kind
      · exact absurd same.symm (apart twin ht other among)
    · rcases mem_forkEvents among with rfl | rfl | ⟨twin, ht, among⟩
      · cases kind
      · rfl
      · exact absurd same.symm (apart twin ht other among)
    · rcases mem_forkEvents among with rfl | rfl | ⟨twin, ht, among⟩
      · exact absurd same (apart part hp event mem)
      · exact absurd same (apart part hp event mem)
      · have first := (courses part hp).within.1 event mem
        have second := (courses twin ht).within.1 other among
        rw [same] at first
        obtain rfl := part_unique increasing hp ht (index_unique first second)
        exact ih part hp event mem other among same kind

theorem started_unique (h : Course graph target path ending events leaves) {inner : Path} {aim other : NodeId}
    (first : StartedOn graph events inner aim) (second : StartedOn graph events inner other) : aim = other := by
  cases first with
  | @intro branch source fired index node advancer noted _ found there =>
    generalize same : branch ++ [index] = inner at second
    cases second with
    | intro noted' _ found' there' =>
      obtain ⟨rfl, last⟩ := List.append_inj' same rfl
      cases last
      cases h.unique _ noted _ noted' rfl rfl
      cases found.symm.trans found'
      cases there.symm.trans there'
      rfl

/-- A branch that ended either did so by itself, and is a leaf, or it had split. -/
theorem ended_cases (h : Course graph target path ending events leaves) {inner : Path} {final : Ending}
    (noted : .ended inner final ∈ events) :
    (Final inner final ∧ ∃ leaf ∈ leaves, leaf.path = inner) ∨ ∃ source fired, .split inner source fired ∈ events := by
  induction h with
  | leaf ends =>
    cases List.mem_singleton.1 noted
    exact Or.inl ⟨ends, _, List.mem_singleton_self _, rfl⟩
  | @fork target path source node parts _ _ _ _ ih =>
    rcases mem_forkEvents noted with same | same | ⟨part, among, noted⟩
    · cases same
      exact Or.inr ⟨source, _, split_mem_forkEvents⟩
    · cases same
    · rcases ih part among noted with ⟨ends, leaf, mem, same⟩ | ⟨origin, fired, split⟩
      · exact Or.inl ⟨ends, leaf, List.mem_flatMap.2 ⟨part, among, mem⟩, same⟩
      · exact Or.inr ⟨origin, fired, mem_forkEvents_of_part among split⟩

theorem of_mem_leaves (h : Course graph target path ending events leaves) : ∀ leaf ∈ leaves,
    (∀ source fired, .split leaf.path source fired ∉ events) ∧ ∃ final, .ended leaf.path final ∈ events ∧
      ((leaf.path = path ∧ leaf.result = Sequential.branchResult target final) ∨
        ∃ aim, StartedOn graph events leaf.path aim ∧ leaf.result = Sequential.branchResult aim final) := by
  induction h with
  | @leaf target path ending _ =>
    intro leaf mem
    rw [List.mem_singleton.1 mem]
    exact ⟨by simp, ending, by simp, Or.inl ⟨rfl, rfl⟩⟩
  | @fork target path source node parts found increasing advancers courses ih =>
    intro leaf mem
    obtain ⟨part, among, mem⟩ := List.mem_flatMap.1 mem
    obtain ⟨unsplit, final, noted, blamed⟩ := ih part among leaf mem
    have place := (courses part among).within.2 leaf mem
    refine ⟨fun other fired split => ?_, final, mem_forkEvents_of_part among noted, Or.inr ?_⟩
    · rcases mem_forkEvents split with same | same | ⟨twin, ht, split⟩
      · cases same
      · have same : leaf.path = path := congrArg Event.branch same
        rw [same] at place
        exact not_snoc_prefix place
      · obtain rfl := part_unique increasing among ht (index_unique place ((courses twin ht).within.1 _ split))
        exact unsplit other fired split
    · rcases blamed with ⟨same, result⟩ | ⟨aim, started, result⟩
      · obtain ⟨advancer, there, aim⟩ := advancers part among
        rw [same, result, aim]
        exact ⟨advancer.target, .intro split_mem_forkEvents (List.mem_map_of_mem among) found there, rfl⟩
      · exact ⟨aim, started.mono fun event _ held => mem_forkEvents_of_part among held, result⟩

end Course

/-! ## Fan-outs within -/

/-- a branch within a course that has split, with its parts, its entries and its share of the leaves -/
structure Fork (graph : Orchestration) (events : List Event) (leaves : List Leaf) (path : Path) (source : NodeId)
    (parts : List Part) : Prop where
  advancers : ∃ node : Node, graph.node? source = some node ∧
    ∀ part ∈ parts, ∃ advancer, node.advancers[part.index]? = some advancer ∧ part.target = advancer.target
  increasing : (parts.map Part.index).Pairwise (· < ·)
  courses : ∀ part ∈ parts, Course graph part.target (path ++ [part.index]) part.ending part.events part.leaves
  noted : .split path source (parts.map Part.index) ∈ events
  ended : .ended path (Gather.merge source (parts.map Part.result)) ∈ events
  inside : ∀ part ∈ parts, ∀ event ∈ part.events, event ∈ events
  share : leaves.filter (Leaf.isWithin path) = parts.flatMap Part.leaves

theorem flatMap_of_single {α : Type} {parts : List Part} {f : Part → List α} {part : Part}
    (increasing : (parts.map Part.index).Pairwise (· < ·)) (mem : part ∈ parts)
    (others : ∀ other ∈ parts, other.index ≠ part.index → f other = []) : parts.flatMap f = f part := by
  obtain ⟨before, after, rfl⟩ := List.append_of_mem mem
  rw [List.map_append, List.map_cons, List.pairwise_append, List.pairwise_cons] at increasing
  obtain ⟨-, ⟨above, -⟩, below⟩ := increasing
  have left : before.flatMap f = [] := by
    refine List.flatMap_eq_nil_iff.2 fun other among => others other (List.mem_append_left _ among) ?_
    exact Nat.ne_of_lt (below _ (List.mem_map_of_mem among) _ List.mem_cons_self)
  have right : after.flatMap f = [] := by
    refine List.flatMap_eq_nil_iff.2 fun other among => others other (by simp [among]) ?_
    exact Nat.ne_of_gt (above _ (List.mem_map_of_mem among))
  rw [List.flatMap_append, List.flatMap_cons, left, right, List.nil_append, List.append_nil]

/-- The leaves of a course that are within a path inside one of its parts are those of the part. -/
theorem filter_flatMap_leaves {graph : Orchestration} {path inner : Path} {parts : List Part} {part : Part}
    (increasing : (parts.map Part.index).Pairwise (· < ·))
    (courses : ∀ part ∈ parts, Course graph part.target (path ++ [part.index]) part.ending part.events part.leaves)
    (mem : part ∈ parts) (place : path ++ [part.index] <+: inner) :
    (parts.flatMap Part.leaves).filter (Leaf.isWithin inner) = part.leaves.filter (Leaf.isWithin inner) := by
  rw [List.filter_flatMap]
  refine flatMap_of_single increasing mem fun other among differs => ?_
  refine List.filter_eq_nil_iff.2 fun leaf held within => differs ?_
  have first := (courses other among).within.2 leaf held
  have second := place.trans (List.isPrefixOf_iff_prefix.1 within)
  exact index_unique first second

namespace Course

variable {graph : Orchestration} {target : NodeId} {path : Path} {ending : Ending} {events : List Event}
  {leaves : List Leaf}

/-- **Every branch that has split is a fan-out of the tree**, with its share of the leaves. -/
theorem fork_of_split (h : Course graph target path ending events leaves) {inner : Path} {source : NodeId}
    {fired : List Nat} (noted : .split inner source fired ∈ events) :
    ∃ parts, fired = parts.map Part.index ∧ Fork graph events leaves inner source parts := by
  induction h with
  | leaf _ => cases List.mem_singleton.1 noted
  | @fork target path origin node parts found increasing advancers courses ih =>
    rcases mem_forkEvents noted with same | same | ⟨part, among, noted⟩
    · cases same
    · cases same
      have whole : Course graph target inner _ _ _ := .fork found increasing advancers courses
      refine ⟨parts, rfl, ⟨node, found, advancers⟩, increasing, courses, split_mem_forkEvents, ended_mem_forkEvents,
        fun part among event held => mem_forkEvents_of_part among held, ?_⟩
      exact List.filter_eq_self.2 fun leaf mem => List.isPrefixOf_iff_prefix.2 (whole.within.2 leaf mem)
    · obtain ⟨nested, rfl, fork⟩ := ih part among noted
      have place : path ++ [part.index] <+: inner := (courses part among).within.1 _ noted
      refine ⟨nested, rfl, { fork with
        noted := mem_forkEvents_of_part among fork.noted
        ended := mem_forkEvents_of_part among fork.ended
        inside := fun one mem event held => mem_forkEvents_of_part among (fork.inside one mem event held)
        share := ?_ }⟩
      rw [filter_flatMap_leaves increasing courses among place]
      exact fork.share

/-- **The leaves of a branch that has split are the branches that ended without splitting.** -/
theorem mem_leaves_iff (h : Course graph target path ending events leaves) {source : NodeId} {fired : List Nat}
    (forked : .split path source fired ∈ events) (leaf : Leaf) :
    leaf ∈ leaves ↔
      HandsOn graph events leaf.path leaf.result ∧ ∀ source fired, .split leaf.path source fired ∉ events := by
  have handed : ∀ leaf ∈ leaves, ∃ final aim, .ended leaf.path final ∈ events ∧
      StartedOn graph events leaf.path aim ∧ leaf.result = Sequential.branchResult aim final := by
    intro leaf mem
    obtain ⟨unsplit, final, noted, blamed⟩ := h.of_mem_leaves leaf mem
    rcases blamed with ⟨same, -⟩ | ⟨aim, started, result⟩
    · exact absurd (same ▸ forked) (unsplit source fired)
    · exact ⟨final, aim, noted, started, result⟩
  constructor
  · intro mem
    obtain ⟨final, aim, noted, started, result⟩ := handed leaf mem
    exact ⟨⟨final, aim, noted, started, result⟩, (h.of_mem_leaves leaf mem).1⟩
  · rintro ⟨⟨final, aim, noted, started, result⟩, unsplit⟩
    rcases h.ended_cases noted with ⟨-, other, mem, same⟩ | ⟨source, fired, split⟩
    · obtain ⟨final', aim', noted', started', result'⟩ := handed other mem
      rw [same] at noted' started'
      cases h.unique _ noted _ noted' rfl rfl
      obtain rfl := h.started_unique started started'
      obtain ⟨place, outcome⟩ := leaf
      obtain ⟨place', outcome'⟩ := other
      simp only at same result result'
      rw [same, result'.trans result.symm] at mem
      exact mem
    · exact absurd split (unsplit source fired)

end Course

end StepFlow
