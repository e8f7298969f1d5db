/-
The paths of outputs.

The path of an output tells which branch it comes from. `fanOutsOn` lists the fan-outs that a branch met on its way, as the
journal has them; `Tracks` says that the components of a path are positions of advancers that fired there, one for each
fan-out, and `Bunch` that the outputs of a branch come in the order of their paths, of which none continues another. All of
it holds under every schedule and whatever is cancelled. Results:
- `Orderly.tracks`: the way of every branch is in the journal;
- `merge_bunch`: a fan-out keeps the outputs of its branches in order, whether it succeeds or fails;
- `outputs_shape`: the outputs of a run that succeeds, and those beside the failure of one that does not.
-/
import Mathlib.Data.List.Induction
import StepFlow.Proofs.Run.Accounting
import StepFlow.Proofs.Run.Orderly

namespace StepFlow

/-! ## The way of a branch -/

/-- a fan-out: the branch that split, its node and the positions of the advancers that fired -/
structure FanOut where
  branch : Path
  source : NodeId
  fired : List Nat

/-- the fan-out that an entry of the journal stands for, if it was met on the way to a path -/
def Event.fanOut? (path : Path) : Event → Option FanOut
  | .split branch source fired => if branch <+: path then some ⟨branch, source, fired⟩ else none
  | _ => none

/-- the fan-outs that were met on the way to a path, in the order in which they were met -/
def fanOutsOn (path : Path) (journal : List Event) : List FanOut :=
  (journal.filterMap (Event.fanOut? path)).reverse

/-- the advancer at this position is one of several that fired at a fan-out of a parallel node, on what the node returned
right before -/
def TakenAt (launch : Launch) (journal : List Event) (fork : FanOut) (index : Nat) : Prop :=
  ∃ (node : Node) (value : Value) (fired : List (Nat × Advancer)) (earlier : List Event),
    launch.graph.node? fork.source = some node ∧ node.parallel = true ∧ node.fired value = .ok fired ∧
      2 ≤ fired.length ∧ fork.fired = fired.map Prod.fst ∧ index ∈ fork.fired ∧
      .split fork.branch fork.source fork.fired :: .returned fork.branch fork.source (.value value) :: earlier <:+ journal

/-- a path whose components are, one by one, what was taken at the fan-outs on the way to it -/
structure Tracks (launch : Launch) (journal : List Event) (path : Path) : Prop where
  met : (fanOutsOn path journal).map FanOut.branch = (List.range path.length).map path.take
  taken : List.Forall₂ (TakenAt launch journal) (fanOutsOn path journal) path

theorem TakenAt.mono {launch : Launch} {journal more : List Event} {fork : FanOut} {index : Nat}
    (h : TakenAt launch journal fork index) (grows : journal <:+ more) : TakenAt launch more fork index := by
  obtain ⟨node, value, fired, earlier, found, parallel, fires, several, positions, mem, noted⟩ := h
  exact ⟨node, value, fired, earlier, found, parallel, fires, several, positions, mem, noted.trans grows⟩

theorem mem_fanOutsOn {path : Path} {journal : List Event} {fork : FanOut} (mem : fork ∈ fanOutsOn path journal) :
    .split fork.branch fork.source fork.fired ∈ journal := by
  obtain ⟨event, noted, same⟩ := List.mem_filterMap.1 (List.mem_reverse.1 mem)
  cases event with
  | split branch source fired =>
    rw [Event.fanOut?, Option.ite_none_right_eq_some] at same
    obtain ⟨-, same⟩ := same
    obtain rfl := Option.some.inj same
    exact noted
  | _ => cases same

theorem Tracks.exists_split {launch : Launch} {journal : List Event} {path outer : Path} (h : Tracks launch journal path)
    (around : outer <+: path) (strict : outer ≠ path) : ∃ source fired, .split outer source fired ∈ journal := by
  have shorter : outer.length < path.length :=
    Nat.lt_of_le_of_ne around.length_le fun same => strict (around.eq_of_length same)
  have among : outer ∈ (fanOutsOn path journal).map FanOut.branch := by
    rw [h.met]
    exact List.mem_map.2 ⟨outer.length, List.mem_range.2 shorter, (List.prefix_iff_eq_take.1 around).symm⟩
  obtain ⟨fork, mem, rfl⟩ := List.mem_map.1 among
  exact ⟨fork.source, fork.fired, mem_fanOutsOn mem⟩

section

variable {launch : Launch} {journal : List Event} {path : Path}

theorem fanOutsOn_nil (unsplit : ∀ source fired, .split [] source fired ∉ journal) : fanOutsOn [] journal = [] := by
  refine List.reverse_eq_nil_iff.2 (List.filterMap_eq_nil_iff.2 fun event mem => ?_)
  cases event with
  | split branch source fired =>
    refine if_neg fun root => ?_
    obtain rfl := List.prefix_nil.1 root
    exact unsplit source fired mem
  | _ => rfl

/-- A branch that has not split has met what the branch around it had met when that split, and the split itself. -/
theorem fanOutsOn_snoc {index : Nat} {source : NodeId} {fired : List Nat} {later before : List Event}
    (h : Orderly launch (later ++ .split path source fired :: before)) (tracks : Tracks launch before path)
    (unsplit : ∀ other indices, .split (path ++ [index]) other indices ∉ later ++ .split path source fired :: before) :
    fanOutsOn (path ++ [index]) (later ++ .split path source fired :: before) =
      fanOutsOn path before ++ [⟨path, source, fired⟩] := by
  -- after the split, no branch around the new one splits again
  have nothing : later.filterMap (Event.fanOut? (path ++ [index])) = [] := by
    refine List.filterMap_eq_nil_iff.2 fun event mem => ?_
    cases event with
    | split outer other indices =>
      refine if_neg fun around => ?_
      have again : ∃ origin positions, .split outer origin positions ∈ .split path source fired :: before := by
        rcases List.prefix_concat_iff.1 around with rfl | around
        · exact absurd (List.mem_append_left _ mem) (unsplit other indices)
        · by_cases same : outer = path
          · exact ⟨source, fired, same ▸ List.mem_cons_self⟩
          · obtain ⟨origin, positions, noted⟩ := tracks.exists_split around same
            exact ⟨origin, positions, List.mem_cons_of_mem _ noted⟩
      obtain ⟨origin, positions, noted⟩ := again
      obtain ⟨newer, older, rfl⟩ := List.append_of_mem mem
      have admits := h (.split outer other indices) (older ++ .split path source fired :: before)
        ⟨newer, by simp⟩
      obtain ⟨ending, same⟩ := admits.whole origin positions (List.mem_append_right _ noted)
      cases same
    | _ => rfl
  have kept : before.filterMap (Event.fanOut? (path ++ [index])) = before.filterMap (Event.fanOut? path) := by
    refine List.filterMap_congr fun event mem => ?_
    cases event with
    | split outer other indices =>
      have inner : outer ≠ path ++ [index] := by
        rintro rfl
        exact unsplit other indices (List.mem_append_right _ (List.mem_cons_of_mem _ mem))
      simp only [Event.fanOut?, List.prefix_concat_iff, inner, false_or]
    | _ => rfl
  have own : Event.fanOut? (path ++ [index]) (.split path source fired) = some ⟨path, source, fired⟩ :=
    if_pos (List.prefix_append path [index])
  rw [fanOutsOn, List.filterMap_append, List.filterMap_cons_some own, nothing, kept, List.nil_append,
    List.reverse_cons]
  rfl

/-- **The way of every branch is in the journal**, if the branch has begun and has not split itself. -/
theorem Orderly.tracks (h : Orderly launch journal) (begun : path = [] ∨ ∃ event ∈ journal, event.branch = path)
    (unsplit : ∀ source fired, .split path source fired ∉ journal) : Tracks launch journal path := by
  -- from the branch to the one around it, in the journal as it was when that one split
  induction path using List.reverseRecOn generalizing journal with
  | nil =>
    have noFanOuts := fanOutsOn_nil unsplit
    exact ⟨by rw [noFanOuts]; rfl, noFanOuts ▸ .nil⟩
  | append_singleton outer index ih =>
    obtain ⟨event, mem, here⟩ := begun.resolve_left (by simp)
    obtain ⟨source, advancer, value, earlier, opened, first⟩ := h.opened (by simp) mem here
    obtain ⟨node, fired, rest, rfl, found, responds, fires, noted⟩ := opened.exists_split
    have noted := noted.trans ((List.suffix_cons _ _).trans first)
    have around : Tracks launch (.returned outer node.id (.value value) :: rest) outer := by
      refine ih (h.of_suffix ((List.suffix_cons _ _).trans noted)) (Or.inr ⟨_, List.mem_cons_self, rfl⟩) ?_
      intro other indices among
      obtain ⟨ending, same⟩ := (h _ _ noted).whole other indices among
      cases same
    obtain ⟨firing, several⟩ := (respond_spec launch node outer (.value value)).splits value fired responds
    have takes : TakenAt launch journal ⟨outer, node.id, fired.map Prod.fst⟩ index :=
      ⟨node, value, fired, rest, found, (Node.fired_spec firing).2 several, firing, several, rfl,
        List.mem_map_of_mem fires, noted⟩
    have grows : .returned outer node.id (.value value) :: rest <:+ journal := (List.suffix_cons _ _).trans noted
    have met : fanOutsOn (outer ++ [index]) journal =
        fanOutsOn outer (.returned outer node.id (.value value) :: rest) ++ [⟨outer, node.id, fired.map Prod.fst⟩] := by
      obtain ⟨later, rfl⟩ := noted
      exact fanOutsOn_snoc h around unsplit
    constructor
    · rw [met, List.map_append, around.met, List.length_append, List.length_singleton, List.range_succ, List.map_append]
      congr 1
      · refine List.map_congr_left fun length mem => ?_
        rw [List.take_append_of_le_length (Nat.le_of_lt (List.mem_range.1 mem))]
      · simp
    · rw [met]
      exact List.rel_append (around.taken.imp fun _ _ takes => takes.mono grows) (.cons takes .nil)

end

/-! ## The outputs of a branch -/

@[simp] theorem contributed_resultOf (gather : Gather) (task : TaskId) (ending : Ending) :
    Gather.contributed (gather.resultOf task ending) = ending.yields := by
  cases ending <;> rfl

/-- neither path continues the other, and the first comes first -/
def Path.Precedes (one other : Path) : Prop :=
  one < other ∧ ¬one <+: other ∧ ¬other <+: one

/-- Paths within different branches are apart, and in the order of the branches. -/
theorem Path.precedes_of_index_lt {path first second : Path} {i j : Nat} (one : path ++ [i] <+: first)
    (other : path ++ [j] <+: second) (lt : i < j) : Path.Precedes first second := by
  refine ⟨lt_of_index_lt one other lt, fun before => ?_, fun before => ?_⟩
  · exact Nat.ne_of_lt lt (index_unique (one.trans before) other)
  · exact Nat.ne_of_lt lt (index_unique one (other.trans before))

/-- outputs of a branch, in the order of their paths, each of them that of a branch which ended without having split -/
structure Bunch (journal : List Event) (path : Path) (outputs : List Output) : Prop where
  apart : outputs.Pairwise fun one other => Path.Precedes one.path other.path
  within : ∀ output ∈ outputs, path <+: output.path
  leaves : ∀ output ∈ outputs, ∃ earlier, .ended output.path (.outputs [output]) :: earlier <:+ journal ∧
    ∀ source fired, .split output.path source fired ∉ earlier

theorem bunch_nil (journal : List Event) (path : Path) : Bunch journal path [] :=
  ⟨.nil, by simp, by simp⟩

theorem Bunch.mono {journal more : List Event} {path : Path} {outputs : List Output} (h : Bunch journal path outputs)
    (grows : journal <:+ more) : Bunch more path outputs := by
  refine { h with leaves := fun output mem => ?_ }
  obtain ⟨earlier, noted, unsplit⟩ := h.leaves output mem
  exact ⟨earlier, noted.trans grows, unsplit⟩

/-- The outputs of branches of a fan-out, one after another in the order of the branches, are outputs of the fan-out. -/
theorem Bunch.flatMap {α : Type} {journal : List Event} {path : Path} {xs : List α} {index : α → Nat}
    {outputs : α → List Output} (ordered : (xs.map index).Pairwise (· < ·))
    (each : ∀ x ∈ xs, Bunch journal (path ++ [index x]) (outputs x)) : Bunch journal path (xs.flatMap outputs) := by
  refine ⟨List.pairwise_flatMap.2 ⟨fun x mem => (each x mem).apart, ?_⟩, ?_, ?_⟩
  · refine (List.pairwise_map.1 ordered).imp_of_mem ?_
    intro x y hx hy lt one first other second
    exact Path.precedes_of_index_lt ((each x hx).within one first) ((each y hy).within other second) lt
  · intro output mem
    obtain ⟨x, hx, held⟩ := List.mem_flatMap.1 mem
    exact prefix_of_snoc ((each x hx).within output held)
  · intro output mem
    obtain ⟨x, hx, held⟩ := List.mem_flatMap.1 mem
    exact (each x hx).leaves output held

/-- what a walk that has ended hands on: outputs in order, and some if it succeeded -/
def Bunched (shared : Shared) (path : Path) : Walk → Prop
  | .ended ending => (∀ outputs, ending = .outputs outputs → outputs ≠ []) ∧ Bunch shared.journal path ending.yields
  | _ => True

theorem Bunched.mono {old new : Shared} {path : Path} {walk : Walk} (grows : old.journal <:+ new.journal)
    (h : Bunched old path walk) : Bunched new path walk := by
  cases walk with
  | ended ending => exact ⟨h.1, h.2.mono grows⟩
  | _ => trivial

section

variable {launch : Launch} {path : Path} {shared : Shared} {walk : Walk} {after : Shared × Walk}

theorem fail_bunched {failure : Failure} (single : failure.isSingle = true) (shared : Shared) :
    Walk.Every (Bunched (Walk.fail path shared failure).1) path (Walk.fail path shared failure).2 := by
  refine Walk.every_ended ⟨by simp, ?_⟩
  cases failure with
  | parallelBranches source failures completed => cases single
  | _ => exact bunch_nil _ path

/-- A branch that ends without having split hands on its own output at most. -/
theorem follow_bunched {source : NodeId} {route : Route} (shared : Shared)
    (unsplit : ∀ source fired, .split path source fired ∉ shared.journal)
    (final : ∀ ending, route = .stop ending → Final path ending) :
    Walk.Every (Bunched (Walk.follow path shared source route).1) path (Walk.follow path shared source route).2 := by
  refine Walk.Every.follow ?_ (fun _ _ _ => trivial) (fun _ _ _ => ⟨trivial, fun _ _ => trivial⟩)
  rintro ending rfl
  cases final ending rfl with
  | @output node value =>
    refine ⟨?_, List.pairwise_singleton .., ?_, ?_⟩
    · rintro outputs same
      cases same
      simp
    · intro output mem
      obtain rfl := List.mem_singleton.1 mem
      exact List.prefix_refl path
    · intro output mem
      obtain rfl := List.mem_singleton.1 mem
      exact ⟨shared.journal, List.suffix_refl _, unsplit⟩
  | failed single => exact (fail_bunched single shared).root
  | panicked => exact ⟨by simp, bunch_nil _ path⟩

def Branch.handed (gather : Gather) (branch : Branch Walk) : BranchResult :=
  match branch.walk with
  | .ended ending => gather.resultOf branch.id ending
  | _ => .ok []

/-- A fan-out that waits for no task any more merges what its branches hand to it. -/
theorem Joining.ending_eq_merge {graph : Orchestration} {branches : List (Branch Walk)} {gather : Gather}
    (h : Joining graph branches [] gather) :
    gather.ending = Gather.merge gather.source (branches.map (Branch.handed gather)) := by
  have filled : gather.slots = (branches.map (Branch.handed gather)).map some := by
    refine List.ext_getElem? fun slot => ?_
    rw [List.map_map, List.getElem?_map]
    cases there : branches[slot]? with
    | none =>
      rw [Option.map_none, List.getElem?_eq_none]
      exact h.slots ▸ List.getElem?_eq_none_iff.1 there
    | some branch =>
      obtain ⟨ending, ended, held⟩ := h.received slot branch there (by simp)
      simp [held, Branch.handed, ended]
  simp [Gather.ending, filled]

/-- **A fan-out keeps the outputs of its branches in order**, and if it succeeds there are some. -/
theorem merge_bunch {branches : List (Branch Walk)} {gather : Gather} (tidy : Joining launch.graph branches [] gather)
    (bunched : Walk.Every (Bunched shared) path (.joining branches [] gather)) :
    (∀ outputs, gather.ending = .outputs outputs → outputs ≠ []) ∧
      Bunch shared.journal path gather.ending.yields := by
  have each : ∀ branch ∈ branches, ∃ ending, Branch.handed gather branch = gather.resultOf branch.id ending ∧
      Bunched shared (path ++ [branch.index]) (.ended ending) := by
    intro branch mem
    obtain ⟨slot, there⟩ := List.mem_iff_getElem?.1 mem
    obtain ⟨ending, ended, -⟩ := tidy.received slot branch there (by simp)
    have inside := (bunched.inside branch mem).root
    rw [ended] at inside
    exact ⟨ending, by rw [Branch.handed, ended], inside⟩
  have gathered : Bunch shared.journal path
      ((branches.map (Branch.handed gather)).flatMap Gather.contributed) := by
    rw [List.flatMap_map]
    refine Bunch.flatMap tidy.ordered fun branch mem => ?_
    obtain ⟨ending, handed, -, bunch⟩ := each branch mem
    rw [handed, contributed_resultOf]
    exact bunch
  rw [tidy.ending_eq_merge]
  rcases merge_cases gather.source (branches.map (Branch.handed gather)) with ⟨clean, same⟩ | ⟨-, same⟩
  · rw [same]
    refine ⟨?_, gathered⟩
    -- the first branch has an output, since it did not fail
    rintro outputs held nothing
    obtain rfl := Ending.outputs.inj held
    have positive : 0 < branches.length := Nat.lt_of_lt_of_le (by decide) tidy.several
    have mem : branches[0] ∈ branches := List.getElem_mem positive
    obtain ⟨ending, handed, nonempty, -⟩ := each branches[0] mem
    have well := List.filterMap_eq_nil_iff.1 clean _ (List.mem_map_of_mem mem)
    have empty := List.flatMap_eq_nil_iff.1 nothing _ (List.mem_map_of_mem mem)
    rw [handed] at well empty
    cases ending with
    | outputs reached => exact nonempty reached rfl empty
    | failed failure => cases well
    | panicked panic => cases well
  · rw [same]
    exact ⟨by simp, gathered⟩

/-- **An action keeps the outputs of branches in order.** -/
theorem acts_bunched (h : Walk.Acts launch path shared walk after) (tidy : Tidy launch.graph walk)
    (settled : Settled launch shared path walk) (before : Walk.Every (Bunched shared) path walk) :
    Walk.Every (Bunched after.1) path after.2 := by
  cases h with
  | cross along =>
    refine follow_bunched shared ?_ fun ending stops => along.final path stops
    exact fun source fired noted => settled.2 _ noted (List.prefix_refl path)
  | @finish node completion route responds =>
    have going : Going (shared.record (.returned path node.id completion)).journal path := Going.cons settled rfl rfl
    exact follow_bunched _ going.unsplit fun ending stops => responds.final stops
  | refuse _ violates => exact fail_bunched (isSingle_violation violates) _
  | merge _ =>
    obtain ⟨nonempty, bunch⟩ := merge_bunch tidy before
    exact Walk.every_ended ⟨nonempty, bunch.mono (List.suffix_cons _ _)⟩
  | stray _ | stopped _ _ | exceed _ | dismiss _ | interrupt _ | abandon _ => exact fail_bunched rfl _
  | pass _ _ | number _ _ | begin _ | pause | cancel | observe | hang | resume _ _ => exact Walk.every_whole rfl trivial

theorem turns_bunched (tidy : Walk.Every (fun _ => Tidy launch.graph) path walk)
    (settled : Walk.Every (Settled launch shared) path walk) (h : Walk.Turns launch path shared walk after)
    (before : Walk.Every (Bunched shared) path walk) : Walk.Every (Bunched after.1) path after.2 := by
  refine Walk.Every.turns_apart (P := Bunched)
    (R := fun shared path walk => Tidy launch.graph walk ∧ Settled launch shared path walk) ?_
    (fun acts known before => acts_bunched acts known.root.1 known.root.2 before) (fun _ _ _ _ => trivial)
    (fun _ _ _ _ => trivial) tidy (tidy.and settled) h before
  rintro path old new walk ⟨events, same, -⟩ bunched
  exact bunched.mono (same ▸ List.suffix_append events _)

/-! ## Runs -/

theorem moves_bunched {schedule : List Move} {state : RunState}
    (h : (RunState.start launch).moves launch schedule = some state) :
    Known launch state ∧ Walk.Every (Bunched state.shared) [] state.walk := by
  refine moves_induction_known (P := fun state => Walk.Every (Bunched state.shared) [] state.walk) ?_ ?_ h
    (known_start launch) ?_
  · exact fun known turns before => turns_bunched known.tidy known.settled turns before
  · exact fun branch before => before.mono fun _ _ => Bunched.mono (List.suffix_refl _)
  · exact RunState.every_start ⟨by simp, bunch_nil _ []⟩ fun _ _ => trivial

end

/-- outputs in the order of their paths, which are all different, of which none continues another, and each of which tells
what was taken at the fan-outs on the way to the branch that ended with the output -/
structure Shaped (launch : Launch) (journal : List Event) (outputs : List Output) : Prop where
  distinct : outputs.Pairwise fun one other => one.path ≠ other.path
  increasing : outputs.Pairwise fun one other => one.path < other.path
  prefixFree : outputs.Pairwise fun one other => ¬one.path <+: other.path ∧ ¬other.path <+: one.path
  reached : ∀ output ∈ outputs, .ended output.path (.outputs [output]) ∈ journal
  tracked : ∀ output ∈ outputs, Tracks launch journal output.path

theorem Bunch.shaped {launch : Launch} {journal : List Event} {outputs : List Output} (h : Bunch journal [] outputs)
    (orderly : Orderly launch journal) : Shaped launch journal outputs := by
  refine ⟨?_, h.apart.imp And.left, h.apart.imp And.right, ?_, ?_⟩
  · refine h.apart.imp fun before same => ?_
    exact before.2.1 (same ▸ List.prefix_refl _)
  · intro output mem
    obtain ⟨earlier, noted, -⟩ := h.leaves output mem
    exact noted.subset List.mem_cons_self
  · intro output mem
    obtain ⟨earlier, noted, unsplit⟩ := h.leaves output mem
    have begun : ∃ event ∈ journal, event.branch = output.path := ⟨_, noted.subset List.mem_cons_self, rfl⟩
    exact orderly.tracks (Or.inr begun) fun source fired split =>
      unsplit source fired (orderly.split_before_end split noted)

/-- **The shape of outputs.** Whatever the schedule, and whatever is cancelled: a run that succeeds has an output, its
outputs come in the order of their paths, of which none continues another, and so do those beside the failure of a run that
fails; the components of a path are the positions of the advancers taken at the fan-outs on the way, one for each. Where
only one advancer fires there is no fan-out, and the walk goes on in its branch. -/
theorem outputs_shape {launch : Launch} {schedule : List Move} {state : RunState} {conclusion : Conclusion}
    (moved : (RunState.start launch).moves launch schedule = some state)
    (concluded : state.conclusion? launch = some conclusion) :
    (∀ outcome, conclusion = .succeeded outcome →
      outcome.outputs ≠ [] ∧ Shaped launch state.shared.journal outcome.outputs) ∧
    (∀ failure, conclusion = .failed failure → Shaped launch state.shared.journal failure.partialOutputs) ∧
    ∀ path node output one earlier, launch.graph.node? node.id = some node → node.fired output = .ok [one] →
      .returned path node.id (.value output) :: earlier <:+ state.shared.journal →
      ∃ event, event :: .returned path node.id (.value output) :: earlier <:+ state.shared.journal ∧
        event.branch = path ∧ event.isSplit = false := by
  obtain ⟨known, bunched⟩ := moves_bunched moved
  obtain ⟨ending, ended, same⟩ := RunState.conclusion?_eq_some concluded
  have handed := bunched.root
  rw [ended] at handed
  have shaped : Shaped launch state.shared.journal ending.yields := handed.2.shaped known.orderly
  refine ⟨?_, ?_, ?_⟩
  · rintro outcome rfl
    cases ending with
    | outputs reached =>
      cases same
      exact ⟨handed.1 reached rfl, shaped⟩
    | failed failure => cases same
    | panicked panic => cases same
  · rintro failure rfl
    cases ending with
    | outputs reached => cases same
    | failed other =>
      cases same
      exact shaped
    | panicked panic => cases same
  · intro path node output one earlier found fires noted
    obtain ⟨twin, there, answer⟩ := known.answered path node.id (.value output) earlier noted
    obtain rfl := Option.some.inj (found.symm.trans there)
    refine ⟨_, answer, Route.branch_event .., ?_⟩
    have responds := respond_spec launch node path (.value output)
    cases route : launch.respond node path (.value output) with
    | stop ending => rfl
    | move advancer delivered => rfl
    | split value fired =>
      rw [route] at responds
      obtain ⟨again, several⟩ := responds.splits value fired rfl
      cases responds.completion_of_split
      rw [fires] at again
      cases again
      simp at several

/-- The outputs beside the failure of a run with a fan-out inside another. -/
theorem outputs_shape_nested :
    ∃ state failure, (RunState.start nestedLaunch).moves nestedLaunch nestedSchedule = some state ∧
      state.conclusion? nestedLaunch = some (.failed failure) ∧
      failure.partialOutputs.map Output.path = [[0], [1, 0]] ∧
      Shaped nestedLaunch state.shared.journal failure.partialOutputs := by
  obtain ⟨state, failure, moved, concluded, paths⟩ : ∃ state failure,
      (RunState.start nestedLaunch).moves nestedLaunch nestedSchedule = some state ∧
      state.conclusion? nestedLaunch = some (.failed failure) ∧
      failure.partialOutputs.map Output.path = [[0], [1, 0]] := by
    exact ⟨_, _, rfl, rfl, rfl⟩
  exact ⟨state, failure, moved, concluded, paths, (outputs_shape moved concluded).2.1 failure rfl⟩

end StepFlow
