/-
The result node.

A walk that has executed the result node goes no further: what the step returns is the output of its branch, whatever
advancers the node has. `Absorbs` says what a walk knows of the result node, and `Absorbed`, of a journal, that nothing more
happens on the way of a branch once it was executed there. Results:
- `turns_absorbs`: every walk but those at the result node has yet to come to it, or has ended;
- `acts_absorbed`: an action leaves no entry where the result node was executed before, other than for its end;
- `moves_revised`: what leads on from the result node can be replaced without changing any run;
- `finalValue_least`: the final value is that of the least output, of those of the result node if there are any;
- `result_node_law`: all of it, for every run.
-/
import StepFlow.Proofs.Run.Descending
import StepFlow.Proofs.Run.Recast
import StepFlow.Proofs.Run.Shape

namespace StepFlow

/-! ## What walks know of the result node -/

/-- An output that ends a branch is of the node that it ends at. -/
theorem Responds.node_of_output {launch : Launch} {node : Node} {path : Path} {completion : Completion} {id : NodeId}
    {value : Value} (h : Responds launch node path completion (.stop (.outputs [⟨id, value, path⟩]))) : id = node.id := by
  cases h with
  | result _ _ => rfl
  | rest _ _ _ _ => rfl
  | along _ _ _ along => cases along

/-- **A walk stops at the result node**, whatever its step returns. -/
theorem Responds.stops_at_result {launch : Launch} {node : Node} {path : Path} {completion : Completion} {route : Route}
    (h : Responds launch node path completion route) (designated : launch.graph.result = some node.id) :
    ∃ ending, route = .stop ending := by
  cases h with
  | along _ goes _ _ => exact absurd designated goes
  | split _ goes _ _ => exact absurd designated goes
  | _ => exact ⟨_, rfl⟩

/-- what happens apart from a branch leaves no entry on its way or within it -/
theorem Shared.Apart.earlier {path : Path} {old new : Shared} (h : Shared.Apart path old new) {event : Event}
    (mem : event ∈ new.journal) (near : path <+: event.branch ∨ event.branch <+: path) : event ∈ old.journal := by
  obtain ⟨events, same, apart⟩ := h
  rw [same] at mem
  refine (List.mem_append.1 mem).resolve_left fun mem => ?_
  exact near.elim (apart event mem).1 (apart event mem).2

/-- the walk is at a node that it has executed, and it has executed the result node only if it is at it -/
structure Executes (result : NodeId) (shared : Shared) (path : Path) (node : Node) : Prop where
  here : node.id ∈ shared.executedOn path
  only : ∀ branch step, .started branch result step ∈ shared.journal → branch <+: path → branch = path ∧ node.id = result

/-- The outputs of a branch that has ended tell whether the result node was executed; if it succeeded, there is one for
every branch within it where that was so. -/
structure Delivered (result : NodeId) (shared : Shared) (path : Path) (ending : Ending) : Prop where
  within : ∀ output ∈ ending.yields, path <+: output.path
  told : ∀ output ∈ ending.yields, output.node = result ↔ result ∈ shared.executedOn output.path
  complete : ∀ outputs, ending = .outputs outputs → ∀ branch step, .started branch result step ∈ shared.journal →
    path <+: branch → ∃ output ∈ outputs, output.node = result

/-- what a walk knows of the result node: unless it has ended or is at it, it has not executed it on its way -/
def Absorbs (result : NodeId) (shared : Shared) (path : Path) : Walk → Prop
  | .busy node _ => Executes result shared path node
  | .suspended node _ => Executes result shared path node
  | .joining branches _ _ => result ∉ shared.executedOn path ∧ ∀ event ∈ shared.journal, path <+: event.branch →
      event.branch = path ∨ ∃ branch ∈ branches, path ++ [branch.index] <+: event.branch
  | .ended ending => Delivered result shared path ending
  | _ => result ∉ shared.executedOn path

section

variable {launch : Launch} {result : NodeId} {path : Path} {old new shared : Shared} {walk : Walk}
  {after : Shared × Walk}

theorem Executes.apart {node : Node} (h : Executes result old path node) (apart : Shared.Apart path old new) :
    Executes result new path node := by
  refine ⟨apart.executedOn.symm ▸ h.here, fun branch step noted above => ?_⟩
  exact h.only branch step (apart.earlier noted (Or.inr above)) above

theorem Executes.returned {node : Node} (h : Executes result shared path node) (completion : Completion) :
    Executes result (shared.record (.returned path node.id completion)) path node := by
  refine ⟨?_, fun branch step noted => h.only branch step ((List.mem_cons.1 noted).resolve_left nofun)⟩
  rw [Shared.executedOn, Shared.record, List.filterMap_cons]
  exact h.here

theorem Executes.named {node : Node} (h : Executes result shared path node) (executed : result ∈ shared.executedOn path) :
    node.id = result := by
  obtain ⟨branch, step, noted, above⟩ := Shared.mem_executedOn.1 executed
  exact (h.only branch step noted above).2

theorem Delivered.apart {ending : Ending} (h : Delivered result old path ending) (apart : Shared.Apart path old new) :
    Delivered result new path ending := by
  refine ⟨h.within, fun output mem => ?_, fun outputs same branch step noted inside => ?_⟩
  · obtain ⟨more, inside⟩ := h.within output mem
    have further : Shared.Apart output.path old new := inside ▸ apart.inner
    rw [further.executedOn]
    exact h.told output mem
  · exact h.complete outputs same branch step (apart.earlier noted (Or.inl inside)) inside

theorem Absorbs.apart (apart : Shared.Apart path old new) (h : Absorbs result old path walk) :
    Absorbs result new path walk := by
  have clear : result ∉ old.executedOn path → result ∉ new.executedOn path := fun absent => by
    rw [apart.executedOn]
    exact absent
  cases walk with
  | busy node activity => exact Executes.apart h apart
  | suspended node activity => exact Executes.apart h apart
  | ended ending => exact Delivered.apart h apart
  | joining branches pending gather =>
    refine ⟨clear h.1, fun event mem inside => ?_⟩
    exact h.2 event (apart.earlier mem (Or.inl inside)) inside
  | crossing source advancer value => exact clear h
  | arriving target value => exact clear h
  | admitted node value => exact clear h
  | ready node step value => exact clear h

theorem fail_absorbs {failure : Failure} (single : failure.isSingle = true) (shared : Shared) :
    Walk.Every (Absorbs result (Walk.fail path shared failure).1) path (Walk.fail path shared failure).2 := by
  have noYields : (Ending.failed failure).yields = [] := by
    cases failure with
    | parallelBranches source failures completed => cases single
    | _ => rfl
  exact Walk.every_ended ⟨by simp [noYields], by simp [noYields], by simp⟩

/-- A walk that has not executed the result node goes on like that, or ends with what it has executed last. -/
theorem follow_absorbs {source : NodeId} {route : Route} (shared : Shared)
    (alone : ∀ event ∈ shared.journal, path <+: event.branch → event.branch = path)
    (final : ∀ ending, route = .stop ending → Final path ending)
    (stops : ∀ node value, route = .stop (.outputs [⟨node, value, path⟩]) →
      (node = result ↔ result ∈ shared.executedOn path))
    (goes : (∀ ending, route ≠ .stop ending) → result ∉ shared.executedOn path) :
    Walk.Every (Absorbs result (Walk.follow path shared source route).1) path (Walk.follow path shared source route).2 := by
  refine Walk.Every.follow ?_ ?_ ?_
  · rintro ending rfl
    cases final ending rfl with
    | @output node value =>
      have told := stops node value rfl
      refine ⟨by simp [Ending.yields], ?_, ?_⟩
      · intro output mem
        obtain rfl := List.mem_singleton.1 mem
        rw [Shared.executedOn_follow]
        exact told
      · intro outputs same branch step noted inside
        obtain rfl := Ending.outputs.inj same
        have earlier : .started branch result step ∈ shared.journal := (List.mem_cons.1 noted).resolve_left nofun
        obtain rfl : branch = path := alone _ earlier inside
        exact ⟨_, List.mem_singleton_self _, told.2 (Shared.mem_executedOn.2 ⟨branch, step, earlier, List.prefix_refl _⟩)⟩
    | failed single => exact (fail_absorbs single shared).root
    | panicked => exact ⟨by simp [Ending.yields], by simp [Ending.yields], by simp⟩
  · rintro advancer delivered rfl
    have clear := goes nofun
    rw [← Shared.executedOn_follow path shared source (.move advancer delivered) path] at clear
    exact clear
  · rintro value fired rfl
    have clear := goes nofun
    refine ⟨⟨?_, fun event mem inside => ?_⟩, fun one fires executed => ?_⟩
    · rw [Shared.executedOn_follow]
      exact clear
    · rw [Walk.journal_follow] at mem
      rcases List.mem_cons.1 mem with rfl | mem
      · exact Or.inl rfl
      · exact Or.inl (alone event mem inside)
    · rw [Shared.executedOn_follow] at executed
      exact clear (Shared.executedOn_of_alone alone (List.prefix_append path [one.1]) executed)

/-- **A fan-out hands on what its branches tell.** Where the result node was executed within it, that was in one of its
branches, and a branch that succeeded has an output of it. -/
theorem merge_absorbs {branches : List (Branch Walk)} {gather : Gather} (tidy : Joining launch.graph branches [] gather)
    (before : Walk.Every (Absorbs result shared) path (.joining branches [] gather)) :
    Delivered result (shared.record (.ended path gather.ending)) path gather.ending := by
  obtain ⟨clear, enclosed⟩ := before.root
  have each : ∀ branch ∈ branches, ∃ ending, Branch.handed gather branch = gather.resultOf branch.id ending ∧
      Delivered result shared (path ++ [branch.index]) ending := by
    intro branch mem
    obtain ⟨slot, there⟩ := List.mem_iff_getElem?.1 mem
    obtain ⟨ending, ended, -⟩ := tidy.received slot branch there (by simp)
    have inside := (before.inside branch mem).root
    rw [ended] at inside
    exact ⟨ending, by rw [Branch.handed, ended], inside⟩
  have same : ∀ place, (shared.record (.ended path gather.ending)).executedOn place = shared.executedOn place :=
    fun place => Shared.executedOn_follow path shared gather.source (.stop gather.ending) place
  have gathered : ∀ output ∈ (branches.map (Branch.handed gather)).flatMap Gather.contributed,
      path <+: output.path ∧ (output.node = result ↔ result ∈ shared.executedOn output.path) := by
    intro output mem
    obtain ⟨handed, among, mem⟩ := List.mem_flatMap.1 mem
    obtain ⟨branch, there, rfl⟩ := List.mem_map.1 among
    obtain ⟨ending, given, delivered⟩ := each branch there
    rw [given, contributed_resultOf] at mem
    exact ⟨prefix_of_snoc (delivered.within output mem), delivered.told output mem⟩
  have yields : gather.ending.yields = (branches.map (Branch.handed gather)).flatMap Gather.contributed := by
    rw [tidy.ending_eq_merge, ← contributed_branchResult gather.source, contributed_merge]
  refine ⟨fun output mem => (gathered output (yields ▸ mem)).1, fun output mem => ?_,
    fun outputs whole branch step noted inside => ?_⟩
  · rw [same]
    exact (gathered output (yields ▸ mem)).2
  · have earlier : .started branch result step ∈ shared.journal := (List.mem_cons.1 noted).resolve_left (by simp)
    have apart : branch ≠ path := by
      rintro rfl
      exact clear (Shared.mem_executedOn.2 ⟨branch, step, earlier, List.prefix_refl _⟩)
    obtain ⟨one, there, within⟩ := (enclosed _ earlier inside).resolve_left apart
    obtain ⟨ending, given, delivered⟩ := each one there
    have clean := (merge_eq_outputs (tidy.ending_eq_merge.symm.trans whole)).1
    have well := List.filterMap_eq_nil_iff.1 clean _ (List.mem_map_of_mem there)
    rw [given] at well
    cases ending with
    | outputs reached =>
      obtain ⟨output, mem, named⟩ := delivered.complete reached rfl branch step earlier within
      refine ⟨output, ?_, named⟩
      have handed : output ∈ gather.ending.yields := by
        rw [yields]
        refine List.mem_flatMap.2 ⟨_, List.mem_map_of_mem there, ?_⟩
        rw [given]
        exact mem
      rw [whole] at handed
      exact handed
    | failed failure => cases well
    | panicked panic => cases well

/-- **An action comes to the result node, or ends there.** -/
theorem acts_absorbs (designated : launch.graph.result = some result) (h : Walk.Acts launch path shared walk after)
    (tidy : Tidy launch.graph walk) (settled : Settled launch shared path walk)
    (before : Walk.Every (Absorbs result shared) path walk) : Walk.Every (Absorbs result after.1) path after.2 := by
  have root := before.root
  cases h with
  | @cross source advancer value route along =>
    refine follow_absorbs shared (fun event noted inside => absurd inside (settled.2 event noted))
      (fun ending stops => along.final path stops) (fun node value stops => ?_) fun _ => root
    cases along <;> cases stops
  | @finish node completion route responds =>
    have going : Going (shared.record (.returned path node.id completion)).journal path := settled.cons rfl rfl
    have executes := root.returned completion
    refine follow_absorbs _ going.alone (fun ending stops => responds.final stops) (fun id value stops => ?_) fun goes => ?_
    · subst stops
      rw [responds.node_of_output]
      exact ⟨fun named => named ▸ executes.here, executes.named⟩
    · intro executed
      obtain ⟨ending, stops⟩ := responds.stops_at_result (executes.named executed ▸ designated)
      exact goes ending stops
  | merge _ => exact Walk.every_ended (merge_absorbs tidy before)
  | refuse _ violates => exact fail_absorbs (isSingle_violation violates) _
  | stray _ | stopped _ _ | exceed _ | dismiss _ | interrupt _ | abandon _ => exact fail_absorbs rfl _
  | @pass target value node _ _ => exact Walk.every_whole rfl root
  | number _ _ => exact Walk.every_whole rfl root
  | @begin node step value _ =>
    refine Walk.every_whole rfl ⟨?_, fun branch number noted above => ?_⟩
    · rw [Shared.executedOn_started (List.prefix_refl path)]
      exact List.mem_cons_self
    · rcases List.mem_cons.1 noted with new | noted
      · cases new
        exact ⟨rfl, rfl⟩
      · exact absurd (Shared.mem_executedOn.2 ⟨branch, number, noted, above⟩) root
  | @cancel node scope next =>
    have same := Shared.journal_cancelScope shared launch.control path scope
    have executes : Executes result (shared.cancelScope launch.control path scope) path node :=
      ⟨Shared.executedOn_of_journal same path ▸ root.here, fun branch step noted => root.only branch step (same ▸ noted)⟩
    exact Walk.every_whole rfl executes
  | pause | observe | hang | resume _ _ => exact Walk.every_whole rfl root

theorem turns_absorbs (designated : launch.graph.result = some result)
    (tidy : Walk.Every (fun _ => Tidy launch.graph) path walk) (settled : Walk.Every (Settled launch shared) path walk)
    (h : Walk.Turns launch path shared walk after) (before : Walk.Every (Absorbs result shared) path walk) :
    Walk.Every (Absorbs result after.1) path after.2 := by
  refine Walk.Every.turns_apart (P := Absorbs result)
    (R := fun shared path walk => Tidy launch.graph walk ∧ Settled launch shared path walk) Absorbs.apart
    (fun acts known before => acts_absorbs designated acts known.root.1 known.root.2 before) ?_ ?_ tidy
    (tidy.and settled) h before
  · exact fun _ _ absorbs _ => absorbs
  · intro path old new branches pending gather slot branch walk there growth absorbs
    obtain ⟨clear, enclosed⟩ := absorbs
    obtain ⟨events, same, inside⟩ := growth.journal
    have indices : (branches.set slot { branch with walk := walk }).map Branch.index = branches.map Branch.index :=
      map_set_of_eq there rfl
    have kept : ∀ one ∈ branches, ∃ other ∈ branches.set slot { branch with walk := walk }, other.index = one.index := by
      intro one mem
      exact List.mem_map.1 (indices ▸ List.mem_map_of_mem mem)
    refine ⟨fun executed => ?_, fun event mem within => ?_⟩
    · obtain ⟨place, step, noted, above⟩ := Shared.mem_executedOn.1 executed
      rw [same] at noted
      rcases List.mem_append.1 noted with recent | noted
      · exact not_snoc_prefix ((inside _ recent).trans above)
      · exact clear (Shared.mem_executedOn.2 ⟨place, step, noted, above⟩)
    · rw [same] at mem
      obtain ⟨one, there, beyond⟩ | here :
          (∃ one ∈ branches, path ++ [one.index] <+: event.branch) ∨ event.branch = path := by
        rcases List.mem_append.1 mem with recent | mem
        · exact Or.inl ⟨branch, List.mem_of_getElem? there, inside _ recent⟩
        · exact (enclosed event mem within).symm
      · obtain ⟨other, among, named⟩ := kept one there
        exact Or.inr ⟨other, among, named ▸ beyond⟩
      · exact Or.inl here

end

/-! ## What comes after the result node -/

/-- what may still happen on the way of a branch or within it once the result node was executed there: the step returns, and
the branch ends, and then those around it -/
def Ceases (result : NodeId) (path : Path) (event : Event) : Prop :=
  (∃ completion, event = .returned path result completion) ∨ ∃ inner ending, event = .ended inner ending ∧ inner <+: path

/-- a journal in which nothing else happens -/
def Absorbed (result : NodeId) (journal : List Event) : Prop :=
  ∀ path step later earlier, journal = later ++ .started path result step :: earlier → ∀ event ∈ later,
    path <+: event.branch ∨ event.branch <+: path → Ceases result path event

section

variable {launch : Launch} {result : NodeId} {path : Path} {shared : Shared} {walk : Walk} {after : Shared × Walk}
  {journal : List Event}

theorem Absorbed.cons {event : Event} (h : Absorbed result journal)
    (ceases : ∀ path step, .started path result step ∈ journal → path <+: event.branch ∨ event.branch <+: path →
      Ceases result path event) : Absorbed result (event :: journal) := by
  intro path step later earlier same other mem near
  cases later with
  | nil => cases mem
  | cons first rest =>
    obtain ⟨rfl, below⟩ := List.cons.inj same
    rcases List.mem_cons.1 mem with rfl | mem
    · exact ceases path step (below ▸ List.mem_append_right _ List.mem_cons_self) near
    · exact h path step rest earlier below other mem near

/-- What happens on a branch with no branch within it comes after nothing but what was executed on its own way. -/
theorem Absorbed.cons_alone {event : Event} (h : Absorbed result shared.journal) (here : event.branch = path)
    (alone : ∀ event ∈ shared.journal, path <+: event.branch → event.branch = path)
    (ceases : ∀ branch step, .started branch result step ∈ shared.journal → branch <+: path →
      Ceases result branch event) : Absorbed result (event :: shared.journal) := by
  refine h.cons fun branch step noted near => ceases branch step noted ?_
  rw [here] at near
  rcases near with above | within
  · exact above
  · exact (alone _ noted within : branch = path) ▸ List.prefix_refl _

theorem Absorbed.fresh {event : Event} (h : Absorbed result shared.journal) (here : event.branch = path)
    (clear : result ∉ shared.executedOn path)
    (alone : ∀ event ∈ shared.journal, path <+: event.branch → event.branch = path) :
    Absorbed result (event :: shared.journal) :=
  h.cons_alone here alone fun branch step noted above =>
    absurd (Shared.mem_executedOn.2 ⟨branch, step, noted, above⟩) clear

theorem Absorbed.ended {ending : Ending} (h : Absorbed result shared.journal) (clear : result ∉ shared.executedOn path) :
    Absorbed result (.ended path ending :: shared.journal) := by
  refine h.cons fun branch step noted near => ?_
  rcases near with above | within
  · exact absurd (Shared.mem_executedOn.2 ⟨branch, step, noted, above⟩) clear
  · exact Or.inr ⟨path, ending, rfl, within⟩

/-- What a walk does at its node comes after an execution of the result node only if it is at it. -/
theorem Absorbed.at_node {node : Node} {event : Event} (h : Absorbed result shared.journal) (here : event.branch = path)
    (executes : Executes result shared path node)
    (alone : ∀ event ∈ shared.journal, path <+: event.branch → event.branch = path)
    (ceases : node.id = result → Ceases result path event) : Absorbed result (event :: shared.journal) := by
  refine h.cons_alone here alone fun branch step noted above => ?_
  obtain ⟨rfl, named⟩ := executes.only branch step noted above
  exact ceases named

/-- **An action leaves no entry after the result node**, other than for its end. -/
theorem acts_absorbed (designated : launch.graph.result = some result) (h : Walk.Acts launch path shared walk after)
    (settled : Settled launch shared path walk) (knows : Absorbs result shared path walk)
    (before : Absorbed result shared.journal) : Absorbed result after.1.journal := by
  cases h with
  | cross _ =>
    rw [Walk.journal_follow]
    exact before.fresh (Route.branch_event ..) knows fun event noted inside => absurd inside (settled.2 event noted)
  | @finish node completion route responds =>
    rw [Walk.journal_follow]
    have returned : Absorbed result (shared.record (.returned path node.id completion)).journal :=
      before.at_node rfl knows settled.alone fun named => Or.inl ⟨completion, named ▸ rfl⟩
    have going : Going (shared.record (.returned path node.id completion)).journal path := settled.cons rfl rfl
    refine returned.at_node (Route.branch_event ..) (knows.returned completion) going.alone fun named => ?_
    obtain ⟨ending, rfl⟩ := responds.stops_at_result (named ▸ designated)
    exact Or.inr ⟨path, ending, rfl, List.prefix_refl path⟩
  | @begin node step value _ => exact before.fresh rfl knows settled.alone
  | cancel =>
    rw [Shared.journal_cancelScope]
    exact before
  | interrupt _ => exact before.at_node rfl knows settled.alone fun _ => Or.inr ⟨path, _, rfl, List.prefix_refl path⟩
  | abandon _ => exact before.ended knows.1
  | merge _ => exact before.ended knows.1
  | stray _ | stopped _ _ | exceed _ | refuse _ _ | dismiss _ => exact before.ended knows
  | pass _ _ | number _ _ | pause | observe | hang | resume _ _ => exact before

end

/-! ## Runs -/

section

variable {launch : Launch} {result : NodeId} {schedule : List Move} {state : RunState}

/-- **Every walk of every run absorbs the result node.** -/
theorem moves_absorbs (designated : launch.graph.result = some result)
    (h : (RunState.start launch).moves launch schedule = some state) :
    Walk.Every (Absorbs result state.shared) [] state.walk ∧ Absorbed result state.shared.journal := by
  refine (moves_induction_known (P := fun state => Walk.Every (Absorbs result state.shared) [] state.walk ∧
    Absorbed result state.shared.journal) ?_ ?_ h (known_start launch) ⟨?_, ?_⟩).2
  · rintro state after known turns ⟨absorbs, absorbed⟩
    refine ⟨turns_absorbs designated known.tidy known.settled turns absorbs, ?_⟩
    rcases turns.action (known.settled.and absorbs) with same | ⟨inner, one, next, ⟨settled, knows⟩, acts, same⟩
    · exact same ▸ absorbed
    · exact same ▸ acts_absorbed designated acts settled knows absorbed
  · rintro state branch ⟨absorbs, absorbed⟩
    have apart : ∀ path, Shared.Apart path state.shared (state.shared.cancel branch) := fun path => ⟨[], rfl, by simp⟩
    exact ⟨absorbs.mono fun path walk => Absorbs.apart (apart path), absorbed⟩
  · have nothing : (Ending.failed .noEntry).yields = [] := rfl
    refine RunState.every_start ⟨by simp [nothing], by simp [nothing], by simp⟩ fun entry _ => ?_
    simp [Absorbs, Shared.executedOn, RunState.start]
  · intro path step later earlier same
    cases later <;> cases same

end

/-! ## What leads on from the result node -/

/-- the nodes of a name lead elsewhere; all others are as they were -/
def Recast.revised (id : NodeId) (advancers : List Advancer) (deadEnd : Bool) : Recast where
  node one := if one.id = id then { one with advancers := advancers, deadEnd := deadEnd } else one
  id one := by split <;> rfl
  step one := by split <;> rfl

/-- **Where the result node leads is never looked at.** Whatever it is replaced by, nobody sees a difference between the
runs. -/
theorem moves_revised {launch : Launch} {result : NodeId} (designated : launch.graph.result = some result)
    (advancers : List Advancer) (deadEnd : Bool) (schedule : List Move) :
    let other := launch.recast (.revised result advancers deadEnd)
    ((RunState.start other).moves other schedule).map (RunState.seen other) =
      ((RunState.start launch).moves launch schedule).map (RunState.seen launch) := by
  refine seen_recast fun earlier _ state _ path node completion found returned => ?_
  refine respond_recast fun output _ _ goes => ?_
  have elsewhere : node.id ≠ result := fun named => goes (named ▸ designated)
  have same : (Recast.revised result advancers deadEnd).node node = node := if_neg elsewhere
  rw [same]
  exact ⟨rfl, rfl⟩

/-! ## The final value -/

/-- an output of a list is at the least path of those that a test passes -/
structure Foremost (passes : Output → Prop) (outputs : List Output) (output : Output) : Prop where
  mem : output ∈ outputs
  passed : passes output
  least : ∀ other ∈ outputs, passes other → other = output ∨ output.path < other.path

section

variable {outputs : List Output}

/-- The first output is at the least path. -/
theorem foremost_head (ordered : outputs.Pairwise fun one other => one.path < other.path) {output : Output}
    (head : outputs.head? = some output) : Foremost (fun _ => True) outputs output := by
  obtain ⟨rest, rfl⟩ := List.head?_eq_some_iff.1 head
  refine ⟨List.mem_cons_self, trivial, fun other mem _ => ?_⟩
  rcases List.mem_cons.1 mem with rfl | mem
  · exact Or.inl rfl
  · exact Or.inr ((List.pairwise_cons.1 ordered).1 other mem)

/-- The first output that passes a test is at the least path of those that do. -/
theorem foremost_find (ordered : outputs.Pairwise fun one other => one.path < other.path) {test : Output → Bool}
    {output : Output} (found : outputs.find? test = some output) :
    Foremost (fun one => test one = true) outputs output := by
  obtain ⟨passed, before, after, rfl, failed⟩ := List.find?_eq_some_iff_append.1 found
  refine ⟨by simp, passed, fun other mem passes => ?_⟩
  rcases List.mem_append.1 mem with mem | mem
  · exact absurd passes (by simpa using failed other mem)
  · have behind := List.pairwise_append.1 ordered
    rcases List.mem_cons.1 mem with rfl | mem
    · exact Or.inl rfl
    · exact Or.inr ((List.pairwise_cons.1 behind.2.1).1 other mem)

/-- **The final value of outputs in the order of their paths** is that of the foremost output of the result node, or of the
foremost output if none is of the result node. -/
theorem finalValue_foremost {outcome : Outcome} (nonempty : outcome.outputs ≠ [])
    (ordered : outcome.outputs.Pairwise fun one other => one.path < other.path) :
    ∃ output, outcome.finalValue = some output.value ∧
      ((∃ other ∈ outcome.outputs, outcome.result = some other.node) →
        Foremost (fun one => outcome.result = some one.node) outcome.outputs output) ∧
      ((∀ other ∈ outcome.outputs, outcome.result ≠ some other.node) →
        Foremost (fun _ => True) outcome.outputs output) := by
  obtain ⟨first, rest, listed⟩ := List.exists_cons_of_ne_nil nonempty
  have head : outcome.outputs.head? = some first := by rw [listed]; rfl
  cases designated : outcome.result with
  | none =>
    refine ⟨first, by simp [Outcome.finalValue, designated, head], by simp, fun _ => foremost_head ordered head⟩
  | some result =>
    cases found : outcome.outputs.find? fun output => output.node == result with
    | none =>
      have absent : ∀ other ∈ outcome.outputs, other.node ≠ result := by simpa using found
      refine ⟨first, by simp [Outcome.finalValue, designated, found, head], ?_, fun _ => foremost_head ordered head⟩
      rintro ⟨other, mem, same⟩
      exact absurd (Option.some.inj same).symm (absent other mem)
    | some output =>
      have foremost := foremost_find ordered found
      have named : some result = some output.node := congrArg some (beq_iff_eq.1 foremost.passed).symm
      refine ⟨output, by simp [Outcome.finalValue, designated, found], fun _ => ?_, fun absent => ?_⟩
      · refine ⟨foremost.mem, ?_, fun other mem same => foremost.least other mem ?_⟩
        · exact named
        · exact beq_iff_eq.2 (Option.some.inj same).symm
      · exact absurd named (absent output foremost.mem)

end

def Conclusion.outputs : Conclusion → List Output
  | .succeeded outcome => outcome.outputs
  | .failed failure => failure.partialOutputs
  | .panicked _ => []

theorem outputs_conclusion (launch : Launch) (steps : Nat) (ending : Ending) :
    (ending.conclusion launch steps).outputs = ending.yields := by
  cases ending <;> rfl

/-- **The result node is absorbing and decides the final value.** Once a branch has executed it, nothing more is executed on
the way of that branch: its step returns, and the branches end. An output, of a run that succeeds or beside the failure of one
that does not, is of the result node exactly if that was executed on the way of its branch. Nobody sees a difference if the
result node gets other advancers or comes to rest otherwise, so none of their guards and converters is asked. A run that
succeeds has a final value: that of the foremost output of the result node, if a branch has executed it, and that of the
foremost output of all, if none has. -/
theorem result_node_law {launch : Launch} {schedule : List Move} {state : RunState}
    (moved : (RunState.start launch).moves launch schedule = some state) :
    (∀ result, launch.graph.result = some result →
      Absorbed result state.shared.journal ∧
      (∀ conclusion, state.conclusion? launch = some conclusion → ∀ output ∈ conclusion.outputs,
        output.node = result ↔ result ∈ state.shared.executedOn output.path) ∧
      ∀ advancers deadEnd schedule,
        let other := launch.recast (.revised result advancers deadEnd)
        ((RunState.start other).moves other schedule).map (RunState.seen other) =
          ((RunState.start launch).moves launch schedule).map (RunState.seen launch)) ∧
    ∀ outcome, state.conclusion? launch = some (.succeeded outcome) →
      ∃ output, outcome.finalValue = some output.value ∧
        ((∃ branch id step, .started branch id step ∈ state.shared.journal ∧ launch.graph.result = some id) →
          Foremost (fun one => launch.graph.result = some one.node) outcome.outputs output) ∧
        ((∀ branch id step, .started branch id step ∈ state.shared.journal → launch.graph.result ≠ some id) →
          Foremost (fun _ => True) outcome.outputs output) := by
  have delivers : ∀ result, launch.graph.result = some result → ∀ conclusion,
      state.conclusion? launch = some conclusion → ∃ ending, conclusion = ending.conclusion launch state.shared.drawn ∧
        Delivered result state.shared [] ending := by
    intro result designated conclusion concluded
    obtain ⟨ending, ended, same⟩ := RunState.conclusion?_eq_some concluded
    have root := (moves_absorbs designated moved).1.root
    rw [ended] at root
    exact ⟨ending, same, root⟩
  refine ⟨fun result designated => ⟨(moves_absorbs designated moved).2, ?_, moves_revised designated⟩, ?_⟩
  · intro conclusion concluded output mem
    obtain ⟨ending, rfl, delivered⟩ := delivers result designated conclusion concluded
    rw [outputs_conclusion] at mem
    exact delivered.told output mem
  · intro outcome concluded
    obtain ⟨nonempty, shaped⟩ := (outputs_shape moved concluded).1 outcome rfl
    obtain ⟨output, value, first, otherwise⟩ := finalValue_foremost nonempty shaped.increasing
    obtain ⟨ending, -, same⟩ := RunState.conclusion?_eq_some concluded
    have named : outcome.result = launch.graph.result := by cases ending <;> cases same; rfl
    rw [named] at first otherwise
    refine ⟨output, value, fun executed => first ?_, fun never => otherwise fun other mem designated => ?_⟩
    · obtain ⟨branch, result, step, noted, designated⟩ := executed
      obtain ⟨ending, same, delivered⟩ := delivers result designated _ concluded
      cases ending with
      | outputs reached =>
        cases same
        obtain ⟨other, mem, named⟩ := delivered.complete reached rfl branch step noted List.nil_prefix
        exact ⟨other, mem, named ▸ designated⟩
      | failed failure => cases same
      | panicked panic => cases same
    · obtain ⟨ending, same, delivered⟩ := delivers other.node designated _ concluded
      have yielded : other ∈ ending.yields := by
        rw [← outputs_conclusion launch state.shared.drawn ending, ← same]
        exact mem
      obtain ⟨branch, step, noted, -⟩ := Shared.mem_executedOn.1 ((delivered.told other yielded).1 rfl)
      exact never branch other.node step noted designated

/-- a node that splits into a branch that comes to rest by itself and one that comes to the result node, from which an
advancer leads back -/
def returningLaunch : Launch :=
  { graph :=
      { nodes := [
          { id := ⟨"a"⟩, step := .identity .string, parallel := true,
            advancers := [.always (.direct ⟨"b"⟩), .always (.direct ⟨"r"⟩)] },
          { id := ⟨"b"⟩, step := { input := .string, output := .string, run := fun _ _ => .done (.str "y") },
            deadEnd := true },
          { id := ⟨"r"⟩, step := .identity .string, advancers := [.always (.direct ⟨"a"⟩)] }],
        entry := some ⟨"a"⟩, result := some ⟨"r"⟩ }
    input := .str "x" }

/-- The branch of the result node ends last and is received last. -/
def returningSchedule : List Move :=
  List.replicate 4 (.turn .act) ++ List.replicate 5 (.turn (.within 0 .act)) ++ [.turn (.receive 0)] ++
    List.replicate 5 (.turn (.within 1 .act)) ++ [.turn (.receive 1), .turn .act]

theorem result_node_law_returning :
    ∃ state outcome output, (RunState.start returningLaunch).moves returningLaunch returningSchedule = some state ∧
      state.conclusion? returningLaunch = some (.succeeded outcome) ∧ outcome.outputs.map Output.path = [[0], [1]] ∧
      .started [1] ⟨"r"⟩ 3 ∈ state.shared.journal ∧ Absorbed ⟨"r"⟩ state.shared.journal ∧
      outcome.finalValue = some output.value ∧ output.value = .str "x" ∧
      Foremost (fun one => returningLaunch.graph.result = some one.node) outcome.outputs output := by
  obtain ⟨state, outcome, moved, concluded, paths, noted, value⟩ : ∃ state outcome,
      (RunState.start returningLaunch).moves returningLaunch returningSchedule = some state ∧
      state.conclusion? returningLaunch = some (.succeeded outcome) ∧ outcome.outputs.map Output.path = [[0], [1]] ∧
      .started [1] ⟨"r"⟩ 3 ∈ state.shared.journal ∧ outcome.finalValue = some (.str "x") := by
    exact ⟨_, _, rfl, rfl, rfl, List.mem_of_getElem? (i := 3) rfl, rfl⟩
  obtain ⟨absorbing, final⟩ := result_node_law moved
  obtain ⟨output, same, foremost, -⟩ := final outcome concluded
  have taken : output.value = .str "x" := Option.some.inj (same.symm.trans value)
  exact ⟨state, outcome, output, moved, concluded, paths, noted, (absorbing _ rfl).1, same, taken,
    foremost ⟨_, _, _, noted, rfl⟩⟩

end StepFlow
