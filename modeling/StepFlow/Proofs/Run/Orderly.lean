/-
In which order things happen to a branch.

Whatever the schedule and whatever is cancelled, the entries of a branch come in an order. `Settled` says what a walk knows
of the entries of its own branch, `Admits` what an entry needs of those before it, and `Orderly` that a journal has no
entry without that. A branch is opened by the split of the branch around it; it splits once at most, and then only ends,
once all of its branches have; nothing happens to it after its end; and every step that returns is answered at once.
Results:
- `turns_settled`: every walk in a tree knows the entries of its branch;
- `acts_orderly`: an action leaves an entry only where it may come;
- `moves_known`: all of it holds at every point of every run;
- `Orderly.split_unique`, `Orderly.split_before_end`, `Orderly.opened`: what the beginning, the split and the end of a
  branch say about each other.
-/
import StepFlow.Proofs.Run.Beside

namespace StepFlow

/-- A step leads to branches only with the value that it returned. -/
theorem Responds.completion_of_split {launch : Launch} {node : Node} {path : Path} {completion : Completion}
    {value : Value} {fired : List (Nat × Advancer)} (h : Responds launch node path completion (.split value fired)) :
    completion = .value value := by
  cases h with
  | along _ _ _ along => exact absurd rfl (along.ne_split value fired)
  | split _ _ _ _ => rfl

/-! ## What a walk knows of its branch -/

/-- The branch was started for an advancer that fired, beside others, on what a step of the branch around it returned; the
journal has the split right behind the return. -/
inductive Opened (launch : Launch) (journal : List Event) : Path → NodeId → Advancer → Value → Prop where
  | intro {path : Path} {node : Node} {value : Value} {fired : List (Nat × Advancer)} {index : Nat} {advancer : Advancer}
      {earlier : List Event} : launch.graph.node? node.id = some node →
      launch.respond node path (.value value) = .split value fired → (index, advancer) ∈ fired →
      .split path node.id (fired.map Prod.fst) :: .returned path node.id (.value value) :: earlier <:+ journal →
      Opened launch journal (path ++ [index]) node.id advancer value

/-- A branch that has been opened is one of those of a split, and the split is behind the return that led to it. -/
theorem Opened.exists_split {launch : Launch} {journal : List Event} {path : Path} {index : Nat} {source : NodeId}
    {advancer : Advancer} {value : Value} (h : Opened launch journal (path ++ [index]) source advancer value) :
    ∃ (node : Node) (fired : List (Nat × Advancer)) (earlier : List Event), node.id = source ∧
      launch.graph.node? node.id = some node ∧ launch.respond node path (.value value) = .split value fired ∧
      (index, advancer) ∈ fired ∧
      .split path node.id (fired.map Prod.fst) :: .returned path node.id (.value value) :: earlier <:+ journal := by
  generalize same : path ++ [index] = place at h
  cases h with
  | intro found responds fires noted =>
    obtain ⟨rfl, last⟩ := List.append_inj' same rfl
    cases last
    exact ⟨_, _, _, rfl, found, responds, fires, noted⟩

theorem Opened.mono {launch : Launch} {journal more : List Event} {path : Path} {source : NodeId} {advancer : Advancer}
    {value : Value} (h : Opened launch journal path source advancer value) (grows : journal <:+ more) :
    Opened launch more path source advancer value := by
  cases h with
  | intro found splits fires noted => exact .intro found splits fires (noted.trans grows)

/-- the branch has begun, and it has neither split nor ended -/
structure Going (journal : List Event) (path : Path) : Prop where
  begun : path = [] ∨ ∃ event ∈ journal, event.branch = path
  alone : ∀ event ∈ journal, path <+: event.branch → event.branch = path
  calm : ∀ event ∈ journal, event.branch = path → event.isLandmark = false

/-- the branch has split, once, and has not ended -/
structure Forked (journal : List Event) (path : Path) (source : NodeId) (fired : List Nat) : Prop where
  noted : .split path source fired ∈ journal
  once : ∀ other indices, .split path other indices ∈ journal → other = source ∧ indices = fired
  unended : ∀ ending, .ended path ending ∉ journal

/-- what a walk knows of the entries of its branch; a run without an entry has ended before there is any -/
def Settled (launch : Launch) (shared : Shared) (path : Path) : Walk → Prop
  | .crossing source advancer value =>
    Opened launch shared.journal path source advancer value ∧ ∀ event ∈ shared.journal, ¬path <+: event.branch
  | .joining branches _ gather => Forked shared.journal path gather.source (branches.map Branch.index)
  | .ended ending => .ended path ending ∈ shared.journal ∨ path = [] ∧ shared.journal = []
  | _ => Going shared.journal path

theorem Going.cons {journal : List Event} {path : Path} {event : Event} (h : Going journal path)
    (here : event.branch = path) (calm : event.isLandmark = false) : Going (event :: journal) path := by
  refine ⟨Or.inr ⟨event, List.mem_cons_self, here⟩, ?_, ?_⟩
  · intro other mem inside
    rcases List.mem_cons.1 mem with rfl | mem
    · exact here
    · exact h.alone other mem inside
  · intro other mem same
    rcases List.mem_cons.1 mem with rfl | mem
    · exact calm
    · exact h.calm other mem same

theorem Going.unsplit {journal : List Event} {path : Path} (h : Going journal path) (source : NodeId) (fired : List Nat) :
    .split path source fired ∉ journal := by
  intro noted
  cases h.calm _ noted rfl

theorem unended_of_settled {launch : Launch} {shared : Shared} {path : Path} {walk : Walk} (h : Settled launch shared path walk)
    (going : ∀ ending, walk ≠ .ended ending) (ending : Ending) : .ended path ending ∉ shared.journal := by
  intro noted
  have calm : ¬Going shared.journal path := fun going => by cases going.calm _ noted rfl
  cases walk with
  | crossing source advancer value => exact h.2 _ noted (List.prefix_refl path)
  | joining branches pending gather => exact h.unended ending noted
  | ended final => exact going final rfl
  | arriving target value => exact calm h
  | admitted node value => exact calm h
  | ready node step value => exact calm h
  | busy node activity => exact calm h
  | suspended node activity => exact calm h

theorem Settled.beside {launch : Launch} {path : Path} {old new : Shared} {walk : Walk} (outside : Shared.Beside path old new)
    (h : Settled launch old path walk) : Settled launch new path walk := by
  obtain ⟨events, same, outside⟩ := outside
  have grows : old.journal <:+ new.journal := same ▸ List.suffix_append events _
  -- an entry of the branch, or of one within, is not new
  have earlier : ∀ event ∈ new.journal, path <+: event.branch → event ∈ old.journal := by
    intro event mem inside
    rw [same] at mem
    exact (List.mem_append.1 mem).resolve_left fun mem => outside event mem inside
  have going : Going old.journal path → Going new.journal path := by
    rintro ⟨begun, alone, calm⟩
    refine ⟨begun.imp_right ?_, fun event mem inside => alone event (earlier event mem inside) inside,
      fun event mem here => calm event (earlier event mem (here ▸ List.prefix_refl _)) here⟩
    rintro ⟨event, mem, here⟩
    exact ⟨event, grows.subset mem, here⟩
  cases walk with
  | crossing source advancer value =>
    exact ⟨h.1.mono grows, fun event mem inside => h.2 event (earlier event mem inside) inside⟩
  | joining branches pending gather =>
    refine ⟨grows.subset h.noted, fun other indices noted => ?_, fun ending noted => ?_⟩
    · exact h.once other indices (earlier _ noted (List.prefix_refl path))
    · exact h.unended ending (earlier _ noted (List.prefix_refl path))
  | ended ending =>
    refine h.imp (fun noted => grows.subset noted) fun ⟨root, empty⟩ => ⟨root, ?_⟩
    refine List.eq_nil_iff_forall_not_mem.2 fun event mem => ?_
    have before := earlier event mem (root ▸ List.nil_prefix)
    rw [empty] at before
    cases before
  | arriving target value => exact going h
  | admitted node value => exact going h
  | ready node step value => exact going h
  | busy node activity => exact going h
  | suspended node activity => exact going h

section

variable {launch : Launch} {path : Path} {shared : Shared} {walk : Walk} {after : Shared × Walk}

theorem close_settled (shared : Shared) (ending : Ending) :
    Walk.Every (Settled launch (Walk.close path shared ending).1) path (Walk.close path shared ending).2 :=
  Walk.every_ended (Or.inl List.mem_cons_self)

/-- A walk that takes a route knows the entry that it leaves, and each branch that it starts is new. -/
theorem follow_settled {source : NodeId} {route : Route} (shared : Shared)
    (alone : ∀ event ∈ shared.journal, path <+: event.branch → event.branch = path)
    (calm : ∀ event ∈ shared.journal, event.branch = path → event.isLandmark = false)
    (splits : ∀ value fired, route = .split value fired → ∃ (node : Node) (earlier : List Event), node.id = source ∧
      launch.graph.node? node.id = some node ∧ launch.respond node path (.value value) = .split value fired ∧
      shared.journal = .returned path node.id (.value value) :: earlier) :
    Walk.Every (Settled launch (Walk.follow path shared source route).1) path (Walk.follow path shared source route).2 := by
  refine Walk.Every.follow ?_ ?_ ?_
  · rintro ending rfl
    exact Or.inl List.mem_cons_self
  · rintro advancer delivered rfl
    refine ⟨Or.inr ⟨_, List.mem_cons_self, rfl⟩, ?_, ?_⟩
    · intro event mem inside
      rcases List.mem_cons.1 mem with rfl | mem
      · rfl
      · exact alone event mem inside
    · intro event mem here
      rcases List.mem_cons.1 mem with rfl | mem
      · rfl
      · exact calm event mem here
  · rintro value fired rfl
    obtain ⟨node, earlier, rfl, found, responds, journal⟩ := splits value fired rfl
    have indices := Walk.map_index_branches_fanOut path shared node.id value fired
    constructor
    · -- the walk has the split on top, and nothing like it below
      change Forked _ path node.id ((Walk.fanOut path shared node.id value fired).2.branches.map Branch.index)
      rw [indices]
      refine ⟨List.mem_cons_self, ?_, ?_⟩
      · intro other positions noted
        rcases List.mem_cons.1 noted with same | noted
        · cases same
          exact ⟨rfl, rfl⟩
        · cases calm _ noted rfl
      · intro ending noted
        rcases List.mem_cons.1 noted with same | noted
        · cases same
        · cases calm _ noted rfl
    · rintro ⟨index, advancer⟩ fires
      have opened : .split path node.id (fired.map Prod.fst) :: .returned path node.id (.value value) :: earlier <:+
          (Walk.follow path shared node.id (.split value fired)).1.journal := by
        rw [Walk.journal_follow, journal]
        exact List.suffix_refl _
      refine ⟨.intro found responds fires opened, ?_⟩
      intro event mem inside
      rw [Walk.journal_follow] at mem
      have here : event.branch = path := by
        rcases List.mem_cons.1 mem with rfl | mem
        · rfl
        · exact alone event mem (prefix_of_snoc inside)
      rw [here] at inside
      exact not_snoc_prefix inside

/-- **An action keeps what walks know of their branches.** -/
theorem acts_settled (h : Walk.Acts launch path shared walk after) (tidy : Tidy launch.graph walk)
    (before : Settled launch shared path walk) : Walk.Every (Settled launch after.1) path after.2 := by
  cases h with
  | cross along =>
    obtain ⟨-, fresh⟩ := before
    refine follow_settled shared ?_ ?_ fun value fired same => absurd same (along.ne_split value fired)
    · exact fun event mem inside => absurd inside (fresh event mem)
    · exact fun event mem here => absurd (here ▸ List.prefix_refl _) (fresh event mem)
  | @finish node completion route responds =>
    have going : Going (shared.record (.returned path node.id completion)).journal path := before.cons rfl rfl
    refine follow_settled _ going.alone going.calm ?_
    rintro value fired rfl
    obtain rfl := responds.completion_of_split
    exact ⟨node, shared.journal, rfl, tidy, responds.eq.symm, rfl⟩
  | begin _ =>
    have going : Going shared.journal path := before
    exact Walk.every_whole rfl (going.cons rfl rfl)
  | @cancel node scope next =>
    have going : Going (shared.cancelScope launch.control path scope).journal path := by
      rw [Shared.journal_cancelScope]
      exact before
    exact Walk.every_whole rfl going
  | pass _ _ | number _ _ | pause | observe | hang | resume _ _ => exact Walk.every_whole rfl before
  | stray _ | stopped _ _ | exceed _ | refuse _ _ | dismiss _ | interrupt _ | abandon _ | merge _ =>
    exact close_settled _ _

/-- **Every walk in a tree knows the entries of its branch**, after every turn. -/
theorem turns_settled (tidy : Walk.Every (fun _ => Tidy launch.graph) path walk)
    (h : Walk.Turns launch path shared walk after) (before : Walk.Every (Settled launch shared) path walk) :
    Walk.Every (Settled launch after.1) path after.2 := by
  refine Walk.Every.turns_apart (P := Settled launch) (R := fun _ _ => Tidy launch.graph)
    (fun apart known => Settled.beside apart.beside known)
    (fun acts known before => acts_settled acts known.root before.root) ?_ ?_ tidy tidy h before
  · intro path shared branches pending gather slot id index ending _ _ forked _
    rw [Settled, Gather.source_receive]
    exact forked
  · intro path old new branches pending gather slot branch walk there growth forked
    obtain ⟨events, same, inside⟩ := growth.journal
    have earlier : ∀ event ∈ new.journal, event.branch = path → event ∈ old.journal := by
      intro event mem here
      rw [same] at mem
      refine (List.mem_append.1 mem).resolve_left fun mem => ?_
      have within := inside event mem
      rw [here] at within
      exact not_snoc_prefix within
    have indices : (branches.set slot { branch with walk := walk }).map Branch.index = branches.map Branch.index :=
      map_set_of_eq there rfl
    rw [Settled, indices]
    refine ⟨same ▸ List.mem_append_right _ forked.noted, ?_, ?_⟩
    · exact fun other positions noted => forked.once other positions (earlier _ noted rfl)
    · exact fun ending noted => forked.unended ending (earlier _ noted rfl)

end

/-! ## What an entry needs of those before it -/

/-- what an entry of the journal needs of those before it -/
structure Admits (launch : Launch) (earlier : List Event) (event : Event) : Prop where
  /-- nothing happens to a branch after its end -/
  unended : ∀ ending, .ended event.branch ending ∉ earlier
  /-- a branch that has split only ends -/
  whole : ∀ source fired, .split event.branch source fired ∈ earlier → ∃ ending, event = .ended event.branch ending
  /-- first of all a branch takes the advancer that it was started for -/
  opened : event.branch = [] ∨ (∃ other ∈ earlier, other.branch = event.branch) ∨ ∃ source advancer value,
    Opened launch earlier event.branch source advancer value ∧
      event = (launch.graph.along source advancer value).event event.branch source
  /-- a branch that has split ends after all of its branches -/
  joined : ∀ path ending source fired, event = .ended path ending → .split path source fired ∈ earlier →
    ∀ index ∈ fired, ∃ ending, .ended (path ++ [index]) ending ∈ earlier
  /-- a branch is taken down by the answer to a step, or by its own advancer -/
  panicked : ∀ path panic, event = .ended path (.panicked panic) →
    (∃ (node : Node) (completion : Completion) (rest : List Event),
      earlier = .returned path node.id completion :: rest ∧ launch.graph.node? node.id = some node ∧
        launch.respond node path completion = .stop (.panicked panic)) ∨
    ∃ source advancer value, Opened launch earlier path source advancer value ∧
      launch.graph.along source advancer value = .stop (.panicked panic)

/-- a journal in which every entry comes where it may -/
def Orderly (launch : Launch) (journal : List Event) : Prop :=
  ∀ event earlier, event :: earlier <:+ journal → Admits launch earlier event

/-- a journal in which every step that returns is answered at once, as its node does -/
def Answered (launch : Launch) (journal : List Event) : Prop :=
  ∀ path id completion earlier, .returned path id completion :: earlier <:+ journal →
    ∃ node, launch.graph.node? id = some node ∧
      (launch.respond node path completion).event path id :: .returned path id completion :: earlier <:+ journal

section

variable {launch : Launch} {journal : List Event} {path : Path} {event : Event}

theorem orderly_nil : Orderly launch [] := by
  intro event earlier noted
  cases List.suffix_nil.1 noted

theorem answered_nil : Answered launch [] := by
  intro path id completion earlier noted
  cases List.suffix_nil.1 noted

theorem Orderly.of_suffix {earlier : List Event} (h : Orderly launch journal) (tail : earlier <:+ journal) :
    Orderly launch earlier :=
  fun event rest noted => h event rest (noted.trans tail)

theorem Orderly.cons (h : Orderly launch journal) (admits : Admits launch journal event) :
    Orderly launch (event :: journal) := by
  intro one earlier noted
  rcases List.suffix_cons_iff.1 noted with same | noted
  · obtain ⟨rfl, rfl⟩ := List.cons.inj same
    exact admits
  · exact h one earlier noted

theorem Answered.cons (h : Answered launch journal) (other : ∀ path id completion, event ≠ .returned path id completion) :
    Answered launch (event :: journal) := by
  intro path id completion earlier noted
  rcases List.suffix_cons_iff.1 noted with same | noted
  · exact absurd (List.cons.inj same).1.symm (other path id completion)
  · obtain ⟨node, found, answer⟩ := h path id completion earlier noted
    exact ⟨node, found, answer.trans (List.suffix_cons _ _)⟩

theorem Route.event_ne_returned {source : NodeId} (route : Route) (place : Path) (id : NodeId) (completion : Completion) :
    route.event path source ≠ .returned place id completion := by
  cases route <;> simp [Route.event]

theorem Answered.respond (h : Answered launch journal) {node : Node} {completion : Completion}
    (found : launch.graph.node? node.id = some node) :
    Answered launch ((launch.respond node path completion).event path node.id ::
      .returned path node.id completion :: journal) := by
  intro place id result earlier noted
  rcases List.suffix_cons_iff.1 noted with same | noted
  · exact absurd (List.cons.inj same).1.symm (Route.event_ne_returned _ _ _ _)
  · rcases List.suffix_cons_iff.1 noted with same | noted
    · cases same
      exact ⟨node, found, List.suffix_refl _⟩
    · obtain ⟨other, there, answer⟩ := h place id result earlier noted
      exact ⟨other, there, answer.trans ((List.suffix_cons _ _).trans (List.suffix_cons _ _))⟩

/-- A walk that has neither split nor ended may do anything, but what takes it down has to be said. -/
theorem Going.admits (h : Going journal path) (here : event.branch = path)
    (panicked : ∀ panic, event = .ended path (.panicked panic) →
      ∃ (node : Node) (completion : Completion) (rest : List Event),
        journal = .returned path node.id completion :: rest ∧ launch.graph.node? node.id = some node ∧
          launch.respond node path completion = .stop (.panicked panic)) : Admits launch journal event := by
  subst here
  refine ⟨?_, ?_, h.begun.imp_right Or.inl, ?_, ?_⟩
  · intro ending noted
    cases h.calm _ noted rfl
  · exact fun source fired noted => absurd noted (h.unsplit source fired)
  · rintro path ending source fired rfl noted
    exact absurd noted (h.unsplit source fired)
  · rintro path panic rfl
    exact Or.inl (panicked panic rfl)

theorem Going.admits_failed (h : Going journal path) (failure : Failure) :
    Admits launch journal (.ended path (.failed failure)) :=
  h.admits rfl (by simp)

/-- A branch that has just been started takes its advancer. -/
theorem Opened.admits {source : NodeId} {advancer : Advancer} {value : Value} {route : Route}
    (h : Opened launch journal path source advancer value) (fresh : ∀ event ∈ journal, ¬path <+: event.branch)
    (along : Along launch.graph source advancer value route) : Admits launch journal (route.event path source) := by
  have absent : ∀ event ∈ journal, event.branch ≠ path := fun event mem here =>
    fresh event mem (here ▸ List.prefix_refl _)
  obtain rfl := along.eq
  generalize aim : (launch.graph.along source advancer value).event path source = event
  have here : event.branch = path := by rw [← aim, Route.branch_event]
  subst here
  refine ⟨?_, ?_, Or.inr (Or.inr ⟨source, advancer, value, h, aim.symm⟩), ?_, ?_⟩
  · exact fun ending noted => absent _ noted rfl
  · exact fun source fired noted => (absent _ noted rfl).elim
  · rintro path ending other fired rfl noted
    exact (absent _ noted rfl).elim
  · rintro path panic rfl
    refine Or.inr ⟨source, advancer, value, h, ?_⟩
    cases route : launch.graph.along source advancer value with
    | stop ending =>
      rw [route] at aim
      rw [(Event.ended.inj aim).2]
    | move advancer delivered => rw [route] at aim; cases aim
    | split value fired => rw [route] at aim; cases aim

/-- A fan-out that waits for no task any more may end, though not by a panic. -/
theorem Forked.admits {source : NodeId} {fired : List Nat} {ending : Ending} (h : Forked journal path source fired)
    (joined : ∀ index ∈ fired, ∃ ending, .ended (path ++ [index]) ending ∈ journal)
    (caught : ∀ panic, ending ≠ .panicked panic) : Admits launch journal (.ended path ending) := by
  refine ⟨h.unended, fun _ _ _ => ⟨ending, rfl⟩, Or.inr (Or.inl ⟨_, h.noted, rfl⟩), ?_, ?_⟩
  · intro place final other indices same noted
    cases same
    obtain ⟨-, rfl⟩ := h.once other indices noted
    exact joined
  · intro place panic same
    cases same
    exact absurd rfl (caught panic)

end

/-! ## Runs -/

section

variable {launch : Launch} {path : Path} {shared : Shared} {walk : Walk} {after : Shared × Walk}

theorem ended_of_joining {branches : List (Branch Walk)} {gather : Gather}
    (tidy : Joining launch.graph branches [] gather)
    (settled : Walk.Every (Settled launch shared) path (.joining branches [] gather)) :
    ∀ index ∈ branches.map Branch.index, ∃ ending, .ended (path ++ [index]) ending ∈ shared.journal := by
  intro index mem
  obtain ⟨branch, among, rfl⟩ := List.mem_map.1 mem
  obtain ⟨slot, there⟩ := List.mem_iff_getElem?.1 among
  obtain ⟨ending, ended, -⟩ := tidy.received slot branch there (by simp)
  have inside := (settled.inside branch among).root
  rw [ended] at inside
  exact ⟨ending, inside.resolve_right fun ⟨root, _⟩ => by simp at root⟩

/-- **An action leaves an entry only where it may come**, and answers a step that returns. -/
theorem acts_orderly (h : Walk.Acts launch path shared walk after) (tidy : Tidy launch.graph walk)
    (settled : Walk.Every (Settled launch shared) path walk) (before : Orderly launch shared.journal)
    (answered : Answered launch shared.journal) : Orderly launch after.1.journal ∧ Answered launch after.1.journal := by
  have known := settled.root
  cases h with
  | cross along =>
    rw [Walk.journal_follow]
    exact ⟨before.cons (known.1.admits known.2 along), answered.cons (Route.event_ne_returned _)⟩
  | @finish node completion route responds =>
    rw [Walk.journal_follow, responds.eq]
    have going : Going (.returned path node.id completion :: shared.journal) path := Going.cons known rfl rfl
    have returns : Orderly launch (.returned path node.id completion :: shared.journal) :=
      before.cons (Going.admits known rfl (by simp))
    refine ⟨returns.cons (going.admits (Route.branch_event ..) ?_), answered.respond tidy⟩
    intro panic same
    refine ⟨node, completion, shared.journal, rfl, tidy, ?_⟩
    cases route : launch.respond node path completion with
    | stop ending =>
      rw [route] at same
      rw [(Event.ended.inj same).2]
    | move advancer delivered => rw [route] at same; cases same
    | split value fired => rw [route] at same; cases same
  | begin _ => exact ⟨before.cons (Going.admits known rfl (by simp)), answered.cons (by simp)⟩
  | cancel =>
    rw [Shared.journal_cancelScope]
    exact ⟨before, answered⟩
  | abandon _ =>
    exact ⟨before.cons (Forked.admits known (ended_of_joining tidy settled) (by simp)), answered.cons (by simp)⟩
  | @merge branches gather _ =>
    exact ⟨before.cons (Forked.admits known (ended_of_joining tidy settled) (merge_ne_panicked _ _)),
      answered.cons (by simp)⟩
  | stray _ | stopped _ _ | exceed _ | refuse _ _ | dismiss _ | interrupt _ =>
    exact ⟨before.cons (Going.admits_failed known _), answered.cons (by simp)⟩
  | pass _ _ | number _ _ | pause | observe | hang | resume _ _ => exact ⟨before, answered⟩

theorem turns_orderly (tidy : Walk.Every (fun _ => Tidy launch.graph) path walk)
    (settled : Walk.Every (Settled launch shared) path walk) (h : Walk.Turns launch path shared walk after)
    (before : Orderly launch shared.journal) (answered : Answered launch shared.journal) :
    Orderly launch after.1.journal ∧ Answered launch after.1.journal := by
  rcases h.action (tidy.and settled.nested) with same | ⟨inner, one, result, ⟨tidy, settled⟩, acts, same⟩
  · rw [same]
    exact ⟨before, answered⟩
  · rw [same]
    exact acts_orderly acts tidy settled before answered

/-- what is known of every run -/
structure Known (launch : Launch) (state : RunState) : Prop where
  tidy : Walk.Every (fun _ => Tidy launch.graph) [] state.walk
  settled : Walk.Every (Settled launch state.shared) [] state.walk
  orderly : Orderly launch state.shared.journal
  answered : Answered launch state.shared.journal

theorem Known.turns {state : RunState} (h : Known launch state)
    (turns : Walk.Turns launch [] state.shared state.walk after) : Known launch ⟨after.1, after.2⟩ := by
  obtain ⟨orderly, answered⟩ := turns_orderly h.tidy h.settled turns h.orderly h.answered
  exact ⟨turns_tidy turns h.tidy, turns_settled h.tidy turns h.settled, orderly, answered⟩

theorem Known.cancel {state : RunState} (h : Known launch state) (branch : Path) :
    Known launch { state with shared := state.shared.cancel branch } :=
  { h with settled := Walk.Every.beside (P := Settled launch) Settled.beside h.settled (.of_journal rfl) }

/-- What every turn of a run in which all is known keeps, and every cancellation, holds throughout. -/
theorem moves_induction_known {P : RunState → Prop}
    (turn : ∀ {state : RunState} {after : Shared × Walk}, Known launch state →
      Walk.Turns launch [] state.shared state.walk after → P state → P ⟨after.1, after.2⟩)
    (cancel : ∀ {state : RunState} (branch : Path), P state → P { state with shared := state.shared.cancel branch })
    {schedule : List Move} {state after : RunState} (h : state.moves launch schedule = some after)
    (known : Known launch state) (begins : P state) : Known launch after ∧ P after := by
  refine RunState.moves_induction (P := fun state => Known launch state ∧ P state) ?_ ?_ h ⟨known, begins⟩
  · rintro state after turns ⟨known, before⟩
    exact ⟨known.turns turns, turn known turns before⟩
  · rintro state branch ⟨known, before⟩
    exact ⟨known.cancel branch, cancel branch before⟩

theorem known_start (launch : Launch) : Known launch (RunState.start launch) := by
  refine ⟨@moves_tidy launch [] _ rfl, ?_, orderly_nil, answered_nil⟩
  exact RunState.every_start (Or.inr ⟨rfl, rfl⟩) fun _ _ => ⟨Or.inl rfl, by simp [RunState.start], by simp [RunState.start]⟩

/-- **Every walk of every run knows the entries of its branch**, the entries are in order, and every step that returned
was answered. -/
theorem moves_known {schedule : List Move} {state : RunState}
    (h : (RunState.start launch).moves launch schedule = some state) : Known launch state :=
  (moves_induction_known (P := fun _ => True) (fun _ _ _ => trivial) (fun _ _ => trivial) h (known_start launch)
    trivial).1

end

/-! ## Splits and beginnings -/

/-- Of two entries of a journal, one came before the other, unless they are the same. -/
theorem suffix_cases {first second : Event} {rest more journal : List Event} (one : first :: rest <:+ journal)
    (other : second :: more <:+ journal) :
    (first = second ∧ rest = more) ∨ first :: rest <:+ more ∨ second :: more <:+ rest := by
  rcases List.suffix_or_suffix_of_suffix one other with inside | inside
  · rcases List.suffix_cons_iff.1 inside with same | inside
    · exact Or.inl (List.cons.inj same)
    · exact Or.inr (Or.inl inside)
  · rcases List.suffix_cons_iff.1 inside with same | inside
    · obtain ⟨rfl, rfl⟩ := List.cons.inj same
      exact Or.inl ⟨rfl, rfl⟩
    · exact Or.inr (Or.inr inside)

theorem exists_first {journal : List Event} {path : Path} {event : Event} (mem : event ∈ journal)
    (here : event.branch = path) : ∃ first earlier, first :: earlier <:+ journal ∧ first.branch = path ∧
      ∀ other ∈ earlier, other.branch ≠ path := by
  induction journal generalizing event with
  | nil => cases mem
  | cons last rest ih =>
    by_cases before : ∃ other ∈ rest, other.branch = path
    · obtain ⟨other, among, same⟩ := before
      obtain ⟨first, earlier, noted, begins⟩ := ih among same
      exact ⟨first, earlier, noted.trans (List.suffix_cons _ _), begins⟩
    · have fresh : ∀ other ∈ rest, other.branch ≠ path := fun other among same => before ⟨other, among, same⟩
      obtain rfl : event = last := (List.mem_cons.1 mem).resolve_right fun among => fresh event among here
      exact ⟨event, rest, List.suffix_refl _, here, fresh⟩

namespace Orderly

variable {launch : Launch} {journal earlier : List Event} {path : Path}

/-- **A branch splits once.** -/
theorem split_unique (h : Orderly launch journal) {source other : NodeId} {fired indices : List Nat}
    {rest more : List Event} (first : .split path source fired :: rest <:+ journal)
    (second : .split path other indices :: more <:+ journal) : source = other ∧ fired = indices ∧ rest = more := by
  rcases suffix_cases first second with ⟨same, rfl⟩ | before | before
  · cases same
    exact ⟨rfl, rfl, rfl⟩
  · obtain ⟨ending, same⟩ := (h _ _ second).whole source fired (before.subset List.mem_cons_self)
    cases same
  · obtain ⟨ending, same⟩ := (h _ _ first).whole other indices (before.subset List.mem_cons_self)
    cases same

/-- A branch that splits and ends has split before it ends. -/
theorem split_before_end (h : Orderly launch journal) {source : NodeId} {fired : List Nat} {ending : Ending}
    (split : .split path source fired ∈ journal) (ended : .ended path ending :: earlier <:+ journal) :
    .split path source fired ∈ earlier := by
  obtain ⟨rest, noted⟩ := exists_suffix_of_mem split
  rcases suffix_cases noted ended with ⟨same, -⟩ | before | after
  · cases same
  · exact before.subset List.mem_cons_self
  · exact absurd (after.subset List.mem_cons_self) ((h _ _ noted).unended ending)

/-- **A branch other than the root has been opened** before anything has happened to it, and has first taken the advancer
that it was started for. -/
theorem opened (h : Orderly launch journal) (inner : path ≠ []) {event : Event} (mem : event ∈ journal)
    (here : event.branch = path) : ∃ source advancer value earlier, Opened launch earlier path source advancer value ∧
      (launch.graph.along source advancer value).event path source :: earlier <:+ journal := by
  obtain ⟨first, earlier, noted, begins, fresh⟩ := exists_first mem here
  obtain none | ⟨other, among, same⟩ | ⟨source, advancer, value, opened, same⟩ := (h first earlier noted).opened
  · exact absurd (begins.symm.trans none) inner
  · exact absurd (same.trans begins) (fresh other among)
  · rw [begins] at opened same
    exact ⟨source, advancer, value, earlier, opened, same ▸ noted⟩

end Orderly

end StepFlow
