/-
What one turn of a run can do.

`Walk.Acts` lists the actions of a walk, each with what it has checked, and `Walk.Turns` the turns of a tree of walks:
an action at the root, a fan-out that receives a task which has ended, or a turn within one of its branches. Every
invariant of runs is proved by cases on the first and by induction on the second. Results:
- `turns_grows`: a turn only adds to what is shared, and every entry it puts into the journal belongs to its branch or
  to a branch within;
- `Every.turns`: a property of single walks that is kept by every action is kept by every turn, anywhere in the tree;
- `moves_induction`: what every turn and every cancellation keeps holds at the end of every schedule.
-/
import Mathlib.Data.List.Induction
import StepFlow.Proofs.Run.Routing
import StepFlow.Run.Outcome

namespace StepFlow

def Event.branch : Event → Path
  | .started branch _ _ => branch
  | .returned branch _ _ => branch
  | .moved branch _ _ _ => branch
  | .split branch _ _ => branch
  | .ended branch _ => branch

/-- the entry of the journal for a route that a walk takes from `source` -/
def Route.event (branch : Path) (source : NodeId) : Route → Event
  | .stop ending => .ended branch ending
  | .move advancer delivered => .moved branch source advancer delivered
  | .split _ fired => .split branch source (fired.map Prod.fst)

def Route.tasks : Route → Nat
  | .split _ fired => fired.length
  | _ => 0

@[simp] theorem Event.branch_returned (branch : Path) (node : NodeId) (completion : Completion) :
    (Event.returned branch node completion).branch = branch := rfl

@[simp] theorem Route.branch_event (branch : Path) (source : NodeId) (route : Route) :
    (route.event branch source).branch = branch := by
  cases route <;> rfl

namespace Shared

def counted (shared : Shared) : Shared :=
  { shared with drawn := shared.drawn + 1 }

/-- `new` has come from `old` by what happened on a branch and within: nothing is taken back, and new entries belong
there -/
structure Grows (branch : Path) (old new : Shared) : Prop where
  drawn : old.drawn ≤ new.drawn
  spawned : old.spawned ≤ new.spawned
  cancelled : old.cancelled <:+ new.cancelled
  journal : ∃ events, new.journal = events ++ old.journal ∧ ∀ event ∈ events, branch <+: event.branch

theorem Grows.refl (branch : Path) (shared : Shared) : Grows branch shared shared :=
  ⟨Nat.le_refl _, Nat.le_refl _, List.suffix_refl _, [], rfl, by simp⟩

theorem Grows.trans {branch : Path} {a b c : Shared} (first : Grows branch a b) (second : Grows branch b c) :
    Grows branch a c := by
  obtain ⟨events, same, within⟩ := first.journal
  obtain ⟨more, again, beyond⟩ := second.journal
  refine ⟨Nat.le_trans first.drawn second.drawn, Nat.le_trans first.spawned second.spawned,
    first.cancelled.trans second.cancelled, more ++ events, by rw [again, same, List.append_assoc], fun event mem => ?_⟩
  rcases List.mem_append.1 mem with mem | mem
  · exact beyond event mem
  · exact within event mem

theorem Grows.outer {branch inner : Path} {old new : Shared} (h : Grows (branch ++ inner) old new) :
    Grows branch old new := by
  obtain ⟨events, same, within⟩ := h.journal
  exact ⟨h.drawn, h.spawned, h.cancelled, events, same,
    fun event mem => (List.prefix_append branch inner).trans (within event mem)⟩

theorem Grows.record {branch : Path} (shared : Shared) {event : Event} (here : event.branch = branch) :
    Grows branch shared (shared.record event) :=
  ⟨Nat.le_refl _, Nat.le_refl _, List.suffix_refl _, [event], rfl, fun other mem => by
    simp [List.mem_singleton.1 mem, here]⟩

theorem Grows.cancel (branch : Path) (shared : Shared) (path : Path) : Grows branch shared (shared.cancel path) :=
  ⟨Nat.le_refl _, Nat.le_refl _, List.suffix_cons _ _, [], rfl, by simp⟩

theorem Grows.cancelScope (shared : Shared) (control : Control) (branch : Path) (scope : Scope) :
    Grows branch shared (shared.cancelScope control branch scope) := by
  cases scope with
  | branch => exact .cancel branch shared branch
  | caller =>
    cases control with
    | own => exact .refl branch shared
    | caller cancelled => exact .cancel branch shared []

theorem Grows.counted (branch : Path) (shared : Shared) : Grows branch shared shared.counted :=
  ⟨Nat.le_succ _, Nat.le_refl _, List.suffix_refl _, [], rfl, by simp⟩

theorem Grows.cancelled_eq_nil {branch : Path} {old new : Shared} (h : Grows branch old new)
    (live : new.cancelled = []) : old.cancelled = [] := by
  have := h.cancelled
  rwa [live, List.suffix_nil] at this

@[simp] theorem drawn_cancelScope (shared : Shared) (control : Control) (branch : Path) (scope : Scope) :
    (shared.cancelScope control branch scope).drawn = shared.drawn := by
  cases scope with
  | branch => rfl
  | caller => cases control <;> rfl

@[simp] theorem spawned_cancelScope (shared : Shared) (control : Control) (branch : Path) (scope : Scope) :
    (shared.cancelScope control branch scope).spawned = shared.spawned := by
  cases scope with
  | branch => rfl
  | caller => cases control <;> rfl

@[simp] theorem journal_cancelScope (shared : Shared) (control : Control) (branch : Path) (scope : Scope) :
    (shared.cancelScope control branch scope).journal = shared.journal := by
  cases scope with
  | branch => rfl
  | caller => cases control <;> rfl

@[simp] theorem journal_counted (shared : Shared) : shared.counted.journal = shared.journal := rfl

theorem isCancelled_of_nil {shared : Shared} (live : shared.cancelled = []) (branch : Path) :
    shared.isCancelled branch = false := by
  simp [isCancelled, live]

end Shared

namespace Walk

@[simp] theorem drawn_follow (path : Path) (shared : Shared) (source : NodeId) (route : Route) :
    (follow path shared source route).1.drawn = shared.drawn := by
  cases route <;> rfl

@[simp] theorem spawned_follow (path : Path) (shared : Shared) (source : NodeId) (route : Route) :
    (follow path shared source route).1.spawned = shared.spawned + route.tasks := by
  cases route <;> rfl

@[simp] theorem journal_follow (path : Path) (shared : Shared) (source : NodeId) (route : Route) :
    (follow path shared source route).1.journal = route.event path source :: shared.journal := by
  cases route <;> rfl

/-! ## Actions -/

/-- the actions of the walk at the root, with the state after each -/
inductive Acts (launch : Launch) (path : Path) (shared : Shared) : Walk → Shared × Walk → Prop where
  | cross {source : NodeId} {advancer : Advancer} {value : Value} {route : Route} :
      Along launch.graph source advancer value route →
      Acts launch path shared (.crossing source advancer value) (follow path shared source route)
  | stray {target : NodeId} {value : Value} : launch.graph.node? target = none →
      Acts launch path shared (.arriving target value) (fail path shared (.unknownNode target target))
  | stopped {target : NodeId} {value : Value} {node : Node} : launch.graph.node? target = some node →
      shared.isCancelled path = true →
      Acts launch path shared (.arriving target value) (fail path shared (.cancelled node.id))
  | pass {target : NodeId} {value : Value} {node : Node} : launch.graph.node? target = some node →
      shared.isCancelled path = false → Acts launch path shared (.arriving target value) (shared, .admitted node value)
  | exceed {node : Node} {value : Value} {limit : Nat} :
      launch.config.limitBefore (shared.drawn + 1) = some limit →
      Acts launch path shared (.admitted node value) (fail path shared.counted (.stepLimitExceeded limit node.id))
  | refuse {node : Node} {value : Value} {failure : Failure} : launch.config.limitBefore (shared.drawn + 1) = none →
      launch.config.violation node .input value = some failure →
      Acts launch path shared (.admitted node value) (fail path shared.counted failure)
  | number {node : Node} {value : Value} : launch.config.limitBefore (shared.drawn + 1) = none →
      launch.config.violation node .input value = none →
      Acts launch path shared (.admitted node value) (shared.counted, .ready node (shared.drawn + 1) value)
  | dismiss {node : Node} {step : Nat} {value : Value} : shared.isCancelled path = true →
      Acts launch path shared (.ready node step value) (fail path shared (.cancelled node.id))
  | begin {node : Node} {step : Nat} {value : Value} : shared.isCancelled path = false →
      Acts launch path shared (.ready node step value) (shared.record (.started path node.id step),
        .busy node (node.step.run value { node := node.id, step := step, branch := path }))
  | finish {node : Node} {completion : Completion} {route : Route} : Responds launch node path completion route →
      Acts launch path shared (.busy node (.finish completion))
        (follow path (shared.record (.returned path node.id completion)) node.id route)
  | pause {node : Node} {next : Activity} :
      Acts launch path shared (.busy node (.pause next)) (shared, .suspended node next)
  | cancel {node : Node} {scope : Scope} {next : Activity} :
      Acts launch path shared (.busy node (.cancel scope next))
        (shared.cancelScope launch.control path scope, .busy node next)
  | observe {node : Node} {next : Bool → Activity} :
      Acts launch path shared (.busy node (.observe next)) (shared, .busy node (next (shared.isCancelled path)))
  | hang {node : Node} : Acts launch path shared (.busy node .hang) (shared, .suspended node .hang)
  | interrupt {node : Node} {activity : Activity} : shared.isCancelled path = true →
      Acts launch path shared (.suspended node activity) (fail path shared (.cancelled node.id))
  | resume {node : Node} {activity : Activity} : shared.isCancelled path = false → activity ≠ .hang →
      Acts launch path shared (.suspended node activity) (shared, .busy node activity)
  | abandon {branches : List (Branch Walk)} {gather : Gather} : shared.isCancelled path = true →
      Acts launch path shared (.joining branches [] gather) (fail path shared (.cancelled gather.source))
  | merge {branches : List (Branch Walk)} {gather : Gather} : shared.isCancelled path = false →
      Acts launch path shared (.joining branches [] gather) (close path shared gather.ending)

theorem acts_of_act {launch : Launch} {path : Path} {shared : Shared} {walk : Walk} {after : Shared × Walk}
    (h : walk.act launch path shared = some after) : Acts launch path shared walk after := by
  cases walk with
  | crossing source advancer value =>
    cases h
    exact .cross (along_spec ..)
  | arriving target value =>
    simp only [act] at h
    split at h
    · rename_i missing; cases h; exact .stray missing
    · rename_i node found
      split at h
      · rename_i cancelled; cases h; exact .stopped found cancelled
      · rename_i live; cases h; exact .pass found (by simpa using live)
  | admitted node value =>
    simp only [act, draw] at h
    split at h
    · rename_i limit beyond; cases h; exact .exceed beyond
    · rename_i within
      split at h
      · rename_i failure violates; cases h; exact .refuse within violates
      · rename_i fits; cases h; exact .number within fits
  | ready node step value =>
    simp only [act] at h
    split at h
    · rename_i cancelled; cases h; exact .dismiss cancelled
    · rename_i live; cases h; exact .begin (by simpa using live)
  | busy node activity =>
    simp only [act] at h
    cases activity with
    | finish completion => cases h; exact .finish (respond_spec ..)
    | pause next => cases h; exact .pause
    | cancel scope next => cases h; exact .cancel
    | observe next => cases h; exact .observe
    | hang => cases h; exact .hang
  | suspended node activity =>
    simp only [act] at h
    split at h
    · rename_i cancelled; cases h; exact .interrupt cancelled
    · rename_i live
      split at h
      · cases h
      · rename_i goes; cases h; exact .resume (by simpa using live) goes
  | joining branches pending gather =>
    simp only [act] at h
    split at h
    · rename_i done
      obtain rfl := List.isEmpty_iff.1 done
      split at h
      · rename_i cancelled; cases h; exact .abandon cancelled
      · rename_i live; cases h; exact .merge (by simpa using live)
    · cases h
  | ended ending => cases h

/-! ## Turns -/

/-- the turns of a tree of walks, with the state after each -/
inductive Turns (launch : Launch) : Path → Shared → Walk → Shared × Walk → Prop where
  | act {path : Path} {shared : Shared} {walk : Walk} {after : Shared × Walk} :
      Acts launch path shared walk after → Turns launch path shared walk after
  | receive {path : Path} {shared : Shared} {branches : List (Branch Walk)} {pending : List TaskId} {gather : Gather}
      {slot : Nat} {id : TaskId} {index : Nat} {ending : Ending} :
      branches[slot]? = some ⟨id, index, .ended ending⟩ → id ∈ pending →
      Turns launch path shared (.joining branches pending gather)
        (shared, .joining branches (pending.erase id) (gather.receive id ending))
  | within {path : Path} {shared : Shared} {branches : List (Branch Walk)} {pending : List TaskId} {gather : Gather}
      {slot : Nat} {branch : Branch Walk} {after : Shared × Walk} : branches[slot]? = some branch →
      Turns launch (path ++ [branch.index]) shared branch.walk after →
      Turns launch path shared (.joining branches pending gather)
        (after.1, .joining (branches.set slot { branch with walk := after.2 }) pending gather)

theorem turns_of_turn {launch : Launch} {turn : Turn} {path : Path} {shared : Shared} {walk : Walk}
    {after : Shared × Walk} (h : walk.turn launch turn path shared = some after) :
    Turns launch path shared walk after := by
  induction turn generalizing path walk after with
  | act => exact .act (acts_of_act h)
  | receive slot =>
    cases walk with
    | joining branches pending gather =>
      simp only [turn] at h
      split at h
      · rename_i id index ending there
        split at h
        · rename_i waiting; cases h; exact .receive there waiting
        · cases h
      · cases h
    | _ => cases h
  | within slot inner ih =>
    cases walk with
    | joining branches pending gather =>
      simp only [turn] at h
      split at h
      · cases h
      · rename_i branch there
        obtain ⟨result, taken, rfl⟩ := Option.map_eq_some_iff.1 h
        exact .within there (ih taken)
    | _ => cases h

/-! ## What is shared grows -/

theorem close_grows (path : Path) (shared : Shared) (ending : Ending) :
    Shared.Grows path shared (close path shared ending).1 :=
  .record shared rfl

theorem follow_grows (path : Path) (shared : Shared) (source : NodeId) (route : Route) :
    Shared.Grows path shared (follow path shared source route).1 := by
  cases route with
  | stop ending => exact close_grows path shared ending
  | move advancer delivered => exact .record shared rfl
  | split value fired =>
    have spawned : Shared.Grows path shared { shared with spawned := shared.spawned + fired.length } :=
      ⟨Nat.le_refl _, Nat.le_add_right _ _, List.suffix_refl _, [], rfl, by simp⟩
    exact spawned.trans (.record _ rfl)

theorem acts_grows {launch : Launch} {path : Path} {shared : Shared} {walk : Walk} {after : Shared × Walk}
    (h : Acts launch path shared walk after) : Shared.Grows path shared after.1 := by
  cases h with
  | cross _ => exact follow_grows ..
  | exceed _ => exact (Shared.Grows.counted path shared).trans (close_grows ..)
  | refuse _ _ => exact (Shared.Grows.counted path shared).trans (close_grows ..)
  | number _ _ => exact .counted path shared
  | begin _ => exact .record shared rfl
  | @finish node completion route _ =>
    have recorded : Shared.Grows path shared (shared.record (.returned path node.id completion)) := .record shared rfl
    exact recorded.trans (follow_grows ..)
  | cancel => exact .cancelScope ..
  | pass _ _ | pause | observe | hang | resume _ _ => exact .refl path shared
  | stray _ | stopped _ _ | dismiss _ | interrupt _ | abandon _ | merge _ => exact close_grows ..

/-- An action leaves entries of its own branch only. -/
theorem acts_records {launch : Launch} {path : Path} {shared : Shared} {walk : Walk} {after : Shared × Walk}
    (h : Acts launch path shared walk after) :
    ∃ events, after.1.journal = events ++ shared.journal ∧ ∀ event ∈ events, event.branch = path := by
  cases h with
  | @cross source advancer value route _ =>
    exact ⟨[route.event path source], journal_follow .., by simp⟩
  | @finish node completion route _ =>
    exact ⟨[route.event path node.id, .returned path node.id completion], journal_follow .., by simp⟩
  | @begin node step value _ => exact ⟨[.started path node.id step], rfl, by simp [Event.branch]⟩
  | cancel => exact ⟨[], by simp, by simp⟩
  | pass _ _ | number _ _ | pause | observe | hang | resume _ _ => exact ⟨[], rfl, by simp⟩
  | stray _ | stopped _ _ | exceed _ | refuse _ _ | dismiss _ | interrupt _ | abandon _ | merge _ =>
    exact ⟨[.ended path _], rfl, by simp [Event.branch]⟩

/-- **A turn only adds.** Its entries in the journal belong to its branch or to a branch within. -/
theorem turns_grows {launch : Launch} {path : Path} {shared : Shared} {walk : Walk} {after : Shared × Walk}
    (h : Turns launch path shared walk after) : Shared.Grows path shared after.1 := by
  induction h with
  | act acts => exact acts_grows acts
  | receive _ _ => exact .refl _ _
  | within _ _ ih => exact ih.outer

/-! ## Properties of every walk in a tree -/

def branches : Walk → List (Branch Walk)
  | .joining branches _ _ => branches
  | _ => []

/-- A fan-out has a branch for each advancer that fired, in the same order. -/
theorem getElem?_branches_fanOut (path : Path) (shared : Shared) (source : NodeId) (value : Value)
    (fired : List (Nat × Advancer)) (slot : Nat) :
    (fanOut path shared source value fired).2.branches[slot]? =
      fired[slot]?.map fun one => ⟨shared.spawned + slot, one.1, .crossing source one.2 value⟩ := by
  simp only [fanOut, branches, List.getElem?_zipWith]
  cases indexed : fired[slot]? with
  | none => simp
  | some one =>
    obtain ⟨lt, -⟩ := List.getElem?_eq_some_iff.1 indexed
    simp [lt]

theorem map_index_branches_fanOut (path : Path) (shared : Shared) (source : NodeId) (value : Value)
    (fired : List (Nat × Advancer)) :
    (fanOut path shared source value fired).2.branches.map Branch.index = fired.map Prod.fst := by
  refine List.ext_getElem? fun slot => ?_
  rw [List.getElem?_map, getElem?_branches_fanOut, List.getElem?_map, Option.map_map]
  rfl

/-- a property of every walk in a tree, each taken with its path -/
inductive Every (P : Path → Walk → Prop) : Path → Walk → Prop where
  | intro {path : Path} {walk : Walk} : P path walk →
      (∀ branch ∈ walk.branches, Every P (path ++ [branch.index]) branch.walk) → Every P path walk

theorem Every.root {P : Path → Walk → Prop} {path : Path} {walk : Walk} (h : Every P path walk) : P path walk := by
  cases h with
  | intro root _ => exact root

theorem Every.inside {P : Path → Walk → Prop} {path : Path} {walk : Walk} (h : Every P path walk) :
    ∀ branch ∈ walk.branches, Every P (path ++ [branch.index]) branch.walk := by
  cases h with
  | intro _ inside => exact inside

/-- What holds of every walk in a tree holds of every tree within it. -/
theorem Every.nested {P : Path → Walk → Prop} {path : Path} {walk : Walk} (h : Every P path walk) :
    Every (Every P) path walk := by
  induction h with
  | intro root inside ih => exact .intro (.intro root inside) ih

/-- A walk without branches speaks for its whole tree. -/
theorem every_whole {P : Path → Walk → Prop} {path : Path} {walk : Walk} (whole : walk.branches = [])
    (h : P path walk) : Every P path walk :=
  .intro h (by simp [whole])

theorem every_ended {P : Path → Walk → Prop} {path : Path} {ending : Ending} (h : P path (.ended ending)) :
    Every P path (.ended ending) :=
  every_whole rfl h

theorem Every.mono {P Q : Path → Walk → Prop} (weaker : ∀ path walk, P path walk → Q path walk) {path : Path}
    {walk : Walk} (h : Every P path walk) : Every Q path walk := by
  induction h with
  | intro root _ ih => exact .intro (weaker _ _ root) ih

theorem Every.and {P Q : Path → Walk → Prop} {path : Path} {walk : Walk} (h : Every P path walk)
    (other : Every Q path walk) : Every (fun path walk => P path walk ∧ Q path walk) path walk := by
  induction h with
  | intro root _ ih => exact .intro ⟨root, other.root⟩ fun branch mem => ih branch mem (other.inside branch mem)

/-- A walk that takes a route says something if it does so at the end of the route, and so does every branch that it
starts. -/
theorem Every.follow {P : Path → Walk → Prop} {path : Path} {shared : Shared} {source : NodeId} {route : Route}
    (stop : ∀ ending, route = .stop ending → P path (.ended ending))
    (move : ∀ advancer delivered, route = .move advancer delivered → P path (.arriving advancer.target delivered))
    (split : ∀ value fired, route = .split value fired → P path (fanOut path shared source value fired).2 ∧
      ∀ one ∈ fired, P (path ++ [one.1]) (.crossing source one.2 value)) :
    Every P path (Walk.follow path shared source route).2 := by
  cases route with
  | stop ending => exact every_ended (stop ending rfl)
  | move advancer delivered => exact every_whole rfl (move advancer delivered rfl)
  | split value fired =>
    obtain ⟨root, each⟩ := split value fired rfl
    refine .intro root fun branch mem => ?_
    obtain ⟨slot, there⟩ := List.mem_iff_getElem?.1 mem
    rw [Walk.follow, getElem?_branches_fanOut] at there
    obtain ⟨one, fires, rfl⟩ := Option.map_eq_some_iff.1 there
    exact every_whole rfl (each one (List.mem_of_getElem? fires))

theorem turns_ne_ended {launch : Launch} {path : Path} {shared : Shared} {walk : Walk} {after : Shared × Walk}
    (h : Turns launch path shared walk after) (ending : Ending) : walk ≠ .ended ending := by
  rintro rfl
  cases h with
  | act acts => cases acts

/-- **A property of single walks is kept by every turn** if it survives what happens elsewhere, is kept by every
action, and if a fan-out has it again after a turn of a branch and after receiving the end of one. -/
theorem Every.turns {launch : Launch} {P : Shared → Path → Walk → Prop}
    (grows : ∀ {path old new walk}, Shared.Grows [] old new → P old path walk → P new path walk)
    (acts : ∀ {path shared walk after}, Acts launch path shared walk after → P shared path walk →
      Every (P after.1) path after.2)
    (receives : ∀ {path shared branches pending gather} {slot id index : Nat} {ending},
      branches[slot]? = some ⟨id, index, .ended ending⟩ → id ∈ pending → P shared path (.joining branches pending gather) →
      P shared (path ++ [index]) (.ended ending) →
      P shared path (.joining branches (pending.erase id) (gather.receive id ending)))
    (within : ∀ {path shared} {branches : List (Branch Walk)} {pending gather} {slot : Nat} {branch} (walk : Walk),
      branches[slot]? = some branch → (∀ ending, branch.walk ≠ .ended ending) →
      P shared path (.joining branches pending gather) →
      P shared path (.joining (branches.set slot { branch with walk := walk }) pending gather))
    {path : Path} {shared : Shared} {walk : Walk} {after : Shared × Walk} (h : Turns launch path shared walk after)
    (before : Every (P shared) path walk) : Every (P after.1) path after.2 := by
  induction h with
  | act h => exact acts h before.root
  | receive there waiting =>
    have ended := before.inside _ (List.mem_of_getElem? there)
    exact .intro (receives there waiting before.root ended.root) before.inside
  | @within path shared branches pending gather slot branch after there h ih =>
    have mem := List.mem_of_getElem? there
    have growth : Shared.Grows ([] ++ (path ++ [branch.index])) shared after.1 := turns_grows h
    replace growth := growth.outer
    refine .intro (grows growth (within _ there (turns_ne_ended h) before.root)) fun other among => ?_
    rcases List.mem_or_eq_of_mem_set among with among | rfl
    · exact (before.inside other among).mono fun _ _ => grows growth
    · exact ih (before.inside branch mem)

/-- What a turn puts into what is shared has been put there by an action of one of the walks. -/
theorem Turns.action {launch : Launch} {P : Path → Walk → Prop} {path : Path} {shared : Shared} {walk : Walk}
    {after : Shared × Walk} (h : Turns launch path shared walk after) (every : Every P path walk) :
    after.1 = shared ∨ ∃ inner one result, P inner one ∧ Acts launch inner shared one result ∧ after.1 = result.1 := by
  induction h with
  | act acts => exact Or.inr ⟨_, _, _, every.root, acts, rfl⟩
  | receive _ _ => exact Or.inl rfl
  | within there _ ih => exact ih (every.inside _ (List.mem_of_getElem? there))

end Walk

/-! ## Schedules -/

namespace RunState

theorem moves_cons (launch : Launch) (state : RunState) (move : Move) (schedule : List Move) :
    state.moves launch (move :: schedule) = (state.move launch move).bind fun next => next.moves launch schedule := by
  rw [moves, List.foldlM_cons]
  rfl

theorem moves_snoc (launch : Launch) (state : RunState) (schedule : List Move) (move : Move) :
    state.moves launch (schedule ++ [move]) = (state.moves launch schedule).bind fun next => next.move launch move := by
  rw [moves, List.foldlM_append]
  simp only [List.foldlM_cons, List.foldlM_nil, bind_pure]
  rfl

/-- Before its first move a run has either ended or is on its way to the entry. -/
theorem every_start {launch : Launch} {P : Path → Walk → Prop} (ended : P [] (.ended (.failed .noEntry)))
    (arriving : ∀ entry, launch.graph.entry = some entry → P [] (.arriving entry launch.input)) :
    Walk.Every P [] (start launch).walk := by
  unfold start
  cases designated : launch.graph.entry with
  | none => exact Walk.every_ended ended
  | some entry => exact Walk.every_whole rfl (arriving entry designated)

/-- What every turn and every cancellation keeps holds at the end of every schedule. -/
theorem moves_induction {launch : Launch} {P : RunState → Prop}
    (turn : ∀ {state : RunState} {after : Shared × Walk}, Walk.Turns launch [] state.shared state.walk after → P state →
      P ⟨after.1, after.2⟩)
    (cancel : ∀ {state : RunState} (branch : Path), P state → P { state with shared := state.shared.cancel branch })
    {schedule : List Move} {state after : RunState} (h : state.moves launch schedule = some after) (before : P state) :
    P after := by
  induction schedule generalizing state with
  | nil =>
    cases h
    exact before
  | cons move rest ih =>
    rw [moves_cons] at h
    obtain ⟨next, moved, h⟩ := Option.bind_eq_some_iff.1 h
    refine ih h ?_
    cases move with
    | turn one =>
      obtain ⟨result, taken, rfl⟩ := Option.map_eq_some_iff.1 moved
      exact turn (Walk.turns_of_turn taken) before
    | cancel branch =>
      cases moved
      exact cancel branch before

/-- What the turns and the cancellations of a run keep holds throughout it; they may rely on the run having come there. -/
theorem moves_induction_reached {launch : Launch} {P : RunState → Prop}
    (turn : ∀ {schedule : List Move} {state : RunState} {after : Shared × Walk},
      (start launch).moves launch schedule = some state → Walk.Turns launch [] state.shared state.walk after → P state →
      P ⟨after.1, after.2⟩)
    (cancel : ∀ {state : RunState} (branch : Path), P state → P { state with shared := state.shared.cancel branch })
    {schedule : List Move} {state : RunState} (h : (start launch).moves launch schedule = some state)
    (begins : P (start launch)) : P state := by
  induction schedule using List.reverseRecOn generalizing state with
  | nil =>
    cases h
    exact begins
  | append_singleton rest move ih =>
    rw [moves_snoc] at h
    obtain ⟨middle, earlier, moved⟩ := Option.bind_eq_some_iff.1 h
    cases move with
    | cancel branch =>
      cases moved
      exact cancel branch (ih earlier)
    | turn one =>
      obtain ⟨result, taken, rfl⟩ := Option.map_eq_some_iff.1 moved
      exact turn earlier (Walk.turns_of_turn taken) (ih earlier)

theorem moves_cancelled {launch : Launch} {schedule : List Move} {state after : RunState}
    (h : state.moves launch schedule = some after) : state.shared.cancelled <:+ after.shared.cancelled := by
  refine moves_induction (P := fun later => state.shared.cancelled <:+ later.shared.cancelled)
    (fun turns before => ?_) (fun branch before => ?_) h (List.suffix_refl _)
  · exact before.trans (Walk.turns_grows turns).cancelled
  · exact before.trans (List.suffix_cons _ _)

/-- A run in which nothing has been cancelled in the end starts with a turn, and nothing has been cancelled by it. -/
theorem moves_cons_live {launch : Launch} {move : Move} {rest : List Move} {state after : RunState}
    (h : state.moves launch (move :: rest) = some after) (live : after.shared.cancelled = []) :
    ∃ result, Walk.Turns launch [] state.shared state.walk result ∧ result.1.cancelled = [] ∧
      (RunState.mk result.1 result.2).moves launch rest = some after := by
  rw [moves_cons] at h
  obtain ⟨middle, moved, h⟩ := Option.bind_eq_some_iff.1 h
  have kept := moves_cancelled h
  rw [live, List.suffix_nil] at kept
  cases move with
  | cancel branch =>
    cases moved
    cases kept
  | turn turn =>
    obtain ⟨result, taken, rfl⟩ := Option.map_eq_some_iff.1 moved
    exact ⟨result, Walk.turns_of_turn taken, kept, h⟩

/-! ## Conclusions -/

end RunState

/-- what a run whose walk has come to an ending concludes with -/
def Ending.conclusion (launch : Launch) (steps : Nat) : Ending → Conclusion
  | .outputs reached => .succeeded { steps := steps, outputs := reached, result := launch.graph.result }
  | .failed failure => .failed failure
  | .panicked panic => .panicked panic

theorem RunState.conclusion?_eq_some {launch : Launch} {state : RunState} {conclusion : Conclusion}
    (h : state.conclusion? launch = some conclusion) :
    ∃ ending, state.walk = .ended ending ∧ conclusion = ending.conclusion launch state.shared.drawn := by
  unfold conclusion? at h
  cases walk : state.walk with
  | ended ending =>
    rw [walk] at h
    refine ⟨ending, rfl, ?_⟩
    cases ending <;> exact (Option.some.inj h).symm
  | _ => rw [walk] at h; cases h

theorem RunState.unended_of_conclusion? {launch : Launch} {state : RunState} (h : state.conclusion? launch = none)
    (ending : Ending) : state.walk ≠ .ended ending := by
  intro ended
  rw [conclusion?, ended] at h
  cases ending <;> cases h

end StepFlow
