/-
Values on their way through a checked run.

A run that checks values lets an output pass only if it is of its node's type. From there it goes along an advancer: as
it is, to a node that validation has found to accept the type, or through a converter, whose declared type validation
has compared instead. So a node can be handed a value that its input type does not admit in two ways only: the run itself
was given it, or a converter has not kept its word. `Comes` follows a value from where it was put on its way, by the last
entry of its branch in the journal. Results:
- `moves_delivers`: every value on its way in a run comes from the caller or from a node and an advancer that fit;
- `checked_run_values`: every input of the wrong type is the caller's own at the first step, or blamed on the converter
  that has just delivered it; under a contract, an input that keeps it gives outputs that do.
-/
import StepFlow.Proofs.Run.Beside
import StepFlow.Proofs.Run.Failing
import StepFlow.Proofs.Run.Refusals
import StepFlow.Proofs.TypeDesc.Subsumption

namespace StepFlow

/-! ## Where values come from -/

/-- a value on its way along an advancer: an output of the advancer's node, which is reached, and of the node's type -/
def Sent (graph : Orchestration) (entry source : NodeId) (advancer : Advancer) (value : Value) : Prop :=
  ∃ node, graph.Hosts entry node ∧ node.id = source ∧ advancer ∈ node.advancers ∧ node.output.admits value = true

def lastOf (path : Path) (journal : List Event) : Option Event :=
  journal.find? fun event => event.branch == path

/-- how a value has come to a node: as the input of the run, before anything else has happened, or with the last entry
of its branch -/
inductive Comes (launch : Launch) (entry : NodeId) (journal : List Event) (path : Path) (target : NodeId) (value : Value) :
    Prop where
  | given : path = [] → journal = [] → target = entry → value = launch.input →
      Comes launch entry journal path target value
  | moved {source : NodeId} {advancer : Advancer} {sent : Value} :
      lastOf path journal = some (.moved path source advancer value) → advancer.target = target →
      Sent launch.graph entry source advancer sent → advancer.deliver sent = .ok (.ok value) →
      Comes launch entry journal path target value

/-- Each output is of the type of its node. -/
def OfType (graph : Orchestration) (outputs : List Output) : Prop :=
  ∀ output ∈ outputs, ∃ node, graph.node? output.node = some node ∧ node.output.admits output.value = true

/-- the values that a walk holds are on their way, or are outputs of their types -/
def Delivers (launch : Launch) (entry : NodeId) (shared : Shared) (path : Path) : Walk → Prop
  | .crossing source advancer value => Sent launch.graph entry source advancer value
  | .arriving target value => Comes launch entry shared.journal path target value
  | .admitted node value => Comes launch entry shared.journal path node.id value
  | .joining _ _ gather => ∀ outputs, some (.ok outputs) ∈ gather.slots → OfType launch.graph outputs
  | .ended ending => ∀ outputs, ending = .outputs outputs → OfType launch.graph outputs
  | _ => True

section

variable {launch : Launch} {entry : NodeId}

theorem lastOf_beside {path : Path} {old new : Shared} (h : Shared.Beside path old new) :
    lastOf path new.journal = lastOf path old.journal := by
  obtain ⟨events, same, outside⟩ := h
  have unmet : events.find? (fun event => event.branch == path) = none := by
    refine List.find?_eq_none.2 fun event mem here => outside event mem ?_
    rw [beq_iff_eq] at here
    exact here ▸ List.prefix_refl path
  rw [lastOf, same, List.find?_append, unmet, Option.none_or]
  rfl

theorem Comes.beside {path : Path} {old new : Shared} (h : Shared.Beside path old new) {target : NodeId} {value : Value}
    (comes : Comes launch entry old.journal path target value) : Comes launch entry new.journal path target value := by
  cases comes with
  | given root empty aim same =>
    obtain ⟨events, grown, outside⟩ := h
    have unchanged : events = [] := by
      refine List.eq_nil_iff_forall_not_mem.2 fun event mem => outside event mem ?_
      rw [root]
      exact List.nil_prefix
    exact .given root (by rw [grown, unchanged, empty]; rfl) aim same
  | moved last aim sent delivers => exact .moved ((lastOf_beside h).trans last) aim sent delivers

theorem Delivers.beside {path : Path} {old new : Shared} (h : Shared.Beside path old new) {walk : Walk}
    (delivers : Delivers launch entry old path walk) : Delivers launch entry new path walk := by
  cases walk with
  | arriving target value => exact Comes.beside h delivers
  | admitted node value => exact Comes.beside h delivers
  | _ => exact delivers

/-! ## Actions -/

theorem admits_of_violation {config : Config} {node : Node} {value : Value} (checks : config.checkValues = true)
    (fits : config.violation node .output value = none) : node.output.admits value = true := by
  simpa [Config.violation, checks] using fits

/-- the routes on which values are on their way, or outputs are of their types -/
def Route.Delivers (launch : Launch) (entry source : NodeId) : Route → Prop
  | .stop ending => ∀ outputs, ending = .outputs outputs → OfType launch.graph outputs
  | .move advancer delivered =>
    ∃ sent, Sent launch.graph entry source advancer sent ∧ advancer.deliver sent = .ok (.ok delivered)
  | .split value fired => ∀ one ∈ fired, Sent launch.graph entry source one.2 value

theorem along_delivers {source : NodeId} {advancer : Advancer} {value : Value} {route : Route}
    (h : Along launch.graph source advancer value route) (sent : Sent launch.graph entry source advancer value) :
    route.Delivers launch entry source := by
  cases h with
  | delivered _ delivers => exact ⟨value, sent, delivers⟩
  | _ => intro outputs same; cases same

/-- What a step that ended leads to: its output is of its type, and so is what goes along its advancers. -/
theorem responds_delivers {node : Node} {path : Path} {completion : Completion} {route : Route}
    (checks : launch.config.checkValues = true) (hosts : launch.graph.Hosts entry node)
    (h : Responds launch node path completion route) : route.Delivers launch entry node.id := by
  have own : ∀ {output : Value}, launch.config.violation node .output output = none →
      OfType launch.graph [⟨node.id, output, path⟩] := by
    intro output fits one mem
    obtain rfl := List.mem_singleton.1 mem
    exact ⟨node, hosts.1, admits_of_violation checks fits⟩
  have sent : ∀ {output : Value} {fired : List (Nat × Advancer)}, launch.config.violation node .output output = none →
      node.fired output = .ok fired → ∀ one ∈ fired, Sent launch.graph entry node.id one.2 output := by
    intro output fired fits fires one mem
    have accepted := (Node.fired_spec fires).1.accepts one mem
    exact ⟨node, hosts, rfl, List.mem_of_getElem? accepted.2.1, admits_of_violation checks fits⟩
  cases h with
  | result fits _ => intro outputs same; cases same; exact own fits
  | rest fits _ _ _ => intro outputs same; cases same; exact own fits
  | along fits _ one along => exact along_delivers along (sent fits one _ List.mem_cons_self)
  | split fits _ fires _ => exact sent fits fires
  | _ => intro outputs same; cases same

theorem follow_delivers {path : Path} {shared : Shared} {source : NodeId} {route : Route}
    (h : route.Delivers launch entry source) :
    Walk.Every (Delivers launch entry (Walk.follow path shared source route).1) path
      (Walk.follow path shared source route).2 := by
  refine Walk.Every.follow (fun ending same => ?_) (fun advancer delivered same => ?_) (fun value fired same => ?_)
  · subst same
    exact h
  · subst same
    obtain ⟨sent, comes, delivers⟩ := h
    refine .moved ?_ rfl comes delivers
    simp [lastOf, Walk.follow, Shared.record, Event.branch]
  · subst same
    refine ⟨fun outputs mem => ?_, h⟩
    simp [Gather.start] at mem

/-- **Every action hands values on** as validation has found them to fit. -/
theorem acts_delivers (checks : launch.config.checkValues = true) {path : Path} {shared : Shared} {walk : Walk}
    {after : Shared × Walk} (h : Walk.Acts launch path shared walk after)
    (track : OnTrack launch.graph entry shared path walk) (before : Delivers launch entry shared path walk) :
    Walk.Every (Delivers launch entry after.1) path after.2 := by
  have fails : ∀ {shared : Shared} {failure : Failure},
      Walk.Every (Delivers launch entry (Walk.fail path shared failure).1) path (Walk.fail path shared failure).2 := by
    intro shared failure
    refine Walk.every_ended fun outputs same => ?_
    cases same
  cases h with
  | cross along => exact follow_delivers (along_delivers along before)
  | finish responds => exact follow_delivers (responds_delivers checks track responds)
  | @pass target value node found _ =>
    obtain rfl : node.id = target := Orchestration.id_of_node? found
    exact Walk.every_whole rfl before
  | merge _ =>
    refine Walk.every_ended fun outputs same output mem => ?_
    obtain ⟨handed, held, among⟩ := Gather.ending_eq_outputs same output mem
    exact before handed held output among
  | stray _ | stopped _ _ | exceed _ | refuse _ _ | dismiss _ | interrupt _ | abandon _ => exact fails
  | number _ _ | begin _ | pause | cancel | observe | hang | resume _ _ => exact Walk.every_whole rfl trivial

/-! ## Runs -/

theorem turns_delivers (checks : launch.config.checkValues = true) {path : Path} {shared : Shared} {walk : Walk}
    {after : Shared × Walk} (tidy : Walk.Every (fun _ => Tidy launch.graph) path walk)
    (track : Walk.Every (OnTrack launch.graph entry shared) path walk) (h : Walk.Turns launch path shared walk after)
    (before : Walk.Every (Delivers launch entry shared) path walk) :
    Walk.Every (Delivers launch entry after.1) path after.2 := by
  refine Walk.Every.turns_apart (P := Delivers launch entry) (R := OnTrack launch.graph entry)
    (fun apart delivers => Delivers.beside apart.beside delivers)
    (fun acts known before => acts_delivers checks acts known.root before.root)
    (fun there waiting delivers ended => ?_) (fun walk there growth delivers => delivers) tidy track h before
  intro outputs mem
  rcases Gather.mem_slots_receive mem with mem | result
  · exact delivers outputs mem
  · exact ended outputs (Gather.resultOf_eq_ok result.symm)

end

/-! ## Inputs of the wrong type -/

/-- No type that a value is supplied as declares a supertype: no output type, no type that a converter declares to
return, and not the input type of the contract. -/
structure Orchestration.Bare (graph : Orchestration) : Prop where
  outputs : ∀ node ∈ graph.nodes, node.output.isBare = true
  converters : ∀ node ∈ graph.nodes, ∀ advancer ∈ node.advancers, ∀ converter, advancer.converter = some converter →
    converter.returns.isBare = true
  input : ∀ input output, graph.contract = .typed input output → input.isBare = true

/-- who is to blame for the input of a node: the caller, whose own input it is while nothing else has happened, or the
converter that has just delivered it and does not keep to the type it declares -/
inductive Misfed (launch : Launch) (earlier : List Event) (path : Path) (id : NodeId) (value : Value) : Prop where
  | caller : path = [] → earlier = [] → launch.graph.entry = some id → value = launch.input →
      Misfed launch earlier path id value
  | converter {source : Node} {advancer : Advancer} {converter : Converter} :
      launch.graph.node? source.id = some source → advancer ∈ source.advancers →
      lastOf path earlier = some (.moved path source.id advancer value) → advancer.target = id →
      advancer.converter = some converter → converter.returns.admits value = false →
      Misfed launch earlier path id value

/-- the input of a node was not of its type, and who is to blame -/
def Blamed (launch : Launch) (earlier : List Event) (path : Path) (id : NodeId) (value : Value) : Prop :=
  (∃ node, launch.graph.node? id = some node ∧ node.input.admits value = false) ∧ Misfed launch earlier path id value

section

variable {launch : Launch} {entry : NodeId}

/-- **A value that a node does not admit is the caller's or a converter's.** A direct advancer delivers an output of a
bare type that satisfies the input type, and such values are admitted. -/
theorem Comes.misfed (coherent : launch.graph.Coherent entry) (bare : launch.graph.Bare)
    (designated : launch.graph.entry = some entry) {journal : List Event} {path : Path} {node : Node} {value : Value}
    (found : launch.graph.node? node.id = some node) (refused : node.input.admits value = false)
    (comes : Comes launch entry journal path node.id value) : Misfed launch journal path node.id value := by
  cases comes with
  | given root empty aim same => exact .caller root empty (aim ▸ designated) same
  | @moved _ advancer sent last aim origin delivers =>
    obtain ⟨source, hosts, rfl, mem, fits⟩ := origin
    have registered := Orchestration.mem_nodes_of_node? hosts.1
    have there : launch.graph.node? advancer.target = some node := by rw [aim]; exact found
    cases converts : advancer.converter with
    | none =>
      rw [Advancer.deliver, converts] at delivers
      cases delivers
      have admitted := TypeDesc.admits_of_satisfies (bare.outputs source registered)
        (coherent.direct source.id source hosts.2 hosts.1 advancer mem converts node there) fits
      rw [refused] at admitted
      cases admitted
    | some converter =>
      refine .converter hosts.1 mem last aim converts ?_
      by_contra kept
      have admitted := TypeDesc.admits_of_satisfies (bare.converters source registered advancer mem converter converts)
        (coherent.converting source.id source hosts.2 hosts.1 advancer mem converter converts node there)
        (by simpa using kept)
      rw [refused] at admitted
      cases admitted

/-- what is known of a checked run of a graph that is coherent from its entry -/
structure Checked (launch : Launch) (entry : NodeId) (state : RunState) : Prop where
  track : Walk.Every (OnTrack launch.graph entry state.shared) [] state.walk
  delivers : Walk.Every (Delivers launch entry state.shared) [] state.walk
  blames : ∀ {path id expected value earlier},
    Event.ended path (.failed (.typeViolation id .input expected value)) :: earlier <:+ state.shared.journal →
    Blamed launch earlier path id value

/-- A turn that puts a violation of an input into the journal is that of a walk whose value has come there. -/
theorem Checked.turns (coherent : launch.graph.Coherent entry) (bare : launch.graph.Bare)
    (designated : launch.graph.entry = some entry) (checks : launch.config.checkValues = true) {state : RunState}
    {after : Shared × Walk} (tidy : Walk.Every (fun _ => Tidy launch.graph) [] state.walk)
    (turns : Walk.Turns launch [] state.shared state.walk after) (before : Checked launch entry state) :
    Checked launch entry ⟨after.1, after.2⟩ := by
  refine ⟨turns_onTrack coherent turns before.track, turns_delivers checks tidy before.track turns before.delivers,
    fun {_ _ _ value _} noted => ?_⟩
  rcases turns.action (before.track.and before.delivers) with same | ⟨inner, one, result, ⟨track, delivers⟩, acts, same⟩
  · exact before.blames (same ▸ noted)
  · simp only [same] at noted
    rcases acts_refuses rfl acts noted with old | ⟨rfl, rfl, node, input, rfl, refuses⟩
    · exact before.blames old
    · cases refuses with
      | violates violates =>
        simp only [Config.violation, Option.ite_none_right_eq_some] at violates
        obtain ⟨refused, same⟩ := violates
        cases same
        have refused : node.input.admits value = false := by simpa [checks] using refused
        exact ⟨⟨node, track.1, refused⟩, Comes.misfed coherent bare designated track.1 refused delivers⟩

theorem moves_checked (coherent : launch.graph.Coherent entry) (bare : launch.graph.Bare)
    (designated : launch.graph.entry = some entry) (registered : launch.graph.contains entry = true)
    (checks : launch.config.checkValues = true) {schedule : List Move} {state : RunState}
    (h : (RunState.start launch).moves launch schedule = some state) : Checked launch entry state := by
  refine moves_induction_tidy (fun tidy turns before => before.turns coherent bare designated checks tidy turns)
    (fun branch before => ?_) h ?_
  · exact ⟨before.track.mono fun path walk => OnTrack.mono (List.suffix_refl _),
      before.delivers.mono fun path walk => Delivers.beside (.of_journal rfl), before.blames⟩
  · refine ⟨@moves_onTrack launch entry coherent designated registered [] _ rfl, ?_, ?_⟩
    · simp only [RunState.start, designated]
      exact Walk.every_whole rfl (.given rfl rfl rfl rfl)
    · intro path id expected value earlier noted
      simp [RunState.start] at noted

end

namespace Orchestration

/-- **Type soundness of checked runs.** Let validation find no error in a built graph in which no type that a value is
supplied as declares a supertype. In every run of it that checks values, whatever steps, guards and converters do, an
input of the wrong type is the caller's own, at the first step of the run, or one that a converter has just delivered
against the type it declares; and whatever the run fails with, such a failure inside is in its journal. Under a contract,
an input that keeps it is accepted at the first step, and the outputs at the result node keep it in turn. -/
theorem checked_run_values {calls : List Call} {graph : Orchestration} (built : build calls = .ok graph)
    (valid : graph.validate.errors = []) (bare : graph.Bare) {launch : Launch} (runs : launch.graph = graph)
    (checks : launch.config.checkValues = true) {schedule : List Move} {state : RunState}
    (moved : (RunState.start launch).moves launch schedule = some state) :
    (∀ path id expected value earlier,
      .ended path (.failed (.typeViolation id .input expected value)) :: earlier <:+ state.shared.journal →
        Blamed launch earlier path id value) ∧
    (∀ failure id expected value, state.conclusion? launch = some (.failed failure) →
      failure.Includes (.typeViolation id .input expected value) → ∃ path earlier,
        .ended path (.failed (.typeViolation id .input expected value)) :: earlier <:+ state.shared.journal) ∧
    ∀ input output, graph.contract = .typed input output →
      (input.admits launch.input = true → ∀ path id expected value,
        ¬ [.ended path (.failed (.typeViolation id .input expected value))] <:+ state.shared.journal) ∧
      ∀ outcome, state.conclusion? launch = some (.succeeded outcome) → ∀ reached ∈ outcome.outputs,
        graph.result = some reached.node → output.admits reached.value = true := by
  subst runs
  have assembled := build_assembled built
  obtain ⟨entry, designated, coherent⟩ := (errors_validate_eq_nil_iff assembled).1 valid
  have checked := moves_checked coherent bare designated (assembled.entry entry designated) checks moved
  refine ⟨fun path id expected value earlier noted => checked.blames noted, ?_, fun input output typed => ⟨?_, ?_⟩⟩
  · intro failure id expected value concluded includes
    rcases conclusion_noted moved concluded _ includes with ⟨path, mem⟩ | missing | ⟨id, text, panicked⟩
    · exact ⟨path, exists_suffix_of_mem mem⟩
    · cases missing
    · cases panicked
  · intro admitted path id expected value noted
    obtain ⟨⟨node, found, refused⟩, misfed⟩ := checked.blames noted
    cases misfed with
    | caller _ _ first same =>
      obtain ⟨other, there, fits⟩ := coherent.input input output typed
      obtain rfl := Option.some.inj (designated.symm.trans first)
      obtain rfl := Option.some.inj (found.symm.trans there)
      rw [same, TypeDesc.admits_of_satisfies (bare.input input output typed) fits admitted] at refused
      cases refused
    | converter _ _ last _ _ _ => cases last
  · intro outcome concluded reached mem designated
    obtain ⟨ending, ended, same⟩ := RunState.conclusion?_eq_some concluded
    have delivers := checked.delivers.root
    rw [ended] at delivers
    cases ending with
    | outputs outputs =>
      cases same
      obtain ⟨node, found, fits⟩ := delivers outputs rfl reached mem
      obtain ⟨other, there, satisfies⟩ := coherent.output input output typed reached.node designated
      obtain rfl := Option.some.inj (found.symm.trans there)
      exact TypeDesc.admits_of_satisfies (bare.outputs node (mem_nodes_of_node? found)) satisfies fits
    | failed failure => cases same
    | panicked panic => cases same

/-- a converter that declares integers and returns a text -/
def astrayConverter : Converter :=
  { returns := .int64, apply := fun _ => .ok (.ok (.str "seven")) }

/-- two nodes that take integers, and between them a converter that goes astray -/
def astrayCalls : List Call :=
  [.addNode { id := ⟨"a"⟩, step := .identity .int64 },
    .addNode { id := ⟨"b"⟩, step := .identity .int64, deadEnd := true },
    .addAdvancer ⟨"a"⟩ (.always (.converting ⟨"b"⟩ astrayConverter)), .setEntry ⟨"a"⟩, .setResult ⟨"b"⟩,
    .setContract (.typed .int64 .int64)]

def astrayGraph : Orchestration :=
  { nodes := [
      { id := ⟨"a"⟩, step := .identity .int64, advancers := [.always (.converting ⟨"b"⟩ astrayConverter)] },
      { id := ⟨"b"⟩, step := .identity .int64, deadEnd := true }],
    entry := some ⟨"a"⟩, result := some ⟨"b"⟩, contract := .typed .int64 .int64 }

def astrayLaunch : Launch := { graph := astrayGraph, config := { checkValues := true }, input := .int 7 }

theorem bare_astray : astrayGraph.Bare := by
  refine ⟨fun node mem => ?_, fun node mem advancer among converter converts => ?_, fun input output typed => ?_⟩
  · simp only [astrayGraph, List.mem_cons, List.not_mem_nil, or_false] at mem
    rcases mem with rfl | rfl <;> rfl
  · simp only [astrayGraph, List.mem_cons, List.not_mem_nil, or_false] at mem
    rcases mem with rfl | rfl
    · obtain rfl := List.mem_singleton.1 among
      cases converts
      rfl
    · cases among
  · cases typed
    rfl

theorem checked_run_values_astray :
    build astrayCalls = .ok astrayGraph ∧ astrayGraph.validate.errors = [] ∧ astrayGraph.Bare ∧
    astrayLaunch.config.checkValues = true ∧
    ∃ state, (RunState.start astrayLaunch).moves astrayLaunch (List.replicate 6 (.turn .act)) = some state ∧
      state.conclusion? astrayLaunch = some (.failed (.typeViolation ⟨"b"⟩ .input "Int64" (.str "seven"))) ∧
      ∃ path earlier,
        .ended path (.failed (.typeViolation ⟨"b"⟩ .input "Int64" (.str "seven"))) :: earlier <:+ state.shared.journal ∧
        Blamed astrayLaunch earlier path ⟨"b"⟩ (.str "seven") := by
  have built : build astrayCalls = .ok astrayGraph := by rfl
  have valid : astrayGraph.validate.errors = [] := by decide +kernel
  obtain ⟨state, moved, concluded⟩ : ∃ state,
      (RunState.start astrayLaunch).moves astrayLaunch (List.replicate 6 (.turn .act)) = some state ∧
      state.conclusion? astrayLaunch = some (.failed (.typeViolation ⟨"b"⟩ .input "Int64" (.str "seven"))) :=
    ⟨_, rfl, rfl⟩
  have runs : astrayLaunch.graph = astrayGraph := rfl
  obtain ⟨blames, includes, -⟩ := checked_run_values built valid bare_astray runs rfl moved
  obtain ⟨path, earlier, noted⟩ := includes _ _ _ _ concluded .self
  exact ⟨built, valid, bare_astray, rfl, state, moved, concluded, path, earlier, noted, blames _ _ _ _ _ noted⟩

end Orchestration

end StepFlow
