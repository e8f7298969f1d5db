/-
Where an output can lead, case by case.

`Firing` says which advancers fire on an output: those whose guards accept it, in their order, and none only if every
guard refuses; `Trips` says that a guard which is asked panics. `Along` and `Responds` list the routes of one advancer and
of a step that ended, each with what has been checked on the way; nothing later opens the functions themselves.
-/
import Mathlib.Data.List.Perm.Subperm
import StepFlow.Run.Route

namespace StepFlow

/-! ## The advancers that fire -/

/-- the advancers of a list, counted from `index`, that fire on a value -/
structure Firing (value : Value) (index : Nat) (advancers : List Advancer) (fired : List (Nat × Advancer)) : Prop where
  accepts : ∀ one ∈ fired, index ≤ one.1 ∧ advancers[one.1 - index]? = some one.2 ∧ one.2.fires value = .ok true
  ordered : fired.Pairwise fun one other => one.1 < other.1
  refused : fired = [] → ∀ advancer ∈ advancers, advancer.fires value = .ok false

theorem Firing.nil (value : Value) (index : Nat) : Firing value index [] [] :=
  ⟨by simp, .nil, by simp⟩

theorem Firing.skip {value : Value} {index : Nat} {advancer : Advancer} {rest : List Advancer}
    {fired : List (Nat × Advancer)} (refuses : advancer.fires value = .ok false)
    (h : Firing value (index + 1) rest fired) : Firing value index (advancer :: rest) fired := by
  refine ⟨fun one mem => ?_, h.ordered, fun none other mem => ?_⟩
  · obtain ⟨le, indexed, fires⟩ := h.accepts one mem
    refine ⟨Nat.le_of_succ_le le, ?_, fires⟩
    rw [show one.1 - index = (one.1 - (index + 1)) + 1 by omega]
    exact indexed
  · rcases List.mem_cons.1 mem with rfl | mem
    · exact refuses
    · exact h.refused none other mem

theorem Firing.single {value : Value} {index : Nat} {advancer : Advancer} {rest : List Advancer}
    (accepts : advancer.fires value = .ok true) : Firing value index (advancer :: rest) [(index, advancer)] :=
  ⟨by simp [accepts], by simp, by simp⟩

theorem Firing.cons {value : Value} {index : Nat} {advancer : Advancer} {rest : List Advancer}
    {fired : List (Nat × Advancer)} (accepts : advancer.fires value = .ok true)
    (h : Firing value (index + 1) rest fired) : Firing value index (advancer :: rest) ((index, advancer) :: fired) := by
  refine ⟨fun one mem => ?_, List.pairwise_cons.2 ⟨fun one mem => (h.accepts one mem).1, h.ordered⟩, by simp⟩
  rcases List.mem_cons.1 mem with rfl | mem
  · simp [accepts]
  · obtain ⟨le, indexed, fires⟩ := h.accepts one mem
    refine ⟨Nat.le_of_succ_le le, ?_, fires⟩
    rw [show one.1 - index = (one.1 - (index + 1)) + 1 by omega]
    exact indexed

theorem Firing.unique {value : Value} {start : Nat} {advancers : List Advancer} {fired : List (Nat × Advancer)}
    (h : Firing value start advancers fired) {index : Nat} {advancer other : Advancer} (one : (index, advancer) ∈ fired)
    (two : (index, other) ∈ fired) : advancer = other :=
  Option.some.inj ((h.accepts _ one).2.1.symm.trans (h.accepts _ two).2.1)

theorem Firing.length_le {value : Value} {advancers : List Advancer} {fired : List (Nat × Advancer)}
    (h : Firing value 0 advancers fired) : fired.length ≤ advancers.length := by
  have distinct : (fired.map Prod.fst).Nodup := List.pairwise_map.2 (h.ordered.imp Nat.ne_of_lt)
  have among : fired.map Prod.fst ⊆ List.range advancers.length := by
    intro index mem
    obtain ⟨one, fires, rfl⟩ := List.mem_map.1 mem
    exact List.mem_range.2 (List.getElem?_eq_some_iff.1 (h.accepts one fires).2.1).1
  simpa using (distinct.subperm among).length_le

/-- A guard panics on a value, and is asked: of the guards before it none panics, and none accepts either, unless all
guards are asked. -/
inductive Trips (all : Bool) (value : Value) (panic : Panic) : List Advancer → Prop where
  | here {advancer : Advancer} {rest : List Advancer} : advancer.fires value = .error panic →
      Trips all value panic (advancer :: rest)
  | refused {advancer : Advancer} {rest : List Advancer} : advancer.fires value = .ok false →
      Trips all value panic rest → Trips all value panic (advancer :: rest)
  | accepted {advancer : Advancer} {rest : List Advancer} : all = true → advancer.fires value = .ok true →
      Trips all value panic rest → Trips all value panic (advancer :: rest)

theorem not_trips_nil {all : Bool} {value : Value} {panic : Panic} : ¬Trips all value panic [] := by
  intro h
  cases h

section

variable {all : Bool} {value : Value} {panic : Panic} {advancer : Advancer} {rest : List Advancer}

theorem trips_cons_of_error {other : Panic} (fires : advancer.fires value = .error other) :
    Trips all value panic (advancer :: rest) ↔ other = panic := by
  constructor
  · intro h
    cases h with
    | here panics => exact Except.error.inj (fires.symm.trans panics)
    | refused refuses _ => cases fires.symm.trans refuses
    | accepted _ accepts _ => cases fires.symm.trans accepts
  · rintro rfl
    exact .here fires

theorem trips_cons_of_ok {accepts : Bool} (fires : advancer.fires value = .ok accepts) :
    Trips all value panic (advancer :: rest) ↔ (accepts = true → all = true) ∧ Trips all value panic rest := by
  constructor
  · intro h
    cases h with
    | here panics => cases fires.symm.trans panics
    | refused refuses later =>
      obtain rfl := Except.ok.inj (fires.symm.trans refuses)
      exact ⟨by simp, later⟩
    | accepted asked _ later => exact ⟨fun _ => asked, later⟩
  · rintro ⟨asked, later⟩
    cases accepts with
    | true => exact .accepted (asked rfl) fires later
    | false => exact .refused fires later

end

namespace Node

theorem firstFiring_eq_error_iff {value : Value} {panic : Panic} {index : Nat} {advancers : List Advancer} :
    firstFiring value index advancers = .error panic ↔ Trips false value panic advancers := by
  induction advancers generalizing index with
  | nil => exact iff_of_false nofun not_trips_nil
  | cons advancer rest ih =>
    simp only [firstFiring]
    cases fires : advancer.fires value with
    | error other =>
      rw [trips_cons_of_error fires]
      exact ⟨Except.error.inj, congrArg Except.error⟩
    | ok accepts =>
      rw [trips_cons_of_ok fires]
      cases accepts with
      | true => exact iff_of_false nofun fun h => absurd (h.1 rfl) (by decide)
      | false => exact ih.trans (by simp)

theorem allFiring_eq_error_iff {value : Value} {panic : Panic} {index : Nat} {advancers : List Advancer} :
    allFiring value index advancers = .error panic ↔ Trips true value panic advancers := by
  induction advancers generalizing index with
  | nil => exact iff_of_false nofun not_trips_nil
  | cons advancer rest ih =>
    simp only [allFiring]
    cases fires : advancer.fires value with
    | error other =>
      rw [trips_cons_of_error fires]
      exact ⟨Except.error.inj, congrArg Except.error⟩
    | ok accepts =>
      have later : Trips true value panic (advancer :: rest) ↔ allFiring value (index + 1) rest = .error panic := by
        rw [trips_cons_of_ok fires, ih]
        simp
      rw [later]
      cases accepts with
      | true =>
        cases others : allFiring value (index + 1) rest with
        | error other => exact Iff.rfl
        | ok more => exact iff_of_false nofun nofun
      | false => exact Iff.rfl

/-- **The evaluation of guards panics exactly if a guard that is asked does.** -/
theorem fired_eq_error_iff {node : Node} {value : Value} {panic : Panic} :
    node.fired value = .error panic ↔ Trips node.parallel value panic node.advancers := by
  unfold Node.fired
  cases node.parallel with
  | true => exact allFiring_eq_error_iff
  | false => exact firstFiring_eq_error_iff

theorem firstFiring_spec {value : Value} {index : Nat} {advancers : List Advancer} {fired : List (Nat × Advancer)}
    (h : firstFiring value index advancers = .ok fired) :
    Firing value index advancers fired ∧ fired.length ≤ 1 := by
  induction advancers generalizing index with
  | nil =>
    cases h
    exact ⟨.nil value index, by simp⟩
  | cons advancer rest ih =>
    simp only [firstFiring] at h
    cases fires : advancer.fires value with
    | error panic => rw [fires] at h; cases h
    | ok accepted =>
      rw [fires] at h
      cases accepted with
      | true =>
        cases h
        exact ⟨.single fires, by simp⟩
      | false => exact ⟨.skip fires (ih h).1, (ih h).2⟩

theorem allFiring_spec {value : Value} {index : Nat} {advancers : List Advancer} {fired : List (Nat × Advancer)}
    (h : allFiring value index advancers = .ok fired) : Firing value index advancers fired := by
  induction advancers generalizing index fired with
  | nil =>
    cases h
    exact .nil value index
  | cons advancer rest ih =>
    simp only [allFiring] at h
    cases fires : advancer.fires value with
    | error panic => rw [fires] at h; cases h
    | ok accepted =>
      rw [fires] at h
      cases accepted with
      | false => exact .skip fires (ih h)
      | true =>
        cases others : allFiring value (index + 1) rest with
        | error panic => simp only [others] at h; cases h
        | ok more =>
          simp only [others] at h
          cases h
          exact .cons fires (ih others)

/-- What fires on an output; several advancers fire only on a node that advances in parallel. -/
theorem fired_spec {node : Node} {value : Value} {fired : List (Nat × Advancer)} (h : node.fired value = .ok fired) :
    Firing value 0 node.advancers fired ∧ (2 ≤ fired.length → node.parallel = true) := by
  unfold Node.fired at h
  split at h
  · rename_i parallel
    exact ⟨allFiring_spec h, fun _ => parallel⟩
  · obtain ⟨firing, single⟩ := firstFiring_spec h
    exact ⟨firing, fun several => by omega⟩

end Node

/-! ## Routes -/

/-- the route along one advancer -/
inductive Along (graph : Orchestration) (source : NodeId) (advancer : Advancer) (value : Value) : Route → Prop where
  | missing : graph.contains advancer.target = false →
      Along graph source advancer value (.stop (.failed (.unknownNode source advancer.target)))
  | panicked {panic : Panic} : graph.contains advancer.target = true → advancer.deliver value = .error panic →
      Along graph source advancer value (.stop (.panicked panic))
  | refused {error : ConversionError} : graph.contains advancer.target = true →
      advancer.deliver value = .ok (.error error) →
      Along graph source advancer value (.stop (.failed (.conversion source advancer.target error)))
  | delivered {delivered : Value} : graph.contains advancer.target = true →
      advancer.deliver value = .ok (.ok delivered) → Along graph source advancer value (.move advancer delivered)

theorem along_spec (graph : Orchestration) (source : NodeId) (advancer : Advancer) (value : Value) :
    Along graph source advancer value (graph.along source advancer value) := by
  unfold Orchestration.along
  split
  · rename_i there
    split
    · rename_i panics; exact .panicked there panics
    · rename_i refuses; exact .refused there refuses
    · rename_i delivers; exact .delivered there delivers
  · rename_i missing
    exact .missing (by simpa using missing)

theorem Along.eq {graph : Orchestration} {source : NodeId} {advancer : Advancer} {value : Value} {route : Route}
    (h : Along graph source advancer value route) : route = graph.along source advancer value := by
  cases h with
  | missing absent => simp [Orchestration.along, absent]
  | panicked there panics => simp [Orchestration.along, there, panics]
  | refused there refuses => simp [Orchestration.along, there, refuses]
  | delivered there delivers => simp [Orchestration.along, there, delivers]

/-- the route of a step that ended -/
inductive Responds (launch : Launch) (node : Node) (branch : Path) : Completion → Route → Prop where
  | panicked {panic : Panic} : Responds launch node branch (.panicked panic) (.stop (.failed (.panicked node.id panic.text)))
  | failed {error : StepError} : Responds launch node branch (.failed error) (.stop (.failed (.step node.id error)))
  | violated {output : Value} {failure : Failure} : launch.config.violation node .output output = some failure →
      Responds launch node branch (.value output) (.stop (.failed failure))
  | result {output : Value} : launch.config.violation node .output output = none → launch.graph.result = some node.id →
      Responds launch node branch (.value output) (.stop (.outputs [⟨node.id, output, branch⟩]))
  | guard {output : Value} {panic : Panic} : launch.config.violation node .output output = none →
      launch.graph.result ≠ some node.id → node.fired output = .error panic →
      Responds launch node branch (.value output) (.stop (.panicked panic))
  | rest {output : Value} : launch.config.violation node .output output = none → launch.graph.result ≠ some node.id →
      node.fired output = .ok [] → node.deadEnd = true →
      Responds launch node branch (.value output) (.stop (.outputs [⟨node.id, output, branch⟩]))
  | stuck {output : Value} : launch.config.violation node .output output = none → launch.graph.result ≠ some node.id →
      node.fired output = .ok [] → node.deadEnd = false →
      Responds launch node branch (.value output) (.stop (.failed (.deadEnd node.id)))
  | along {output : Value} {index : Nat} {advancer : Advancer} {route : Route} :
      launch.config.violation node .output output = none → launch.graph.result ≠ some node.id →
      node.fired output = .ok [(index, advancer)] → Along launch.graph node.id advancer output route →
      Responds launch node branch (.value output) route
  | split {output : Value} {fired : List (Nat × Advancer)} : launch.config.violation node .output output = none →
      launch.graph.result ≠ some node.id → node.fired output = .ok fired → 2 ≤ fired.length →
      Responds launch node branch (.value output) (.split output fired)

theorem respond_spec (launch : Launch) (node : Node) (branch : Path) (completion : Completion) :
    Responds launch node branch completion (launch.respond node branch completion) := by
  cases completion with
  | panicked panic => exact .panicked
  | failed error => exact .failed
  | value output =>
    simp only [Launch.respond]
    cases violates : launch.config.violation node .output output with
    | some failure => exact .violated violates
    | none =>
      simp only [Orchestration.route]
      split
      · rename_i designated; exact .result violates designated
      · rename_i other
        split
        · rename_i panics; exact .guard violates other panics
        · rename_i none
          split
          · rename_i allowed; exact .rest violates other none allowed
          · rename_i refused; exact .stuck violates other none (by simpa using refused)
        · rename_i one; exact .along violates other one (along_spec ..)
        · rename_i fired none one some
          refine .split violates other some ?_
          match fired with
          | [] => exact absurd rfl none
          | [(index, advancer)] => exact absurd rfl (one index advancer)
          | _ :: _ :: _ => simp

theorem Responds.eq {launch : Launch} {node : Node} {branch : Path} {completion : Completion} {route : Route}
    (h : Responds launch node branch completion route) : route = launch.respond node branch completion := by
  cases h with
  | panicked => rfl
  | failed => rfl
  | violated violates => simp [Launch.respond, violates]
  | result fits designated => simp [Launch.respond, Orchestration.route, fits, designated]
  | guard fits other panics => simp [Launch.respond, Orchestration.route, fits, other, panics]
  | rest fits other none allowed => simp [Launch.respond, Orchestration.route, fits, other, none, allowed]
  | stuck fits other none refused => simp [Launch.respond, Orchestration.route, fits, other, none, refused]
  | along fits other one along => simp [Launch.respond, Orchestration.route, fits, other, one, along.eq]
  | @split output fired fits other some several =>
    match fired with
    | _ :: _ :: _ => simp [Launch.respond, Orchestration.route, fits, other, some]

theorem Along.ne_split {graph : Orchestration} {source : NodeId} {advancer : Advancer} {value : Value} {route : Route}
    (h : Along graph source advancer value route) (other : Value) (fired : List (Nat × Advancer)) :
    route ≠ .split other fired := by
  cases h <;> simp

/-- A step leads to branches only if several advancers fire on its output. -/
theorem Responds.splits {launch : Launch} {node : Node} {path : Path} {completion : Completion} {route : Route}
    (h : Responds launch node path completion route) (value : Value) (fired : List (Nat × Advancer))
    (same : route = .split value fired) : node.fired value = .ok fired ∧ 2 ≤ fired.length := by
  cases h with
  | along _ _ _ along => exact absurd same (along.ne_split value fired)
  | split _ _ fires several =>
    cases same
    exact ⟨fires, several⟩
  | _ => cases same

/-- the advancers that a walk takes on a route, or starts branches for -/
def Route.advancers : Route → List Advancer
  | .stop _ => []
  | .move advancer _ => [advancer]
  | .split _ fired => fired.map Prod.snd

theorem Along.advancers {graph : Orchestration} {source : NodeId} {advancer : Advancer} {value : Value} {route : Route}
    (h : Along graph source advancer value route) : route.advancers = [] ∨ route.advancers = [advancer] := by
  cases h with
  | delivered _ _ => exact Or.inr rfl
  | _ => exact Or.inl rfl

/-- A step leads along advancers of its node, and along no more than it has. -/
theorem Responds.advancers {launch : Launch} {node : Node} {path : Path} {completion : Completion} {route : Route}
    (h : Responds launch node path completion route) :
    route.advancers ⊆ node.advancers ∧ route.advancers.length ≤ node.advancers.length := by
  cases h with
  | @along output index advancer route _ _ one along =>
    have mem : advancer ∈ node.advancers :=
      List.mem_of_getElem? ((Node.fired_spec one).1.accepts (index, advancer) List.mem_cons_self).2.1
    rcases along.advancers with none | only
    · rw [none]
      exact ⟨List.nil_subset _, Nat.zero_le _⟩
    · rw [only]
      exact ⟨by simpa using mem, List.length_pos_of_mem mem⟩
  | @split output fired _ _ some _ =>
    have firing := (Node.fired_spec some).1
    refine ⟨fun advancer mem => ?_, by simpa [Route.advancers] using firing.length_le⟩
    obtain ⟨one, fires, rfl⟩ := List.mem_map.1 mem
    exact List.mem_of_getElem? (firing.accepts one fires).2.1
  | _ => exact ⟨List.nil_subset _, Nat.zero_le _⟩

end StepFlow
