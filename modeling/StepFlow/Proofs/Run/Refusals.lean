/-
Where the failures of a run come from.

The failure of a run may have others inside it, at any depth. Each of them is in the journal, as the failure with which
some branch ended, unless it stands for the panic of a branch or for a missing entry. A refusal is a failure that keeps a
step from being started: the step is beyond the limit, or its input is not of the declared type. Nothing but an attempt
to start a step ends a branch with one. Results:
- `conclusion_noted`: what is inside the failure of a run is in its journal;
- `acts_refuses`: a refusal in the journal is that of a walk that had drawn a step number for the node, and what is before
  it in the journal is all that had happened until then.
-/
import StepFlow.Proofs.Run.Checked
import StepFlow.Proofs.Run.Recording

namespace StepFlow

/-! ## Failures in the journal -/

theorem Failure.Includes.eq_of_isSingle {failure inner : Failure} (h : failure.Includes inner)
    (single : failure.isSingle = true) : inner = failure := by
  cases h with
  | self => rfl
  | nested _ _ => cases single

/-- a failure of which all that is inside is in the journal, panics and a missing entry apart -/
def Noted (journal : List Event) (failure : Failure) : Prop :=
  ∀ inner, failure.Includes inner →
    (∃ path, .ended path (.failed inner) ∈ journal) ∨ inner = .noEntry ∨ ∃ id text, inner = .panicked id text

theorem Noted.mono {journal more : List Event} {failure : Failure} (h : Noted journal failure)
    (grows : journal <:+ more) : Noted more failure := by
  intro inner includes
  rcases h inner includes with ⟨path, noted⟩ | other
  · exact Or.inl ⟨path, grows.subset noted⟩
  · exact Or.inr other

/-- the failures that a walk holds, in its slots or as its ending, are in the journal -/
def Notes (shared : Shared) (_ : Path) : Walk → Prop
  | .joining _ _ gather => ∀ failure, some (.error failure) ∈ gather.slots → Noted shared.journal failure
  | .ended ending => ∀ failure, ending = .failed failure → Noted shared.journal failure
  | _ => True

theorem Notes.mono {old new : Shared} {path : Path} {walk : Walk} (grows : old.journal <:+ new.journal)
    (h : Notes old path walk) : Notes new path walk := by
  cases walk with
  | joining branches pending gather => exact fun failure mem => (h failure mem).mono grows
  | ended ending => exact fun failure same => (h failure same).mono grows
  | _ => trivial

section

variable {launch : Launch}

/-- The end of a branch that does not split is in the journal, and with it all there is. -/
theorem close_notes {path : Path} {ending : Ending} (final : Final path ending) (shared : Shared) :
    Walk.Every (Notes (Walk.close path shared ending).1) path (Walk.close path shared ending).2 := by
  refine Walk.every_ended fun failure same inner includes => ?_
  subst same
  cases final with
  | failed single =>
    obtain rfl := includes.eq_of_isSingle single
    exact Or.inl ⟨path, List.mem_cons_self⟩

theorem follow_notes {path : Path} {source : NodeId} {route : Route}
    (final : ∀ ending, route = .stop ending → Final path ending) (shared : Shared) :
    Walk.Every (Notes (Walk.follow path shared source route).1) path (Walk.follow path shared source route).2 := by
  refine Walk.Every.follow (fun ending stops => ?_) (fun _ _ _ => trivial) (fun value fired _ => ⟨?_, fun _ _ => trivial⟩)
  · subst stops
    exact (close_notes (final ending rfl) shared).root
  · intro failure mem
    simp [Gather.start] at mem

theorem acts_notes {path : Path} {shared : Shared} {walk : Walk} {after : Shared × Walk}
    (h : Walk.Acts launch path shared walk after) (before : Notes shared path walk) :
    Walk.Every (Notes after.1) path after.2 := by
  cases h with
  | cross along => exact follow_notes (fun ending stops => along.final path stops) shared
  | finish responds => exact follow_notes (fun ending stops => responds.final stops) _
  | refuse _ violates => exact close_notes (.failed (isSingle_violation violates)) _
  | merge _ =>
    refine Walk.every_ended fun failure same inner includes => ?_
    obtain ⟨failures, completed, rfl, held⟩ := Gather.ending_eq_failed same
    cases includes with
    | self => exact Or.inl ⟨path, same ▸ List.mem_cons_self⟩
    | nested mem includes => exact (before _ (held _ mem)).mono (List.suffix_cons _ _) inner includes
  | stray _ | stopped _ _ | exceed _ | dismiss _ | interrupt _ | abandon _ => exact close_notes (.failed rfl) _
  | pass _ _ | number _ _ | begin _ | pause | cancel | observe | hang | resume _ _ =>
    exact Walk.every_whole rfl trivial

theorem turns_notes {path : Path} {shared : Shared} {walk : Walk} {after : Shared × Walk}
    (h : Walk.Turns launch path shared walk after) (before : Walk.Every (Notes shared) path walk) :
    Walk.Every (Notes after.1) path after.2 := by
  refine Walk.Every.turns (fun growth notes => ?_) acts_notes (fun there waiting notes ended => ?_)
    (fun walk there goesOn notes => notes) h before
  · obtain ⟨events, same, -⟩ := growth.journal
    exact notes.mono (same ▸ List.suffix_append events _)
  · intro failure mem
    rcases Gather.mem_slots_receive mem with mem | result
    · exact notes failure mem
    · rcases Gather.resultOf_eq_error result.symm with same | ⟨id, text, rfl⟩
      · exact ended failure same
      · exact fun inner includes => Or.inr (Or.inr ⟨id, text, includes.eq_of_isSingle rfl⟩)

/-- **What is inside the failure of a run is in its journal**, as the failure with which a branch ended. -/
theorem conclusion_noted {schedule : List Move} {state : RunState} {failure : Failure}
    (h : (RunState.start launch).moves launch schedule = some state)
    (concluded : state.conclusion? launch = some (.failed failure)) : Noted state.shared.journal failure := by
  have notes : Walk.Every (Notes state.shared) [] state.walk := by
    refine RunState.moves_induction (fun turns before => turns_notes turns before)
      (fun branch before => before.mono fun path walk => Notes.mono (List.suffix_refl _)) h
      (RunState.every_start ?_ fun _ _ => trivial)
    intro failure same inner includes
    cases same
    exact Or.inr (Or.inl (includes.eq_of_isSingle rfl))
  obtain ⟨ending, ended, same⟩ := RunState.conclusion?_eq_some concluded
  have held := notes.root
  rw [ended] at held
  cases ending with
  | failed other =>
    cases same
    exact held failure rfl
  | outputs reached => cases same
  | panicked panic => cases same

end

/-! ## Refusals -/

/-- whether a failure keeps a step from being started -/
def Failure.isRefusal : Failure → Bool
  | .stepLimitExceeded _ _ => true
  | .typeViolation _ .input _ _ => true
  | _ => false

/-- why a step that is about to be started on a value is refused -/
inductive Node.Refuses (launch : Launch) (drawn : Nat) (node : Node) (value : Value) : Failure → Prop where
  | exceeds {limit : Nat} : launch.config.limitBefore (drawn + 1) = some limit →
      Refuses launch drawn node value (.stepLimitExceeded limit node.id)
  | violates {failure : Failure} : launch.config.violation node .input value = some failure →
      Refuses launch drawn node value failure

theorem Along.ne_refusal {graph : Orchestration} {source : NodeId} {advancer : Advancer} {value : Value} {route : Route}
    (h : Along graph source advancer value route) {failure : Failure} (stops : route = .stop (.failed failure)) :
    failure.isRefusal = false := by
  cases h <;> cases stops <;> rfl

theorem Responds.ne_refusal {launch : Launch} {node : Node} {path : Path} {completion : Completion} {route : Route}
    (h : Responds launch node path completion route) {failure : Failure} (stops : route = .stop (.failed failure)) :
    failure.isRefusal = false := by
  cases h with
  | along _ _ _ along => exact along.ne_refusal stops
  | violated violates =>
    cases stops
    simp only [Config.violation, Option.ite_none_right_eq_some] at violates
    obtain ⟨-, same⟩ := violates
    cases same
    rfl
  | _ => cases stops <;> rfl

section

variable {launch : Launch} {path inner : Path} {shared : Shared} {walk : Walk} {after : Shared × Walk}
  {failure : Failure} {final : Ending} {earlier : List Event}

theorem suffix_close {ending : Ending} (noted : .ended inner final :: earlier <:+ (Walk.close path shared ending).1.journal) :
    .ended inner final :: earlier <:+ shared.journal ∨ inner = path ∧ earlier = shared.journal ∧ ending = final := by
  rcases List.suffix_cons_iff.1 noted with same | before
  · cases same
    exact Or.inr ⟨rfl, rfl, rfl⟩
  · exact Or.inl before

theorem suffix_follow {source : NodeId} {route : Route}
    (noted : .ended inner final :: earlier <:+ (Walk.follow path shared source route).1.journal) :
    .ended inner final :: earlier <:+ shared.journal ∨ inner = path ∧ earlier = shared.journal ∧ route = .stop final := by
  cases route with
  | stop ending => exact (suffix_close noted).imp_right fun ⟨here, rest, same⟩ => ⟨here, rest, same ▸ rfl⟩
  | move advancer delivered => exact Or.inl ((List.suffix_cons_iff.1 noted).resolve_left (by simp))
  | split value fired => exact Or.inl ((List.suffix_cons_iff.1 noted).resolve_left (by simp))

/-- What is put into the journal beside splits and ends ends no branch. -/
theorem suffix_ordinary {event : Event} {journal : List Event} (calm : event.isLandmark = false)
    (noted : .ended inner final :: earlier <:+ event :: journal) : .ended inner final :: earlier <:+ journal := by
  refine (List.suffix_cons_iff.1 noted).resolve_left fun same => ?_
  rw [← (List.cons.inj same).1] at calm
  cases calm

/-- **A refusal is that of an attempt.** -/
theorem acts_refuses (kind : failure.isRefusal = true) (h : Walk.Acts launch path shared walk after)
    (noted : .ended inner (.failed failure) :: earlier <:+ after.1.journal) :
    .ended inner (.failed failure) :: earlier <:+ shared.journal ∨
      inner = path ∧ earlier = shared.journal ∧
        ∃ node value, walk = .admitted node value ∧ node.Refuses launch shared.drawn value failure := by
  have closes : ∀ {ending : Ending}, (∀ other, ending = .failed other → other.isRefusal = false) →
      .ended inner (.failed failure) :: earlier <:+ (Walk.close path shared ending).1.journal →
      .ended inner (.failed failure) :: earlier <:+ shared.journal := by
    intro ending other noted
    refine (suffix_close noted).resolve_right fun ⟨_, _, same⟩ => ?_
    rw [other failure same] at kind
    cases kind
  have routes : ∀ {shared : Shared} {source : NodeId} {route : Route},
      (∀ other, route = .stop (.failed other) → other.isRefusal = false) →
      .ended inner (.failed failure) :: earlier <:+ (Walk.follow path shared source route).1.journal →
      .ended inner (.failed failure) :: earlier <:+ shared.journal := by
    intro shared source route other noted
    refine (suffix_follow noted).resolve_right fun ⟨_, _, same⟩ => ?_
    rw [other failure same] at kind
    cases kind
  cases h with
  | cross along => exact Or.inl (routes (fun other stops => along.ne_refusal stops) noted)
  | finish responds => exact Or.inl (suffix_ordinary rfl (routes (fun other stops => responds.ne_refusal stops) noted))
  | exceed beyond =>
    rcases suffix_close noted with before | ⟨rfl, rfl, same⟩
    · exact Or.inl before
    · cases same
      exact Or.inr ⟨rfl, rfl, _, _, rfl, .exceeds beyond⟩
  | refuse _ violates =>
    rcases suffix_close noted with before | ⟨rfl, rfl, same⟩
    · exact Or.inl before
    · cases same
      exact Or.inr ⟨rfl, rfl, _, _, rfl, .violates violates⟩
  | merge _ =>
    refine Or.inl (closes (fun other same => ?_) noted)
    obtain ⟨failures, completed, rfl, -⟩ := Gather.ending_eq_failed same
    rfl
  | stray _ | stopped _ _ | dismiss _ | interrupt _ | abandon _ =>
    refine Or.inl (closes (fun other same => ?_) noted)
    cases same
    rfl
  | begin _ => exact Or.inl (suffix_ordinary rfl noted)
  | cancel => exact Or.inl (by simpa using noted)
  | pass _ _ | number _ _ | pause | observe | hang | resume _ _ => exact Or.inl noted

end

end StepFlow
