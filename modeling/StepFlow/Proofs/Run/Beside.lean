/-
What happens beside a branch.

What a walk may say of the journal is often about its own branch: that nothing has happened on it, or what happened last.
Such a statement outlives whatever the branches beside it do, since their entries belong to themselves and to the
branches within them. It does not outlive what the branch does itself, and for that its actions answer. Results:
- `Every.beside`: a tree of walks keeps what it says while something happens outside of it;
- `Every.turns_apart`: what every action keeps, and what is not touched by what happens in other branches, every turn
keeps.
-/
import StepFlow.Proofs.Run.Course

namespace StepFlow

/-- `new` has come from `old` by what happened outside of a branch -/
def Shared.Beside (path : Path) (old new : Shared) : Prop :=
  ∃ events, new.journal = events ++ old.journal ∧ ∀ event ∈ events, ¬ path <+: event.branch

theorem Shared.Beside.of_journal {path : Path} {old new : Shared} (same : new.journal = old.journal) :
    Shared.Beside path old new :=
  ⟨[], same, by simp⟩

theorem Shared.Beside.inner {path more : Path} {old new : Shared} (h : Shared.Beside path old new) :
    Shared.Beside (path ++ more) old new := by
  obtain ⟨events, same, outside⟩ := h
  exact ⟨events, same, fun event mem within => outside event mem ((List.prefix_append path more).trans within)⟩

/-- `new` has come from `old` by what happened neither within a branch nor on one around it -/
def Shared.Apart (path : Path) (old new : Shared) : Prop :=
  ∃ events, new.journal = events ++ old.journal ∧ ∀ event ∈ events, ¬ path <+: event.branch ∧ ¬ event.branch <+: path

theorem Shared.Apart.beside {path : Path} {old new : Shared} (h : Shared.Apart path old new) :
    Shared.Beside path old new := by
  obtain ⟨events, same, apart⟩ := h
  exact ⟨events, same, fun event mem => (apart event mem).1⟩

theorem Shared.Apart.inner {path more : Path} {old new : Shared} (h : Shared.Apart path old new) :
    Shared.Apart (path ++ more) old new := by
  obtain ⟨events, same, apart⟩ := h
  refine ⟨events, same, fun event mem => ⟨fun within => ?_, fun around => ?_⟩⟩
  · exact (apart event mem).1 ((List.prefix_append path more).trans within)
  · rcases List.prefix_or_prefix_of_prefix around (List.prefix_append path more) with above | below
    · exact (apart event mem).2 above
    · exact (apart event mem).1 below

/-- What happens in one branch of a fan-out happens apart from the others. -/
theorem Shared.Grows.apart {path : Path} {index other : Nat} {old new : Shared}
    (h : Shared.Grows (path ++ [index]) old new) (different : index ≠ other) :
    Shared.Apart (path ++ [other]) old new := by
  obtain ⟨events, same, within⟩ := h.journal
  refine ⟨events, same, fun event mem => ⟨fun again => ?_, fun around => ?_⟩⟩
  · exact different (index_unique (within event mem) again)
  · exact different (index_unique ((within event mem).trans around) (List.prefix_refl _))

theorem Joining.index_ne {graph : Orchestration} {branches : List (Branch Walk)} {pending : List TaskId}
    {gather : Gather} (h : Joining graph branches pending gather) {slot other : Nat} {branch one : Branch Walk}
    (there : branches[slot]? = some branch) (indexed : branches[other]? = some one) (apart : slot ≠ other) :
    branch.index ≠ one.index := by
  have distinct : (branches.map Branch.index).Nodup := h.ordered.imp fun lt => Nat.ne_of_lt lt
  intro same
  have first : (branches.map Branch.index)[slot]? = some branch.index := by rw [List.getElem?_map, there]; rfl
  have second : (branches.map Branch.index)[other]? = some branch.index := by rw [List.getElem?_map, indexed, same]; rfl
  obtain ⟨lt, -⟩ := List.getElem?_eq_some_iff.1 first
  exact apart ((List.getElem?_inj lt distinct).1 (first.trans second.symm))

namespace Walk

variable {P : Shared → Path → Walk → Prop}

/-- What is inherited by the branches within may change what every walk of a tree says. -/
theorem Every.inherit {P Q : Path → Walk → Prop} {R : Path → Prop} (inner : ∀ {path more}, R path → R (path ++ more))
    (keeps : ∀ {path walk}, R path → P path walk → Q path walk) {path : Path} {walk : Walk} (h : Every P path walk)
    (holds : R path) : Every Q path walk := by
  induction h with
  | intro root _ ih => exact .intro (keeps holds root) fun branch mem => ih branch mem (inner holds)

theorem Every.beside
    (keeps : ∀ {path old new walk}, Shared.Beside path old new → P old path walk → P new path walk) {path : Path}
    {old new : Shared} {walk : Walk} (h : Every (P old) path walk) (outside : Shared.Beside path old new) :
    Every (P new) path walk :=
  h.inherit (R := fun path => Shared.Beside path old new) Shared.Beside.inner keeps outside

/-- **What is kept by every action, and by what happens apart, is kept by every turn**, if a fan-out has it again
after a turn of a branch and after receiving the end of one. The actions may rely on whatever else is known of the
walks, those of the branches included. -/
theorem Every.turns_apart {launch : Launch} {R : Shared → Path → Walk → Prop}
    (keeps : ∀ {path old new walk}, Shared.Apart path old new → P old path walk → P new path walk)
    (acts : ∀ {path shared walk after}, Acts launch path shared walk after → Every (R shared) path walk →
      Every (P shared) path walk → Every (P after.1) path after.2)
    (receives : ∀ {path shared branches pending gather} {slot id index : Nat} {ending},
      branches[slot]? = some ⟨id, index, .ended ending⟩ → id ∈ pending → P shared path (.joining branches pending gather) →
      P shared (path ++ [index]) (.ended ending) →
      P shared path (.joining branches (pending.erase id) (gather.receive id ending)))
    (within : ∀ {path old new} {branches : List (Branch Walk)} {pending gather} {slot : Nat} {branch} (walk : Walk),
      branches[slot]? = some branch → Shared.Grows (path ++ [branch.index]) old new →
      P old path (.joining branches pending gather) →
      P new path (.joining (branches.set slot { branch with walk := walk }) pending gather))
    {path : Path} {shared : Shared} {walk : Walk} {after : Shared × Walk}
    (tidy : Every (fun _ => Tidy launch.graph) path walk) (known : Every (R shared) path walk)
    (h : Turns launch path shared walk after) (before : Every (P shared) path walk) :
    Every (P after.1) path after.2 := by
  induction h with
  | act h => exact acts h known before
  | receive there waiting =>
    have ended := before.inside _ (List.mem_of_getElem? there)
    exact .intro (receives there waiting before.root ended.root) before.inside
  | @within path shared branches pending gather slot branch after there h ih =>
    have mem := List.mem_of_getElem? there
    have growth := turns_grows h
    refine .intro (within _ there growth before.root) fun other among => ?_
    obtain ⟨position, indexed⟩ : ∃ position, (branches.set slot { branch with walk := after.2 })[position]? = some other :=
      List.mem_iff_getElem?.1 among
    by_cases same : slot = position
    · subst same
      rw [List.getElem?_set_self (List.getElem?_eq_some_iff.1 there).1] at indexed
      obtain rfl := Option.some.inj indexed
      exact ih (tidy.inside branch mem) (known.inside branch mem) (before.inside branch mem)
    · rw [List.getElem?_set_ne same] at indexed
      have different := Joining.index_ne tidy.root there indexed same
      have earlier := before.inside other (List.mem_of_getElem? indexed)
      exact earlier.inherit (R := fun path => Shared.Apart path shared after.1) Shared.Apart.inner keeps
        (growth.apart different)

end Walk

end StepFlow
