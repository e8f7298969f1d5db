/-
Tasks that are received in any order.

`Gathering` says how the branches of a fan-out, the tasks that are still pending and the slots belong together: the slot
of a pending task is empty, and every other slot holds what its own branch has handed in. It holds when the tasks have
been started, whatever their identities are as long as they are distinct. Results:
- `Gathering.receive`, `Gathering.within`: receiving a task that has ended keeps it, and so does whatever a branch does
  before its end;
- `Gathering.receives`: tasks that have ended can be received in every order, and it still holds after the last;
- `Gathering.slots_eq`: with no task pending, every slot is filled, in the order of the branches.
-/
import Mathlib.Data.List.Nodup
import StepFlow.Run.Moves
import StepFlow.Run.Sequential

namespace StepFlow

/-! ## Changing a slot -/

theorem set_of_getElem? {α : Type} {xs : List α} {slot : Nat} {x : α} (there : xs[slot]? = some x) :
    xs.set slot x = xs := by
  obtain ⟨lt, rfl⟩ := List.getElem?_eq_some_iff.1 there
  exact List.set_getElem_self lt

theorem map_set_of_eq {α β : Type} {xs : List α} {slot : Nat} {old new : α} {f : α → β} (there : xs[slot]? = some old)
    (same : f new = f old) : (xs.set slot new).map f = xs.map f := by
  rw [List.map_set, same]
  refine List.ext_getElem? fun other => ?_
  by_cases indexed : slot = other
  · subst indexed
    obtain ⟨lt, -⟩ := List.getElem?_eq_some_iff.1 there
    rw [List.getElem?_set_self (by simpa using lt), List.getElem?_map, there]
    rfl
  · rw [List.getElem?_set_ne indexed]

/-- Where two lists are mapped to the same, they have elements at the same places. -/
theorem exists_of_map_eq {α β : Type} {xs ys : List α} {f : α → β} (same : xs.map f = ys.map f) {slot : Nat} {y : α}
    (there : ys[slot]? = some y) : ∃ x, xs[slot]? = some x ∧ f x = f y := by
  apply Option.map_eq_some_iff.1
  rw [← List.getElem?_map, same, List.getElem?_map, there]
  rfl

/-- Two lists that agree slot by slot still do after a slot of both has been changed. -/
theorem agree_set {α β : Type} {R : α → β → Prop} {xs : List α} {ys : List β} {slot : Nat} {x : α} {y : β}
    (agree : ∀ (other : Nat) a b, xs[other]? = some a → ys[other]? = some b → R a b) (changed : R x y) (other : Nat)
    (a : α) (b : β) (left : (xs.set slot x)[other]? = some a) (right : (ys.set slot y)[other]? = some b) : R a b := by
  by_cases same : slot = other
  · subst same
    have inXs : slot < xs.length := by simpa using (List.getElem?_eq_some_iff.1 left).1
    have inYs : slot < ys.length := by simpa using (List.getElem?_eq_some_iff.1 right).1
    rw [List.getElem?_set_self inXs] at left
    rw [List.getElem?_set_self inYs] at right
    obtain rfl := Option.some.inj left
    obtain rfl := Option.some.inj right
    exact changed
  · rw [List.getElem?_set_ne same] at left right
    exact agree other a b left right

/-- One of some lists and all the others, in whatever it is changed to. -/
theorem exists_flatten_perm {α : Type} {lists : List (List α)} {slot : Nat} {old : List α}
    (there : lists[slot]? = some old) :
    ∃ others, lists.flatten.Perm (old ++ others) ∧ ∀ new, (lists.set slot new).flatten.Perm (new ++ others) := by
  obtain ⟨lt, rfl⟩ := List.getElem?_eq_some_iff.1 there
  have apart : ∀ new, (lists.set slot new).flatten.Perm
      (new ++ ((lists.take slot).flatten ++ (lists.drop (slot + 1)).flatten)) := by
    intro new
    rw [List.set_eq_take_append_cons_drop, if_pos lt, List.flatten_append, List.flatten_cons]
    exact List.perm_append_comm_assoc _ _ _
  have whole := apart lists[slot]
  rw [List.set_getElem_self] at whole
  exact ⟨_, whole, apart⟩

/-! ## The table of tasks -/

theorem lookup_zipIdx {tasks : List TaskId} {slot start : Nat} {task : TaskId} (distinct : tasks.Nodup)
    (there : tasks[slot]? = some task) : (tasks.zipIdx start).lookup task = some (start + slot) := by
  induction tasks generalizing slot start with
  | nil => simp at there
  | cons first rest ih =>
    obtain ⟨fresh, distinct⟩ := List.nodup_cons.1 distinct
    rw [List.zipIdx_cons, List.lookup_cons]
    cases slot with
    | zero =>
      obtain rfl : first = task := by simpa using there
      simp
    | succ slot =>
      have there : rest[slot]? = some task := by simpa using there
      have other : task ≠ first := fun same => fresh (same ▸ List.mem_of_getElem? there)
      rw [beq_false_of_ne other]
      simp only [ih distinct there]
      congr 1
      omega

@[simp] theorem Gather.source_receive (gather : Gather) (task : TaskId) (ending : Ending) :
    (gather.receive task ending).source = gather.source := by
  unfold Gather.receive
  split <;> rfl

@[simp] theorem Gather.targets_receive (gather : Gather) (task : TaskId) (ending : Ending) :
    (gather.receive task ending).targets = gather.targets := by
  unfold Gather.receive
  split <;> rfl

/-! ## The slots and the tasks -/

/-- how the branches of a fan-out, the tasks that are still pending and the slots belong together -/
structure Gathering (branches : List (Branch Walk)) (pending : List TaskId) (gather : Gather) : Prop where
  distinct : (branches.map Branch.id).Nodup
  table : gather.table = (branches.map Branch.id).zipIdx
  slots : gather.slots.length = branches.length
  once : pending.Nodup
  known : ∀ id ∈ pending, id ∈ branches.map Branch.id
  empty : ∀ (slot : Nat) (branch : Branch Walk), branches[slot]? = some branch → branch.id ∈ pending →
    gather.slots[slot]? = some none
  received : ∀ (slot : Nat) (branch : Branch Walk), branches[slot]? = some branch → branch.id ∉ pending →
    ∃ ending, branch.walk = .ended ending ∧ gather.slots[slot]? = some (some (gather.resultOf branch.id ending))

namespace Gathering

variable {branches : List (Branch Walk)} {pending : List TaskId} {gather : Gather} {slot : Nat} {branch : Branch Walk}

theorem start (distinct : (branches.map Branch.id).Nodup) (source : NodeId) (targets : List NodeId) :
    Gathering branches (branches.map Branch.id) (Gather.start source targets (branches.map Branch.id)) := by
  refine ⟨distinct, rfl, ?_, distinct, fun id mem => mem, ?_, ?_⟩
  · simp [Gather.start]
  · intro slot branch there _
    simp [Gather.start, there]
  · intro slot branch there gone
    exact absurd (List.mem_map_of_mem (List.mem_of_getElem? there)) gone

theorem slot?_eq (h : Gathering branches pending gather) (there : branches[slot]? = some branch) :
    gather.slot? branch.id = some slot := by
  have indexed : (branches.map Branch.id)[slot]? = some branch.id := by rw [List.getElem?_map, there]; rfl
  rw [Gather.slot?, h.table, lookup_zipIdx h.distinct indexed, Nat.zero_add]

/-- The slot of a branch is filled with what the branch hands on, a panic being blamed on its own target. -/
theorem resultOf_eq (h : Gathering branches pending gather) (there : branches[slot]? = some branch)
    {target : NodeId} (leads : gather.targets[slot]? = some target) (ending : Ending) :
    gather.resultOf branch.id ending = Sequential.branchResult target ending := by
  have blamed : gather.blamed branch.id = target := by
    simp [Gather.blamed, h.slot?_eq there, leads]
  cases ending with
  | outputs outputs => rfl
  | failed failure => rfl
  | panicked panic => simp [Gather.resultOf, Sequential.branchResult, blamed]

theorem receive_eq (h : Gathering branches pending gather) (there : branches[slot]? = some branch)
    (ending : Ending) : gather.receive branch.id ending =
      { gather with slots := gather.slots.set slot (some (gather.resultOf branch.id ending)) } := by
  simp only [Gather.receive, h.slot?_eq there]

theorem slot_unique (h : Gathering branches pending gather) {other : Nat} {same : Branch Walk}
    (there : branches[slot]? = some branch) (again : branches[other]? = some same) (ids : same.id = branch.id) :
    other = slot := by
  have first := h.slot?_eq there
  have second := h.slot?_eq again
  rw [ids, first] at second
  exact (Option.some.inj second).symm

theorem receive (h : Gathering branches pending gather) {id : TaskId} {index : Nat} {ending : Ending}
    (there : branches[slot]? = some ⟨id, index, .ended ending⟩) :
    Gathering branches (pending.erase id) (gather.receive id ending) := by
  have filled := h.receive_eq there ending
  simp only at filled
  obtain ⟨lt, -⟩ := List.getElem?_eq_some_iff.1 there
  rw [filled]
  refine { h with
    slots := by simpa using h.slots
    once := h.once.erase id
    known := fun other mem => h.known other (List.mem_of_mem_erase mem)
    empty := ?_
    received := ?_ }
  · intro other branch indexed mem
    obtain ⟨ne, mem⟩ := h.once.mem_erase_iff.1 mem
    have apart : slot ≠ other := by
      rintro rfl
      rw [there] at indexed
      exact ne (congrArg Branch.id (Option.some.inj indexed)).symm
    simp only [List.getElem?_set_ne apart]
    exact h.empty other branch indexed mem
  · intro other branch indexed gone
    by_cases same : other = slot
    · subst same
      obtain rfl := Option.some.inj (there.symm.trans indexed)
      refine ⟨ending, rfl, ?_⟩
      rw [List.getElem?_set_self (h.slots ▸ lt)]
      rfl
    · have ne : branch.id ≠ id := fun ids => same (h.slot_unique there indexed ids)
      have before : branch.id ∉ pending := fun mem => gone (h.once.mem_erase_iff.2 ⟨ne, mem⟩)
      obtain ⟨ending', ended, result⟩ := h.received other branch indexed before
      refine ⟨ending', ended, ?_⟩
      rw [List.getElem?_set_ne (Ne.symm same)]
      exact result

theorem within (h : Gathering branches pending gather) (there : branches[slot]? = some branch)
    (goesOn : ∀ ending, branch.walk ≠ .ended ending) (walk : Walk) :
    Gathering (branches.set slot { branch with walk := walk }) pending gather := by
  have waiting : branch.id ∈ pending := by
    by_cases mem : branch.id ∈ pending
    · exact mem
    · obtain ⟨ending, ended, -⟩ := h.received slot branch there mem
      exact absurd ended (goesOn ending)
  have ids : (branches.set slot { branch with walk := walk }).map Branch.id = branches.map Branch.id :=
    map_set_of_eq there rfl
  refine ⟨ids ▸ h.distinct, ids ▸ h.table, by simpa using h.slots, h.once, ids ▸ h.known, ?_, ?_⟩
  · intro other one indexed mem
    obtain ⟨before, indexed, same⟩ := exists_of_map_eq ids.symm indexed
    exact h.empty other before indexed (same ▸ mem)
  · intro other one indexed gone
    by_cases same : slot = other
    · subst same
      rw [List.getElem?_set_self (List.getElem?_eq_some_iff.1 there).1] at indexed
      obtain rfl := Option.some.inj indexed
      exact absurd waiting gone
    · rw [List.getElem?_set_ne same] at indexed
      exact h.received other one indexed gone

/-- **With no task pending, every slot is filled**, with what the branch of that slot has handed in. -/
theorem slots_eq (h : Gathering branches [] gather) {results : List BranchResult}
    (length : results.length = branches.length)
    (handed : ∀ (slot : Nat) (branch : Branch Walk) (ending : Ending), branches[slot]? = some branch →
      branch.walk = .ended ending → results[slot]? = some (gather.resultOf branch.id ending)) :
    gather.slots = results.map some := by
  refine List.ext_getElem? fun slot => ?_
  by_cases lt : slot < branches.length
  · have there : branches[slot]? = some branches[slot] := List.getElem?_eq_getElem lt
    obtain ⟨ending, ended, result⟩ := h.received slot _ there (by simp)
    rw [result, List.getElem?_map, handed slot _ _ there ended]
    rfl
  · rw [List.getElem?_eq_none (by rw [h.slots]; omega), List.getElem?_eq_none (by simp [length]; omega)]

end Gathering

/-! ## Task after task -/

/-- The walk once the tasks of these slots have been received, one after another, if they can be. -/
def Walk.receives (launch : Launch) (path : Path) (order : List Nat) (state : Shared × Walk) : Option (Shared × Walk) :=
  order.foldlM (fun state slot => state.2.turn launch (.receive slot) path state.1) state

theorem Walk.turn_receive {branches : List (Branch Walk)} {slot : Nat} {id : TaskId} {index : Nat} {ending : Ending}
    (there : branches[slot]? = some ⟨id, index, .ended ending⟩) {pending : List TaskId} (waiting : id ∈ pending)
    (launch : Launch) (path : Path) (shared : Shared) (gather : Gather) :
    (Walk.joining branches pending gather).turn launch (.receive slot) path shared =
      some (shared, .joining branches (pending.erase id) (gather.receive id ending)) := by
  simp [Walk.turn, there, waiting]

/-- what is left once the tasks of some slots have been received -/
structure Gathering.After (branches : List (Branch Walk)) (pending : List TaskId) (gather : Gather) (order : List Nat)
    (left : List TaskId) (later : Gather) : Prop where
  gathering : Gathering branches left later
  source : later.source = gather.source
  targets : later.targets = gather.targets
  fewer : ∀ id ∈ left, id ∈ pending
  gone : ∀ slot ∈ order, ∀ branch, branches[slot]? = some branch → branch.id ∉ left

/-- **Tasks that have ended can be received in every order.** -/
theorem Gathering.receives {branches : List (Branch Walk)} {pending : List TaskId} {gather : Gather}
    (h : Gathering branches pending gather) {order : List Nat} (once : order.Nodup)
    (ready : ∀ slot ∈ order, ∃ id index ending, branches[slot]? = some ⟨id, index, .ended ending⟩ ∧ id ∈ pending)
    (launch : Launch) (path : Path) (shared : Shared) :
    ∃ left later,
      Walk.receives launch path order (shared, .joining branches pending gather) =
        some (shared, .joining branches left later) ∧
      Gathering.After branches pending gather order left later := by
  induction order generalizing pending gather with
  | nil => exact ⟨pending, gather, rfl, h, rfl, rfl, fun id mem => mem, by simp⟩
  | cons slot rest ih =>
    obtain ⟨fresh, once⟩ := List.nodup_cons.1 once
    obtain ⟨⟨id, index, ending, there, waiting⟩, others⟩ := List.forall_mem_cons.1 ready
    have still : ∀ other ∈ rest, ∃ id' index' ending', branches[other]? = some ⟨id', index', .ended ending'⟩ ∧
        id' ∈ pending.erase id := by
      intro other mem
      obtain ⟨id', index', ending', indexed, waits⟩ := others other mem
      refine ⟨id', index', ending', indexed, h.once.mem_erase_iff.2 ⟨?_, waits⟩⟩
      intro same
      exact fresh (h.slot_unique there indexed same ▸ mem)
    obtain ⟨left, later, received, after⟩ := ih (h.receive there) once still
    refine ⟨left, later, ?_, after.gathering, ?_, ?_, ?_, ?_⟩
    · rw [Walk.receives, List.foldlM_cons, Walk.turn_receive there waiting]
      exact received
    · rw [after.source, Gather.source_receive]
    · rw [after.targets, Gather.targets_receive]
    · intro other mem
      exact List.mem_of_mem_erase (after.fewer other mem)
    · rw [List.forall_mem_cons]
      refine ⟨?_, after.gone⟩
      intro branch indexed mem
      obtain rfl := Option.some.inj (there.symm.trans indexed)
      exact (h.once.mem_erase_iff.1 (after.fewer id mem)).1 rfl

end StepFlow
