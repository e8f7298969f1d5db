/-
Books of a run.

Bounds on what a run does as a whole, on the numbers that it draws or on the branches that it starts, come from books: what
has been gained so far, what has been paid for it, and what each walk of the tree is still good for. If no action gains more
than it pays, or takes from the credit of its walk, then no run does, however its branches are interleaved. Results:
- `Walk.total_set`, `Walk.total_fanOut`: how a sum over the walks of a tree changes;
- `Ledger.turns`, `Ledger.moves`: the books of every turn and of every run balance.
-/
import StepFlow.Proofs.Run.Outlook

namespace StepFlow

/-! ## Sums over a tree -/

mutual

/-- the sum of a quantity over all walks of a tree -/
def Walk.total (quantity : Path → Walk → Nat) (path : Path) : Walk → Nat
  | .joining branches pending gather =>
    quantity path (.joining branches pending gather) + totalAmong quantity path branches
  | walk => quantity path walk

def totalAmong (quantity : Path → Walk → Nat) (path : Path) : List (Branch Walk) → Nat
  | [] => 0
  | ⟨_, index, walk⟩ :: rest => Walk.total quantity (path ++ [index]) walk + totalAmong quantity path rest

end

section

variable {quantity : Path → Walk → Nat}

theorem totalAmong_eq_sum (quantity : Path → Walk → Nat) (path : Path) (branches : List (Branch Walk)) :
    totalAmong quantity path branches =
      (branches.map fun branch => branch.walk.total quantity (path ++ [branch.index])).sum := by
  induction branches with
  | nil => rfl
  | cons branch rest ih => rw [totalAmong, ih, List.map_cons, List.sum_cons]

theorem Walk.le_total (walk : Walk) (path : Path) : quantity path walk ≤ walk.total quantity path := by
  cases walk with
  | joining branches pending gather => exact Nat.le_add_right _ _
  | _ => exact Nat.le_refl _

/-- Changing one branch changes the sum by as much, if the root does not look at it. -/
theorem Walk.total_set {branches : List (Branch Walk)} {pending : List TaskId} {gather : Gather} {slot : Nat}
    {branch : Branch Walk} (there : branches[slot]? = some branch) (path : Path) (walk : Walk)
    (root : quantity path (.joining (branches.set slot { branch with walk := walk }) pending gather) =
      quantity path (.joining branches pending gather)) :
    (Walk.joining (branches.set slot { branch with walk := walk }) pending gather).total quantity path +
        branch.walk.total quantity (path ++ [branch.index]) =
      (Walk.joining branches pending gather).total quantity path + walk.total quantity (path ++ [branch.index]) := by
  have sum : ((branches.set slot { branch with walk := walk }).map
        fun one => one.walk.total quantity (path ++ [one.index])).sum + branch.walk.total quantity (path ++ [branch.index]) =
      (branches.map fun one => one.walk.total quantity (path ++ [one.index])).sum +
        walk.total quantity (path ++ [branch.index]) :=
    sum_map_set (fun one : Branch Walk => one.walk.total quantity (path ++ [one.index])) there
  simp only [Walk.total, totalAmong_eq_sum, root]
  omega

theorem Walk.total_fanOut (path : Path) (shared : Shared) (source : NodeId) (value : Value)
    (fired : List (Nat × Advancer)) :
    (Walk.fanOut path shared source value fired).2.total quantity path =
      quantity path (Walk.fanOut path shared source value fired).2 +
        (fired.map fun one => quantity (path ++ [one.1]) (.crossing source one.2 value)).sum := by
  have opened := Walk.getElem?_branches_fanOut path shared source value fired
  have each : (Walk.fanOut path shared source value fired).2.branches.map
        (fun branch => branch.walk.total quantity (path ++ [branch.index])) =
      fired.map fun one => quantity (path ++ [one.1]) (.crossing source one.2 value) := by
    refine List.ext_getElem? fun slot => ?_
    rw [List.getElem?_map, opened, List.getElem?_map, Option.map_map]
    rfl
  rw [← each, ← totalAmong_eq_sum]
  rfl

end

/-! ## Books -/

/-- Books beside a run of walks that are known to be of some kind: gains, payments, and the credit of each walk. No action
gains more than it pays or takes from the credit of its walk, and whoever cancels a token gains and pays nothing. -/
structure Ledger (launch : Launch) (Kind : Path → Walk → Prop) where
  gains : Shared → Nat
  payments : Shared → Nat
  credit : Path → Walk → Nat
  gains_start : gains (RunState.start launch).shared = 0
  credit_joining : ∀ path branches pending gather, credit path (.joining branches pending gather) = 0
  gains_cancel : ∀ shared branch, gains (shared.cancel branch) = gains shared
  payments_cancel : ∀ shared branch, payments (shared.cancel branch) = payments shared
  acts : ∀ {path shared walk after}, Walk.Acts launch path shared walk after → Kind path walk →
    gains after.1 + after.2.total credit path + payments shared ≤ gains shared + credit path walk + payments after.1

namespace Ledger

variable {launch : Launch} {Kind : Path → Walk → Prop}

/-- **No turn gains more than it pays or takes from the credit of the tree.** -/
theorem turns (ledger : Ledger launch Kind) {path : Path} {shared : Shared} {walk : Walk} {after : Shared × Walk}
    (h : Walk.Turns launch path shared walk after) (kind : Walk.Every Kind path walk) :
    ledger.gains after.1 + after.2.total ledger.credit path + ledger.payments shared ≤
      ledger.gains shared + walk.total ledger.credit path + ledger.payments after.1 := by
  induction h with
  | @act path shared walk after acts =>
    have balance := ledger.acts acts kind.root
    have covered : ledger.credit path walk ≤ walk.total ledger.credit path := walk.le_total path
    omega
  | receive _ _ =>
    simp only [Walk.total, ledger.credit_joining]
    omega
  | @within path shared branches pending gather slot branch after there _ ih =>
    have balance := ih (kind.inside branch (List.mem_of_getElem? there))
    have root : ledger.credit path (.joining (branches.set slot { branch with walk := after.2 }) pending gather) =
        ledger.credit path (.joining branches pending gather) := by
      rw [ledger.credit_joining, ledger.credit_joining]
    have sum := Walk.total_set there path after.2 root
    dsimp only
    omega

/-- **The books of every run balance**, whatever it has in credit when it starts. -/
theorem moves (ledger : Ledger launch Kind)
    (kind : ∀ schedule state, (RunState.start launch).moves launch schedule = some state → Walk.Every Kind [] state.walk)
    {capital : Nat} (begins : (RunState.start launch).walk.total ledger.credit [] ≤ capital) {schedule : List Move}
    {state : RunState} (h : (RunState.start launch).moves launch schedule = some state) :
    ledger.gains state.shared + state.walk.total ledger.credit [] ≤ ledger.payments state.shared + capital := by
  refine RunState.moves_induction_reached (P := fun state => ledger.gains state.shared +
    state.walk.total ledger.credit [] ≤ ledger.payments state.shared + capital) ?_ ?_ h ?_
  · intro schedule state after reached turns before
    have balance := ledger.turns turns (kind schedule state reached)
    dsimp only at before ⊢
    omega
  · intro state branch before
    simp only [ledger.gains_cancel, ledger.payments_cancel]
    exact before
  · rw [ledger.gains_start]
    omega

end Ledger

end StepFlow
