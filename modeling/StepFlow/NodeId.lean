/-
Names of nodes.

A node is known by its name within one orchestration. Names are ordered by code points; `NodeId.sorted` lists the
distinct names of a collection in that order.
-/

namespace StepFlow

/-- the name of a node -/
structure NodeId where
  name : String
  deriving DecidableEq, Hashable, Inhabited

namespace NodeId

instance : ToString NodeId := ⟨NodeId.name⟩

/-- the distinct names in the order of their code points -/
def sorted (ids : List NodeId) : List NodeId :=
  ids.eraseDups.mergeSort fun a b => decide (a.name ≤ b.name)

end NodeId

end StepFlow
