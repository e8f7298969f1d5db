/-
A graph as it is kept while it is assembled.

Nodes are kept in a table by name, which has no order of its own, and their names in a list in the order of registration.
A call changes the table and the list apart from each other: registering a node puts its name at the end of the list and
the node into the table, and attaching an advancer replaces one entry of the table. Whoever goes through the nodes or the
advancers holds a cursor: what is left of the list of names, and of the advancers of the node visited last.
-/
import Mathlib.Data.Finmap
import StepFlow.Build.Call

namespace StepFlow

/-- a table of nodes by name, and the names in the order of registration -/
structure Registry where
  table : Finmap (fun _ : NodeId => Node) := ∅
  order : List NodeId := []
  entry : Option NodeId := none
  result : Option NodeId := none
  contract : Contract := .untyped
  strict : Bool := false

namespace Registry

/-- the node that is kept under a name -/
def node? (registry : Registry) (id : NodeId) : Option Node :=
  registry.table.lookup id

def contains (registry : Registry) (id : NodeId) : Bool :=
  (registry.node? id).isSome

/-- the first issue of an advancer that waits for `node` and does not fit it, looked for in the order of registration -/
def pendingMisfit (registry : Registry) (node : Node) : Option Issue :=
  (registry.order.filterMap registry.node?).findSome? fun source =>
    source.advancers.findSome? fun advancer =>
      if advancer.target = node.id then advancer.misfit source node else none

def addNode (registry : Registry) (node : Node) : Except BuildError Registry :=
  if registry.contains node.id then .error (.duplicateNode node.id)
  else if node.input.isUndeclared then .error (.undeclaredType node.id .input)
  else if node.output.isUndeclared then .error (.undeclaredType node.id .output)
  else
    match if registry.strict then registry.pendingMisfit node else none with
    | some issue => .error (.incompatibleAdvancer issue)
    | none =>
      .ok { registry with order := registry.order ++ [node.id], table := registry.table.insert node.id node }

/-- the issue of an advancer between two registered nodes that it does not fit -/
def attachmentMisfit (registry : Registry) (source : NodeId) (advancer : Advancer) : Option Issue := do
  let sourceNode ← registry.node? source
  let targetNode ← registry.node? advancer.target
  advancer.misfit sourceNode targetNode

def addAdvancer (registry : Registry) (source : NodeId) (advancer : Advancer) : Except BuildError Registry :=
  match if registry.strict then registry.attachmentMisfit source advancer else none with
  | some issue => .error (.incompatibleAdvancer issue)
  | none =>
    match registry.node? source with
    | none => .error (.unknownSource source advancer.target)
    | some node => .ok { registry with table := registry.table.insert source (node.attach advancer) }

def setEntry (registry : Registry) (id : NodeId) : Except BuildError Registry :=
  if registry.contains id then .ok { registry with entry := some id } else .error (.unknownNode id .entry)

def setResult (registry : Registry) (id : NodeId) : Except BuildError Registry :=
  if registry.contains id then .ok { registry with result := some id } else .error (.unknownNode id .result)

def apply (registry : Registry) : Call → Except BuildError Registry
  | .addNode node => registry.addNode node
  | .addAdvancer source advancer => registry.addAdvancer source advancer
  | .setEntry id => registry.setEntry id
  | .setResult id => registry.setResult id
  | .setContract contract => .ok { registry with contract := contract }
  | .setStrict strict => .ok { registry with strict := strict }

def applyAll (registry : Registry) (calls : List Call) : Except BuildError Registry :=
  calls.foldlM apply registry

def build (calls : List Call) : Except BuildError Registry :=
  applyAll {} calls

/-! ## Going through a registry -/

/-- The next node, and the names that are left. A name under which nothing is kept is passed over. -/
def nextNode (registry : Registry) : List NodeId → Option (Node × List NodeId)
  | [] => none
  | id :: rest =>
    match registry.node? id with
    | none => nextNode registry rest
    | some node => some (node, rest)

/-- a place among all advancers: the names that are left, and what is left of the node visited last -/
structure Cursor where
  ids : List NodeId
  current : Option (NodeId × List Advancer) := none

/-- There are fewer names left after a node. -/
theorem length_nextNode {registry : Registry} {ids rest : List NodeId} {node : Node}
    (h : registry.nextNode ids = some (node, rest)) : rest.length < ids.length := by
  induction ids with
  | nil => cases h
  | cons id others ih =>
    rw [nextNode] at h
    split at h
    · exact Nat.lt_succ_of_lt (ih h)
    · cases h
      exact Nat.lt_succ_self _

/-- The next advancer with the name of its node, and the place after it. Nodes without advancers are passed over. -/
def nextAdvancer (registry : Registry) (cursor : Cursor) : Option ((NodeId × Advancer) × Cursor) :=
  match cursor.current with
  | some (source, advancer :: rest) => some ((source, advancer), { cursor with current := some (source, rest) })
  | _ =>
    match _left : registry.nextNode cursor.ids with
    | none => none
    | some (node, ids) => registry.nextAdvancer { ids := ids, current := some (node.id, node.advancers) }
termination_by cursor.ids.length
decreasing_by exact length_nextNode _left

end Registry

end StepFlow
