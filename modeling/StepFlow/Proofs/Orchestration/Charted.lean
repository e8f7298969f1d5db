/-
A chart is an exact copy of its graph.

A chart grows in two places at once, a topology and a table of numbers, and while links are added the targets that they need
are added between them. What carries the proof is that the table answers as the names do (`Chart.Agrees`): from there on each
step of a chart is the step of a topology, and nothing that was numbered is numbered anew. Results:
- `Chart.connect_agrees`, `Chart.foldlM_connectNode`: a chart is drawn up in step with a topology, and no source is missing;
- `Topology.names_connectNodes`: vertices are added for the targets that had none, where they first occur;
- `Topology.links_connectNodes`: each advancer gets the link that depicts it, in the order of the advancers;
- `chart_copies`: the chart of a graph is there and copies the graph.
-/
import StepFlow.Orchestration.Chart
import StepFlow.Proofs.Orchestration.Ranked

namespace StepFlow

/-! ## Numbers -/

namespace Topology

variable {topology grown : Topology}

theorem indexOf?_eq_none {id : NodeId} : topology.indexOf? id = none ↔ id ∉ topology.names := by
  simp only [indexOf?, List.findIdx?_eq_none_iff, beq_eq_false_iff_ne]
  exact ⟨fun none mem => none id mem rfl, fun absent name mem same => absent (same ▸ mem)⟩

/-- A vertex that is added gets the next number, and no other name gets one. -/
theorem indexOf?_append {id : NodeId} (absent : id ∉ topology.names) (links : List Link) (other : NodeId) :
    indexOf? { names := topology.names ++ [id], links := links } other =
      if other = id then some topology.names.length else topology.indexOf? other := by
  by_cases same : other = id
  · subst same
    have none := indexOf?_eq_none.2 absent
    unfold indexOf? at none ⊢
    simp [List.findIdx?_append, none]
  · simp [indexOf?, List.findIdx?_append, same, Ne.symm same]

/-- Without repetitions, numbers and names determine each other. -/
theorem indexOf?_eq_some_iff (distinct : topology.names.Nodup) {id : NodeId} {index : Nat} :
    topology.indexOf? id = some index ↔ topology.name? index = some id := by
  refine ⟨name?_of_indexOf?, fun named => ?_⟩
  have mem : id ∈ topology.names := List.mem_of_getElem? named
  obtain ⟨first, numbered⟩ := Option.ne_none_iff_exists'.1 fun none => indexOf?_eq_none.1 none mem
  have lt : index < topology.names.length := (List.getElem?_eq_some_iff.1 named).1
  have same : topology.names[index]? = topology.names[first]? := named.trans (name?_of_indexOf? numbered).symm
  rw [numbered, (List.getElem?_inj lt distinct).1 same]

/-- the nodes of a list have the numbers from `source` on -/
def NumbersFrom (topology : Topology) (source : Nat) (nodes : List Node) : Prop :=
  ∀ position node, nodes[position]? = some node → topology.indexOf? node.id = some (source + position)

theorem NumbersFrom.head {source : Nat} {node : Node} {rest : List Node} (h : topology.NumbersFrom source (node :: rest)) :
    topology.indexOf? node.id = some source :=
  h 0 node rfl

theorem NumbersFrom.tail {source : Nat} {node : Node} {rest : List Node} (h : topology.NumbersFrom source (node :: rest))
    (grows : Grows topology grown) : grown.NumbersFrom (source + 1) rest := by
  intro position other there
  have numbered : topology.indexOf? other.id = some (source + (position + 1)) := h (position + 1) other there
  rw [Nat.add_assoc, Nat.add_comm 1]
  exact grows.indexOf? numbered

end Topology

/-! ## In step with a topology -/

namespace Chart

variable {chart : Chart}

/-- the table of a chart holds the numbers that the names have by their places -/
def Agrees (chart : Chart) : Prop :=
  ∀ id, chart.indexOf? id = chart.topology.indexOf? id

theorem Agrees.add (h : chart.Agrees) {id : NodeId} (absent : id ∉ chart.topology.names) : (chart.add id).Agrees := by
  intro other
  rw [Chart.add, Topology.indexOf?_append absent]
  by_cases same : other = id
  · rw [if_pos same, same]
    exact Finmap.lookup_insert _
  · rw [if_neg same, ← h other]
    exact Finmap.lookup_insert_of_ne _ same

theorem vertex_agrees (h : chart.Agrees) (id : NodeId) :
    (chart.vertex id).1 = (chart.topology.vertex id).1 ∧ (chart.vertex id).2.topology = (chart.topology.vertex id).2 ∧
      (chart.vertex id).2.Agrees := by
  unfold vertex Topology.vertex
  rw [h id]
  cases numbered : chart.topology.indexOf? id with
  | some index => exact ⟨rfl, rfl, h⟩
  | none => exact ⟨rfl, rfl, h.add (Topology.indexOf?_eq_none.1 numbered)⟩

/-- **A link is added to a chart as to its topology.** -/
theorem connect_agrees (h : chart.Agrees) (source index : Nat) (advancer : Advancer) :
    (chart.connect source index advancer).topology = chart.topology.connect source index advancer ∧
      (chart.connect source index advancer).Agrees := by
  obtain ⟨number, topology, agrees⟩ := vertex_agrees h advancer.target
  refine ⟨?_, agrees⟩
  unfold connect Topology.connect
  generalize chart.topology.vertex advancer.target = plain at number topology ⊢
  obtain ⟨target, grown⟩ := plain
  subst number topology
  rfl

theorem connectAll_agrees (h : chart.Agrees) (source index : Nat) (advancers : List Advancer) :
    (connectAll source chart index advancers).topology = Topology.connectAll source chart.topology index advancers ∧
      (connectAll source chart index advancers).Agrees := by
  induction advancers generalizing chart index with
  | nil => exact ⟨rfl, h⟩
  | cons advancer rest ih =>
    obtain ⟨topology, agrees⟩ := connect_agrees h source index advancer
    rw [connectAll, Topology.connectAll, ← topology]
    exact ih agrees (index + 1)

/-- **No source is missing from the table**, and the links of the nodes are added as to a topology. -/
theorem foldlM_connectNode (h : chart.Agrees) {source : Nat} {nodes : List Node}
    (numbered : chart.topology.NumbersFrom source nodes) :
    ∃ after, nodes.foldlM connectNode chart = some after ∧
      after.topology = Topology.connectNodes chart.topology source nodes ∧ after.Agrees := by
  induction nodes generalizing chart source with
  | nil => exact ⟨chart, rfl, rfl, h⟩
  | cons node rest ih =>
    obtain ⟨topology, agrees⟩ := connectAll_agrees h source 0 node.advancers
    have first : chart.connectNode node = some (connectAll source chart 0 node.advancers) := by
      rw [connectNode, h, numbered.head]
    have grows := (Topology.connectAll_spec source chart.topology 0 node.advancers).1
    obtain ⟨after, runs, drawn, kept⟩ := ih agrees (numbered.tail (topology ▸ grows))
    refine ⟨after, ?_, by rw [drawn, topology]; rfl, kept⟩
    rw [List.foldlM_cons, first]
    exact runs

theorem foldl_add (h : chart.Agrees) {ids : List NodeId} (distinct : (chart.topology.names ++ ids).Nodup) :
    (ids.foldl add chart).topology = { chart.topology with names := chart.topology.names ++ ids } ∧
      (ids.foldl add chart).Agrees := by
  induction ids generalizing chart with
  | nil => exact ⟨by simp, h⟩
  | cons id rest ih =>
    have absent : id ∉ chart.topology.names := fun mem =>
      (List.nodup_append.1 distinct).2.2 id mem id List.mem_cons_self rfl
    obtain ⟨topology, agrees⟩ := ih (h.add absent) (by simpa [add] using distinct)
    refine ⟨?_, agrees⟩
    rw [List.foldl_cons, topology]
    simp [add]

end Chart

/-! ## Names and links of a topology -/

def noteName (names : List NodeId) (id : NodeId) : List NodeId :=
  if id ∈ names then names else names ++ [id]

theorem nodup_noteName {names : List NodeId} (distinct : names.Nodup) (id : NodeId) : (noteName names id).Nodup := by
  unfold noteName
  split
  · exact distinct
  · rename_i absent
    exact List.nodup_append.2 ⟨distinct, by simp, fun other mem id' new same => absent (by
      rw [List.mem_singleton.1 new] at same; exact same ▸ mem)⟩

theorem nodup_foldl_noteName {names ids : List NodeId} (distinct : names.Nodup) : (ids.foldl noteName names).Nodup := by
  induction ids generalizing names with
  | nil => exact distinct
  | cons id rest ih => exact ih (nodup_noteName distinct id)

/-- Names noted one by one stand where they first occur. -/
theorem foldl_noteName (names ids : List NodeId) : ids.foldl noteName names = names ++ (ids.removeAll names).eraseDups := by
  induction ids generalizing names with
  | nil => simp [List.removeAll]
  | cons id rest ih =>
    rw [List.foldl_cons, ih, List.cons_removeAll]
    unfold noteName
    split
    · rename_i known
      simp [known]
    · rename_i new
      have others : rest.removeAll (names ++ [id]) = (rest.removeAll names).filter fun other => !other == id := by
        simp only [List.removeAll, List.filter_filter]
        refine List.filter_congr fun other _ => ?_
        rw [Bool.eq_iff_iff]
        simp [and_comm]
      simp [new, others, List.eraseDups_cons]

namespace Topology

variable {topology : Topology}

theorem names_vertex (topology : Topology) (id : NodeId) :
    (topology.vertex id).2.names = noteName topology.names id := by
  unfold vertex noteName
  cases numbered : topology.indexOf? id with
  | some index =>
    have known : id ∈ topology.names := List.mem_of_getElem? (name?_of_indexOf? numbered)
    rw [if_pos known]
  | none => rw [if_neg (indexOf?_eq_none.1 numbered)]

theorem names_connectAll (topology : Topology) (source index : Nat) (advancers : List Advancer) :
    (connectAll source topology index advancers).names = (advancers.map Advancer.target).foldl noteName topology.names := by
  induction advancers generalizing topology index with
  | nil => rfl
  | cons advancer rest ih =>
    rw [connectAll, ih, List.map_cons, List.foldl_cons, ← names_vertex]
    rfl

/-- **Vertices are added for the targets that had none.** -/
theorem names_connectNodes (topology : Topology) (source : Nat) (nodes : List Node) :
    (connectNodes topology source nodes).names =
      (nodes.flatMap fun node => node.advancers.map Advancer.target).foldl noteName topology.names := by
  induction nodes generalizing topology source with
  | nil => rfl
  | cons node rest ih => rw [connectNodes, ih, names_connectAll, List.flatMap_cons, List.foldl_append]

end Topology

/-- an advancer with the name of its node and its position among the advancers of that node -/
structure PlacedAdvancer where
  source : NodeId
  position : Nat
  advancer : Advancer

def Node.placed (node : Node) : List PlacedAdvancer :=
  node.advancers.zipIdx.map fun entry => ⟨node.id, entry.2, entry.1⟩

/-- every advancer with its position, by node and then by position -/
def Orchestration.placed (graph : Orchestration) : List PlacedAdvancer :=
  graph.nodes.flatMap Node.placed

theorem Orchestration.placed_edges (graph : Orchestration) :
    graph.placed.map (fun placed => (placed.source, placed.advancer)) = graph.edges := by
  have each (node : Node) : node.placed.map (fun placed => (placed.source, placed.advancer)) =
      node.advancers.map fun advancer => (node.id, advancer) := by
    simp only [Node.placed, List.map_map]
    rw [← List.zipIdx_map_fst 0 node.advancers, List.map_map]
    simp [Function.comp_def]
  simp only [placed, edges, List.map_flatMap, each]

/-- a link leads from the number of an advancer's node to that of its target, and holds what else there is to say of it -/
structure Depicts (number : NodeId → Option Nat) (placed : PlacedAdvancer) (link : Link) : Prop where
  source : number placed.source = some link.source
  target : number placed.advancer.target = some link.target
  index : link.index = placed.position
  guarded : link.guarded = placed.advancer.isGuarded
  convertsTo : link.convertsTo = placed.advancer.converter.map fun converter => converter.returns.friendlyName

/-- links depict advancers one by one -/
abbrev DepictInTurn (number : NodeId → Option Nat) (advancers : List PlacedAdvancer) (links : List Link) : Prop :=
  List.Forall₂ (Depicts number) advancers links

theorem Depicts.grow {topology grown : Topology} {placed : PlacedAdvancer} {link : Link}
    (h : Depicts topology.indexOf? placed link) (grows : Topology.Grows topology grown) :
    Depicts grown.indexOf? placed link :=
  { h with source := grows.indexOf? h.source, target := grows.indexOf? h.target }

theorem DepictInTurn.grow {topology grown : Topology} {advancers : List PlacedAdvancer} {links : List Link}
    (h : DepictInTurn topology.indexOf? advancers links) (grows : Topology.Grows topology grown) :
    DepictInTurn grown.indexOf? advancers links :=
  h.imp fun _ _ depicts => depicts.grow grows

namespace Topology

variable {topology : Topology}

theorem links_connect {source : Nat} {id : NodeId} (numbered : topology.indexOf? id = some source) (index : Nat)
    (advancer : Advancer) : ∃ link, (topology.connect source index advancer).links = topology.links ++ [link] ∧
      Depicts (topology.connect source index advancer).indexOf? ⟨id, index, advancer⟩ link := by
  obtain ⟨grows, target⟩ := vertex_spec topology advancer.target
  have kept : (topology.vertex advancer.target).2.links = topology.links := by
    unfold vertex
    split <;> rfl
  have links : Grows (topology.vertex advancer.target).2 (topology.connect source index advancer) :=
    ⟨List.prefix_refl _, List.prefix_append ..⟩
  refine ⟨_, congrArg (· ++ [_]) kept, ?_⟩
  exact { source := (grows.trans links).indexOf? numbered, target := links.indexOf? target, index := rfl, guarded := rfl,
          convertsTo := rfl }

theorem links_connectAll {source : Nat} {id : NodeId} (numbered : topology.indexOf? id = some source) (index : Nat)
    (advancers : List Advancer) : ∃ links, (connectAll source topology index advancers).links = topology.links ++ links ∧
      DepictInTurn (connectAll source topology index advancers).indexOf?
        ((advancers.zipIdx index).map fun entry => ⟨id, entry.2, entry.1⟩) links := by
  induction advancers generalizing topology index with
  | nil => exact ⟨[], (List.append_nil _).symm, .nil⟩
  | cons advancer rest ih =>
    obtain ⟨link, first, depicts⟩ := links_connect numbered index advancer
    have grows := (connect_spec topology source index advancer).1
    obtain ⟨links, others, each⟩ := ih (grows.indexOf? numbered) (index + 1)
    have later := (connectAll_spec source (topology.connect source index advancer) (index + 1) rest).1
    refine ⟨link :: links, ?_, .cons (depicts.grow later) each⟩
    rw [connectAll, others, first, List.append_assoc, List.singleton_append]

/-- **Each advancer gets the link that depicts it**, in the order of the advancers. -/
theorem links_connectNodes {source : Nat} {nodes : List Node} (numbered : topology.NumbersFrom source nodes) :
    ∃ links, (connectNodes topology source nodes).links = topology.links ++ links ∧
      DepictInTurn (connectNodes topology source nodes).indexOf? (nodes.flatMap Node.placed) links := by
  induction nodes generalizing topology source with
  | nil => exact ⟨[], (List.append_nil _).symm, .nil⟩
  | cons node rest ih =>
    obtain ⟨own, first, depict⟩ := links_connectAll numbered.head 0 node.advancers
    have grows := (connectAll_spec source topology 0 node.advancers).1
    obtain ⟨links, others, each⟩ := ih (numbered.tail grows)
    have later := (connectNodes_spec (connectAll source topology 0 node.advancers) (source + 1) rest).1
    refine ⟨own ++ links, ?_, List.rel_append (depict.grow later) each⟩
    rw [connectNodes, others, first, List.append_assoc]

end Topology

/-! ## The copy -/

namespace Orchestration

variable {graph : Orchestration}

/-- the unregistered targets of advancers, each where it first occurs -/
def danglingTargets (graph : Orchestration) : List NodeId :=
  ((graph.edges.map fun edge => edge.2.target).filter fun id => !graph.contains id).eraseDups

theorem targets_eq (graph : Orchestration) :
    (graph.nodes.flatMap fun node => node.advancers.map Advancer.target) = graph.edges.map fun edge => edge.2.target := by
  simp [edges, List.map_flatMap, Function.comp_def]

/-- **The vertices of a graph**: its nodes, and then the targets that are none. -/
theorem names_topology (graph : Orchestration) : graph.topology.names = graph.ids ++ graph.danglingTargets := by
  have outside : (graph.edges.map fun edge => edge.2.target).removeAll graph.ids =
      (graph.edges.map fun edge => edge.2.target).filter fun id => !graph.contains id := by
    refine List.filter_congr fun id _ => ?_
    rw [Bool.eq_iff_iff]
    simp [← contains_iff_mem_ids]
  rw [topology, Topology.names_connectNodes, foldl_noteName, targets_eq, outside]
  rfl

theorem nodup_names (distinct : graph.ids.Nodup) : graph.topology.names.Nodup := by
  rw [topology, Topology.names_connectNodes]
  exact nodup_foldl_noteName distinct

/-- At the start the nodes have the numbers of their positions. -/
theorem numbersFrom_ids (distinct : graph.ids.Nodup) : Topology.NumbersFrom { names := graph.ids } 0 graph.nodes := by
  intro position node there
  rw [Nat.zero_add, Topology.indexOf?_eq_some_iff distinct]
  simp [Topology.name?, ids, there]

theorem links_topology (distinct : graph.ids.Nodup) :
    DepictInTurn graph.topology.indexOf? graph.placed graph.topology.links := by
  obtain ⟨links, drawn, depict⟩ := Topology.links_connectNodes (numbersFrom_ids distinct)
  have all : graph.topology.links = links := drawn
  rw [all]
  exact depict

theorem exists_placed (distinct : graph.ids.Nodup) {link : Link} (mem : link ∈ graph.topology.links) :
    ∃ placed ∈ graph.placed, Depicts graph.topology.indexOf? placed link := by
  obtain ⟨same, each⟩ := List.forall₂_iff_get.1 (links_topology distinct)
  obtain ⟨place, lt, rfl⟩ := List.mem_iff_getElem.1 mem
  exact ⟨_, List.getElem_mem _, each place (same ▸ lt) lt⟩

/-- a chart copies a graph: its vertices are the nodes and the targets that are none, their numbers are their places, and its
links depict the advancers in their order -/
structure Copies (graph : Orchestration) (chart : Chart) : Prop where
  names : chart.topology.names = graph.ids ++ graph.danglingTargets
  distinct : chart.topology.names.Nodup
  inverse : ∀ id index, chart.indexOf? id = some index ↔ chart.nameAt? index = some id
  numbered : ∀ id, (∃ index, chart.indexOf? id = some index) ↔ id ∈ chart.topology.names
  named : ∀ index, (∃ id, chart.nameAt? index = some id) ↔ index < chart.topology.names.length
  links : DepictInTurn chart.indexOf? graph.placed chart.topology.links

/-- The chart of a graph is there, and is its topology with the numbers that the names have by their places. -/
theorem exists_chart (distinct : graph.ids.Nodup) :
    ∃ chart, graph.chart = some chart ∧ chart.topology = graph.topology ∧ chart.Agrees := by
  have empty : Chart.Agrees {} := fun _ => rfl
  have fresh : (({} : Chart).topology.names ++ graph.ids).Nodup := distinct
  obtain ⟨start, agrees⟩ := Chart.foldl_add empty fresh
  have named : (graph.ids.foldl Chart.add {}).topology = { names := graph.ids } := by simpa using start
  obtain ⟨chart, runs, drawn, kept⟩ := Chart.foldlM_connectNode agrees (named ▸ numbersFrom_ids distinct)
  exact ⟨chart, runs, by rw [drawn, named]; rfl, kept⟩

/-- **A chart is an exact copy of its graph.** For every graph with distinct names a chart comes out, in which nothing is lost,
repeated or out of order: nodes come first, then each unregistered target once, the table and the places of the names are
inverse to each other, and for each advancer there is the link that depicts it. -/
theorem chart_copies (distinct : graph.ids.Nodup) :
    graph.placed.map (fun placed => (placed.source, placed.advancer)) = graph.edges ∧
      ∃ chart, graph.chart = some chart ∧ chart.topology = graph.topology ∧ graph.Copies chart := by
  obtain ⟨chart, runs, same, agrees⟩ := exists_chart distinct
  have names : chart.topology.names.Nodup := same ▸ nodup_names distinct
  have inverse : ∀ id index, chart.indexOf? id = some index ↔ chart.nameAt? index = some id := fun id index => by
    rw [agrees id, Topology.indexOf?_eq_some_iff names]
    rfl
  refine ⟨graph.placed_edges, chart, runs, same, ?_⟩
  refine
    { names := same ▸ names_topology graph, distinct := names, inverse,
      numbered := fun id => ?_, named := fun index => ?_, links := ?_ }
  · rw [← Option.isSome_iff_exists, Option.isSome_iff_ne_none, agrees id, ne_eq, Topology.indexOf?_eq_none, not_not]
  · rw [← Option.isSome_iff_exists, Chart.nameAt?, Topology.name?]
    simp
  · have number : chart.indexOf? = graph.topology.indexOf? := funext fun id => same ▸ agrees id
    rw [number, same]
    exact links_topology distinct

/-- two nodes and two targets that are none, one of them named by both nodes before the other one is -/
def looseGraph : Orchestration :=
  { nodes :=
      [{ id := ⟨"a"⟩, step := .identity .string,
         advancers :=
          [.direct ⟨"y"⟩, .always (.direct ⟨"a"⟩),
            .converting ⟨"x"⟩ { returns := .int32, apply := fun value => .ok (.ok value) }] },
        { id := ⟨"b"⟩, step := .identity .string, advancers := [.always (.direct ⟨"y"⟩), .direct ⟨"a"⟩] }] }

theorem chart_copies_loose :
    looseGraph.ids.Nodup ∧ ∃ chart, looseGraph.chart = some chart ∧ looseGraph.Copies chart ∧
      chart.topology.names = [⟨"a"⟩, ⟨"b"⟩, ⟨"y"⟩, ⟨"x"⟩] ∧ chart.indexOf? ⟨"x"⟩ = some 3 ∧
      chart.topology.links =
        [⟨0, 2, 0, false, none⟩, ⟨0, 0, 1, true, none⟩, ⟨0, 3, 2, false, some "Int32"⟩, ⟨1, 2, 0, true, none⟩,
          ⟨1, 0, 1, false, none⟩] := by
  have distinct : looseGraph.ids.Nodup := by decide
  obtain ⟨-, chart, runs, same, copies⟩ := chart_copies distinct
  have names : chart.topology.names = [⟨"a"⟩, ⟨"b"⟩, ⟨"y"⟩, ⟨"x"⟩] := copies.names.trans (by decide)
  have last : chart.nameAt? 3 = some ⟨"x"⟩ := by simp [Chart.nameAt?, Topology.name?, names]
  exact ⟨distinct, chart, runs, copies, names, (copies.inverse _ _).2 last, by rw [same]; decide⟩

end Orchestration

end StepFlow
