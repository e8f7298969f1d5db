/-
Circles are found exactly.

A circle of a graph is a way from a registered node through registered nodes back to it, of at least one advancer. A circle of
a topology is a chain of links back to the vertex that it starts from. An unregistered target is a vertex without links of its
own, so no chain of links goes on from it; that is why vertices for unregistered targets close no circle. Results:
- `Topology.isCyclic_iff`: peeling leaves something exactly when links lead round in a circle;
- `circular_topology_iff`: a graph and its topology have circles together;
- `isCyclic_exact`: whatever search is exact on topologies is exact on graphs, and so is peeling.
-/
import Mathlib.Data.Finset.Card
import Mathlib.Logic.Relation
import StepFlow.Proofs.Orchestration.BreadthFirst
import StepFlow.Proofs.Orchestration.Charted

namespace StepFlow

namespace Topology

variable {topology : Topology}

/-! ## Circles of a topology -/

def Joins (topology : Topology) (source target : Nat) : Prop :=
  ∃ link ∈ topology.links, link.source = source ∧ link.target = target

/-- a chain of links leads from a vertex back to it -/
def Circular (topology : Topology) : Prop :=
  ∃ vertex, Relation.TransGen topology.Joins vertex vertex

def Closed (topology : Topology) : Prop :=
  ∀ link ∈ topology.links, link.source < topology.names.length ∧ link.target < topology.names.length

/-- Along a chain of links numbers that go down along every link go down. -/
theorem rank_lt {rank : Nat → Nat} (falls : ∀ link ∈ topology.links, rank link.target < rank link.source)
    {source target : Nat} (chain : Relation.TransGen topology.Joins source target) : rank target < rank source := by
  induction chain with
  | single joined =>
    obtain ⟨link, mem, rfl, rfl⟩ := joined
    exact falls link mem
  | tail _ joined ih =>
    obtain ⟨link, mem, rfl, rfl⟩ := joined
    exact (falls link mem).trans ih

noncomputable def followers (topology : Topology) (vertex : Nat) : Finset Nat :=
  open Classical in (Finset.range topology.names.length).filter (Relation.TransGen topology.Joins vertex)

theorem mem_followers {source vertex : Nat} :
    vertex ∈ topology.followers source ↔ vertex < topology.names.length ∧ Relation.TransGen topology.Joins source vertex := by
  classical
  simp [followers]

/-- Without a circle a target has fewer followers than its source: itself at least is missing. -/
theorem followers_ssubset (closed : topology.Closed) (acyclic : ¬ topology.Circular) {link : Link}
    (mem : link ∈ topology.links) : topology.followers link.target ⊂ topology.followers link.source := by
  have joined : topology.Joins link.source link.target := ⟨link, mem, rfl, rfl⟩
  refine ⟨fun vertex follows => ?_, fun back => ?_⟩
  · obtain ⟨lt, chain⟩ := mem_followers.1 follows
    exact mem_followers.2 ⟨lt, .head joined chain⟩
  · have own := back (mem_followers.2 ⟨(closed link mem).2, .single joined⟩)
    exact acyclic ⟨link.target, (mem_followers.1 own).2⟩

/-- **Peeling is exact.** A rank that goes down along every link rules out a circle and a remainder alike: the round in which a
vertex goes is one if nothing is left, the number of followers if there is no circle. -/
theorem isCyclic_iff (closed : topology.Closed) : topology.isCyclic = true ↔ topology.Circular := by
  constructor
  · intro remains
    by_contra acyclic
    have falls := isCyclic_eq_false (fun vertex => (topology.followers vertex).card) fun link mem =>
      Finset.card_lt_card (followers_ssubset closed acyclic mem)
    rw [falls] at remains
    cases remains
  · rintro ⟨vertex, chain⟩
    by_contra acyclic
    have gone : topology.isCyclic = false := by simpa using acyclic
    exact lt_irrefl _ (rank_lt (fun link mem => vanishes_lt gone mem (closed link mem).1) chain)

end Topology

namespace Orchestration

variable {graph : Orchestration}

/-! ## Circles of a graph -/

/-- some way of at least one advancer leads from a registered node through registered nodes back to it -/
def Circular (graph : Orchestration) : Prop :=
  ∃ start length, graph.contains start = true ∧ graph.Way start (length + 1) start

/-- an advancer of the node of one name leads to the other name, which is registered too -/
def LeadsTo (graph : Orchestration) (source target : NodeId) : Prop :=
  ∃ node advancer, graph.node? source = some node ∧ advancer ∈ node.advancers ∧ advancer.target = target ∧
    graph.contains target = true

theorem way_iff_chain {start id : NodeId} :
    (∃ length, graph.Way start (length + 1) id) ↔ Relation.TransGen graph.LeadsTo start id := by
  constructor
  · rintro ⟨length, way⟩
    generalize counted : length + 1 = count at way
    induction way generalizing length with
    | here => cases counted
    | @onward length' id node advancer way found mem target ih =>
      have last : graph.LeadsTo id advancer.target := ⟨node, advancer, found, mem, rfl, target⟩
      cases way with
      | here => exact .single last
      | onward earlier found' mem' target' => exact .tail (ih _ rfl) last
  · intro chain
    induction chain with
    | single leads =>
      obtain ⟨node, advancer, found, mem, rfl, target⟩ := leads
      exact ⟨0, .onward .here found mem target⟩
    | tail _ leads ih =>
      obtain ⟨length, way⟩ := ih
      obtain ⟨node, advancer, found, mem, rfl, target⟩ := leads
      exact ⟨length + 1, .onward way found mem target⟩

theorem circular_iff : graph.Circular ↔ ∃ start, Relation.TransGen graph.LeadsTo start start := by
  constructor
  · rintro ⟨start, length, -, way⟩
    exact ⟨start, way_iff_chain.1 ⟨length, way⟩⟩
  · rintro ⟨start, chain⟩
    obtain ⟨length, way⟩ := way_iff_chain.2 chain
    obtain ⟨-, -, ⟨-, -, -, -, -, registered⟩⟩ := Relation.TransGen.tail'_iff.1 chain
    exact ⟨start, length, registered, way⟩

/-! ## From names to numbers and back -/

theorem topology_closed (graph : Orchestration) : graph.topology.Closed := by
  intro link mem
  have numbered {id : NodeId} {index : Nat} (h : graph.topology.indexOf? id = some index) :
      index < graph.topology.names.length := (List.findIdx?_eq_some_iff_getElem.1 h).1
  rcases Topology.stems_of_mem_connectNodes mem with old | ⟨position, node, there, starts, advancer, -, ends⟩
  · cases old
  · have lt : position < graph.nodes.length := (List.getElem?_eq_some_iff.1 there).1
    refine ⟨?_, numbered ends⟩
    rw [starts, Nat.zero_add, names_topology, List.length_append, ids, List.length_map]
    omega

theorem chain_goes_on {α : Type} {step : α → α → Prop} {first last : α} (chain : Relation.TransGen step first last)
    (onward : ∃ next, step last next) :
    Relation.TransGen (fun source target => step source target ∧ ∃ next, step target next) first last := by
  induction chain with
  | single once => exact .single ⟨once, onward⟩
  | tail _ once ih => exact .tail (ih ⟨_, once⟩) ⟨once, onward⟩

def number (graph : Orchestration) (id : NodeId) : Nat :=
  (graph.topology.indexOf? id).getD 0

def vertexName (graph : Orchestration) (vertex : Nat) : NodeId :=
  (graph.topology.name? vertex).getD default

theorem LeadsTo.joins {source target : NodeId} (h : graph.LeadsTo source target) :
    graph.topology.Joins (graph.number source) (graph.number target) := by
  obtain ⟨node, advancer, found, mem, rfl, -⟩ := h
  obtain ⟨link, among, starts, ends⟩ := exists_link found mem
  exact ⟨link, among, by rw [number, starts]; rfl, by rw [number, ends]; rfl⟩

/-- A link to a vertex that has links of its own is that of an advancer to a registered node. -/
theorem leadsTo_of_joins (distinct : graph.ids.Nodup) {source target : Nat} (joins : graph.topology.Joins source target)
    (onward : ∃ next, graph.topology.Joins target next) :
    graph.LeadsTo (graph.vertexName source) (graph.vertexName target) := by
  obtain ⟨link, mem, rfl, rfl⟩ := joins
  obtain ⟨_, other, also, starts, -⟩ := onward
  obtain ⟨id, node, advancer, found, among, first, last⟩ := exists_advancer distinct mem
  obtain ⟨id', node', -, found', -, first', -⟩ := exists_advancer distinct also
  rw [starts, last] at first'
  refine ⟨node, advancer, ?_, among, ?_, ?_⟩
  · rw [vertexName, first]
    exact found
  · rw [vertexName, last]
    rfl
  · rw [vertexName, last, first']
    exact contains_iff.2 ⟨node', found'⟩

/-- **A graph and its topology have circles together.** -/
theorem circular_topology_iff (distinct : graph.ids.Nodup) : graph.topology.Circular ↔ graph.Circular := by
  rw [circular_iff]
  constructor
  · rintro ⟨vertex, chain⟩
    obtain ⟨next, once, -⟩ := Relation.TransGen.head'_iff.1 chain
    have goesOn := chain_goes_on chain ⟨next, once⟩
    exact ⟨graph.vertexName vertex, goesOn.lift graph.vertexName fun _ _ joins => leadsTo_of_joins distinct joins.1 joins.2⟩
  · rintro ⟨start, chain⟩
    exact ⟨graph.number start, chain.lift graph.number fun _ _ leads => leads.joins⟩

/-- **Circles are found exactly.** Whatever search tells of a topology whether links lead round in a circle tells of a graph,
asked of its chart, whether some way of advancers leads from a registered node through registered nodes back to it: guarded or
not, reached from the entry or not, wherever else advancers lead and in whatever order nodes were registered. Peeling is such
a search. -/
theorem isCyclic_exact (distinct : graph.ids.Nodup) {search : Topology → Bool}
    (exact : ∀ topology : Topology, topology.Closed → (search topology = true ↔ topology.Circular)) :
    ∃ chart, graph.chart = some chart ∧ (search chart.topology = true ↔ graph.Circular) ∧
      graph.isCyclic = search chart.topology := by
  obtain ⟨chart, runs, same, -⟩ := exists_chart distinct
  have finds := exact graph.topology (topology_closed graph)
  refine ⟨chart, runs, ?_, ?_⟩
  · rw [same, finds, circular_topology_iff distinct]
  · rw [same, Bool.eq_iff_iff, finds, isCyclic, Topology.isCyclic_iff (topology_closed graph)]

/-- an entry that leads nowhere but to a target that is no node, and two nodes apart from it that lead to each other -/
def islandGraph : Orchestration :=
  { nodes :=
      [{ id := ⟨"a"⟩, step := .identity .string, advancers := [.always (.direct ⟨"x"⟩), .direct ⟨"x"⟩] },
        { id := ⟨"b"⟩, step := .identity .string, advancers := [.direct ⟨"c"⟩, .always (.direct ⟨"x"⟩)] },
        { id := ⟨"c"⟩, step := .identity .string, advancers := [.direct ⟨"a"⟩, .direct ⟨"b"⟩] }],
    entry := some ⟨"a"⟩ }

theorem isCyclic_exact_island :
    islandGraph.ids.Nodup ∧
      (∀ topology : Topology, topology.Closed → (topology.isCyclic = true ↔ topology.Circular)) ∧
      ∃ chart, islandGraph.chart = some chart ∧ chart.topology.isCyclic = true ∧ islandGraph.Circular := by
  have distinct : islandGraph.ids.Nodup := by decide
  have exact : ∀ topology : Topology, topology.Closed → (topology.isCyclic = true ↔ topology.Circular) :=
    fun _ => Topology.isCyclic_iff
  obtain ⟨chart, runs, finds, same⟩ := isCyclic_exact distinct exact
  have found : chart.topology.isCyclic = true := same ▸ (by decide : islandGraph.isCyclic = true)
  exact ⟨distinct, exact, chart, runs, found, finds.1 found⟩

/-- Without the way back only a target that is no node is left to lead to, and there is no circle. -/
example : Orchestration.isCyclic { islandGraph with nodes := islandGraph.nodes.take 2 } = false := by decide

end Orchestration

end StepFlow
