/-
Graphs that do not lead round in a circle.

The test peels off the vertices that lead nowhere any more, round after round. The round in which a vertex goes is its rank:
it is higher than that of every vertex it has a link to, provided nothing is left in the end. Numbering the vertices loses
nothing, since a name keeps its number while vertices are added. Results:
- `Topology.vanishes_lt`, `Topology.isCyclic_eq_false`: links lead from later rounds to earlier ones, and numbers that go
  down along every link rule out a circle;
- `Orchestration.exists_link`: every advancer of a registered node has its link;
- `Orchestration.exists_rank`: in a graph without a circle the names have ranks that go down along every advancer;
- `Orchestration.isCyclic_eq_false_iff`: and such ranks are there only in a graph without a circle.
-/
import Mathlib.Order.Nat
import StepFlow.Orchestration.Topology
import StepFlow.Proofs.Orchestration.Reached

namespace StepFlow

namespace Topology

variable {topology grown : Topology}

/-! ## Rounds -/

theorem mem_trim {vertices : List Nat} {vertex : Nat} :
    vertex ∈ topology.trim vertices ↔
      vertex ∈ vertices ∧ ∃ link ∈ topology.links, link.source = vertex ∧ link.target ∈ vertices := by
  simp [trim]

/-- The last round peels what the rounds before it have left. -/
theorem core_succ (rounds : Nat) (vertices : List Nat) :
    topology.core (rounds + 1) vertices = topology.trim (topology.core rounds vertices) := by
  induction rounds generalizing vertices with
  | zero => rfl
  | succ rounds ih => exact ih (topology.trim vertices)

theorem mem_core_succ {link : Link} (mem : link ∈ topology.links) {rounds : Nat} {vertices : List Nat}
    (source : link.source ∈ topology.core rounds vertices) (target : link.target ∈ topology.core rounds vertices) :
    link.source ∈ topology.core (rounds + 1) vertices := by
  rw [core_succ, mem_trim]
  exact ⟨source, link, mem, rfl, target⟩

/-- what is left of all vertices after a number of rounds -/
def left (topology : Topology) (rounds : Nat) : List Nat :=
  topology.core rounds (List.range topology.names.length)

theorem exists_gone (acyclic : topology.isCyclic = false) (vertex : Nat) : ∃ rounds, vertex ∉ topology.left rounds := by
  have empty : topology.left topology.names.length = [] := by simpa [isCyclic, left] using acyclic
  exact ⟨_, empty ▸ List.not_mem_nil⟩

def vanishes (acyclic : topology.isCyclic = false) (vertex : Nat) : Nat :=
  Nat.find (exists_gone acyclic vertex)

/-- **Links lead from later rounds to earlier ones.** -/
theorem vanishes_lt (acyclic : topology.isCyclic = false) {link : Link} (mem : link ∈ topology.links)
    (numbered : link.source < topology.names.length) :
    vanishes acyclic link.target < vanishes acyclic link.source := by
  refine (Nat.lt_find_iff _ _).2 fun rounds early => ?_
  rw [not_not]
  -- the source stays for as long as the target does, and for one round more
  induction rounds with
  | zero => exact List.mem_range.2 numbered
  | succ rounds ih =>
    have there : link.target ∈ topology.left rounds := not_not.1 (Nat.find_min (exists_gone acyclic link.target) early)
    exact mem_core_succ mem (ih (Nat.le_of_lt early)) there

/-- Where numbers go down along every link, a round peels off some vertex: one with the least number. -/
theorem exists_peeled {rank : Nat → Nat} (falls : ∀ link ∈ topology.links, rank link.target < rank link.source)
    {vertices : List Nat} {vertex : Nat} (mem : vertex ∈ vertices) : ∃ gone ∈ vertices, gone ∉ topology.trim vertices := by
  induction least : rank vertex using Nat.strong_induction_on generalizing vertex with
  | _ number ih =>
    by_cases stays : vertex ∈ topology.trim vertices
    · obtain ⟨-, link, among, rfl, target⟩ := mem_trim.1 stays
      exact ih _ (least ▸ falls link among) target rfl
    · exact ⟨vertex, mem, stays⟩

/-- So as many rounds as there are vertices leave nothing. -/
theorem core_eq_nil {rank : Nat → Nat} (falls : ∀ link ∈ topology.links, rank link.target < rank link.source)
    {rounds : Nat} {vertices : List Nat} (enough : vertices.length ≤ rounds) : topology.core rounds vertices = [] := by
  induction rounds generalizing vertices with
  | zero => exact List.eq_nil_of_length_eq_zero (Nat.le_zero.1 enough)
  | succ rounds ih =>
    refine ih ?_
    cases vertices with
    | nil => exact Nat.zero_le _
    | cons vertex rest =>
      obtain ⟨gone, mem, peeled⟩ := exists_peeled falls (List.mem_cons_self (a := vertex) (l := rest))
      have shorter : (topology.trim (vertex :: rest)).length < (vertex :: rest).length :=
        List.length_filter_lt_length_iff_exists.2 ⟨gone, mem, fun kept => peeled (List.mem_filter.2 ⟨mem, kept⟩)⟩
      omega

/-- **Numbers that go down along every link rule out a circle.** -/
theorem isCyclic_eq_false (rank : Nat → Nat) (falls : ∀ link ∈ topology.links, rank link.target < rank link.source) :
    topology.isCyclic = false := by
  simp [isCyclic, core_eq_nil falls (List.length_range (n := topology.names.length)).le]

/-! ## Numbers and links -/

/-- one topology has come from another by adding vertices and links -/
structure Grows (old new : Topology) : Prop where
  names : old.names <+: new.names
  links : old.links <+: new.links

theorem Grows.refl (topology : Topology) : Grows topology topology :=
  ⟨List.prefix_refl _, List.prefix_refl _⟩

theorem Grows.trans {a b c : Topology} (first : Grows a b) (second : Grows b c) : Grows a c :=
  ⟨first.names.trans second.names, first.links.trans second.links⟩

theorem Grows.indexOf? (h : Grows topology grown) {id : NodeId} {index : Nat} (numbered : topology.indexOf? id = some index) :
    grown.indexOf? id = some index := by
  obtain ⟨more, same⟩ := h.names
  unfold Topology.indexOf? at numbered ⊢
  rw [← same, List.findIdx?_append, numbered]
  rfl

theorem name?_of_indexOf? {id : NodeId} {index : Nat} (numbered : topology.indexOf? id = some index) :
    topology.name? index = some id := by
  obtain ⟨lt, named, -⟩ := List.findIdx?_eq_some_iff_getElem.1 numbered
  rw [name?, List.getElem?_eq_getElem lt]
  simpa using named

theorem Grows.name? (h : Grows topology grown) {id : NodeId} {index : Nat} (named : topology.name? index = some id) :
    grown.name? index = some id := by
  obtain ⟨more, same⟩ := h.names
  obtain ⟨lt, -⟩ := List.getElem?_eq_some_iff.1 named
  rw [Topology.name?, ← same, List.getElem?_append_left lt]
  exact named

/-- an advancer has a link from the vertex of a number to the one of its target -/
def Linked (topology : Topology) (source : Nat) (advancer : Advancer) : Prop :=
  ∃ link ∈ topology.links, link.source = source ∧ topology.indexOf? advancer.target = some link.target

theorem Linked.grow {source : Nat} {advancer : Advancer} (h : Linked topology source advancer)
    (grows : Grows topology grown) : Linked grown source advancer := by
  obtain ⟨link, mem, starts, ends⟩ := h
  exact ⟨link, grows.links.subset mem, starts, grows.indexOf? ends⟩

theorem vertex_spec (topology : Topology) (id : NodeId) :
    Grows topology (topology.vertex id).2 ∧ (topology.vertex id).2.indexOf? id = some (topology.vertex id).1 := by
  unfold vertex
  cases numbered : topology.indexOf? id with
  | some index => exact ⟨.refl topology, numbered⟩
  | none =>
    refine ⟨⟨List.prefix_append .., List.prefix_refl _⟩, ?_⟩
    unfold Topology.indexOf? at numbered ⊢
    simp [List.findIdx?_append, numbered]

theorem connect_spec (topology : Topology) (source index : Nat) (advancer : Advancer) :
    Grows topology (topology.connect source index advancer) ∧
      Linked (topology.connect source index advancer) source advancer := by
  obtain ⟨grows, numbered⟩ := vertex_spec topology advancer.target
  have links : Grows (topology.vertex advancer.target).2 (topology.connect source index advancer) :=
    ⟨List.prefix_refl _, List.prefix_append ..⟩
  exact ⟨grows.trans links, _, List.mem_append_right _ (List.mem_singleton_self _), rfl, links.indexOf? numbered⟩

theorem connectAll_spec (source : Nat) (topology : Topology) (index : Nat) (advancers : List Advancer) :
    Grows topology (connectAll source topology index advancers) ∧
      ∀ advancer ∈ advancers, Linked (connectAll source topology index advancers) source advancer := by
  induction advancers generalizing topology index with
  | nil => exact ⟨.refl topology, by simp⟩
  | cons first rest ih =>
    obtain ⟨grows, linked⟩ := connect_spec topology source index first
    obtain ⟨more, each⟩ := ih (topology.connect source index first) (index + 1)
    refine ⟨grows.trans more, fun advancer mem => ?_⟩
    rcases List.mem_cons.1 mem with rfl | mem
    · exact linked.grow more
    · exact each advancer mem

theorem connectNodes_spec (topology : Topology) (source : Nat) (nodes : List Node) :
    Grows topology (connectNodes topology source nodes) ∧
      ∀ (position : Nat) (node : Node), nodes[position]? = some node → ∀ advancer ∈ node.advancers,
        Linked (connectNodes topology source nodes) (source + position) advancer := by
  induction nodes generalizing topology source with
  | nil => exact ⟨.refl topology, by simp⟩
  | cons first rest ih =>
    obtain ⟨grows, linked⟩ := connectAll_spec source topology 0 first.advancers
    obtain ⟨more, each⟩ := ih (connectAll source topology 0 first.advancers) (source + 1)
    refine ⟨grows.trans more, fun position node there advancer mem => ?_⟩
    cases position with
    | zero =>
      obtain rfl := Option.some.inj there
      exact (linked advancer mem).grow more
    | succ position =>
      have later := each position node there advancer mem
      rwa [Nat.add_right_comm] at later

/-- a link leads from the vertex of a number to the target of one of some advancers -/
def Stems (topology : Topology) (source : Nat) (advancers : List Advancer) (link : Link) : Prop :=
  link.source = source ∧ ∃ advancer ∈ advancers, topology.indexOf? advancer.target = some link.target

theorem stems_of_mem_connect {source index : Nat} {advancer : Advancer} {link : Link}
    (mem : link ∈ (topology.connect source index advancer).links) :
    link ∈ topology.links ∨ Stems (topology.connect source index advancer) source [advancer] link := by
  have kept : (topology.vertex advancer.target).2.links = topology.links := by
    unfold vertex
    split <;> rfl
  rcases List.mem_append.1 mem with old | new
  · exact Or.inl (kept ▸ old)
  · obtain rfl := List.mem_singleton.1 new
    exact Or.inr ⟨rfl, advancer, List.mem_singleton_self _, (vertex_spec topology advancer.target).2⟩

theorem stems_of_mem_connectAll {source index : Nat} {advancers : List Advancer} {link : Link}
    (mem : link ∈ (connectAll source topology index advancers).links) :
    link ∈ topology.links ∨ Stems (connectAll source topology index advancers) source advancers link := by
  induction advancers generalizing topology index with
  | nil => exact Or.inl mem
  | cons first rest ih =>
    rcases ih mem with earlier | ⟨starts, advancer, among, ends⟩
    · rcases stems_of_mem_connect earlier with old | ⟨starts, advancer, among, ends⟩
      · exact Or.inl old
      · obtain rfl := List.mem_singleton.1 among
        have grows := (connectAll_spec source (topology.connect source index advancer) (index + 1) rest).1
        exact Or.inr ⟨starts, advancer, List.mem_cons_self, grows.indexOf? ends⟩
    · exact Or.inr ⟨starts, advancer, List.mem_cons_of_mem _ among, ends⟩

theorem stems_of_mem_connectNodes {source : Nat} {nodes : List Node} {link : Link}
    (mem : link ∈ (connectNodes topology source nodes).links) :
    link ∈ topology.links ∨ ∃ position node, nodes[position]? = some node ∧
      Stems (connectNodes topology source nodes) (source + position) node.advancers link := by
  induction nodes generalizing topology source with
  | nil => exact Or.inl mem
  | cons first rest ih =>
    rcases ih mem with earlier | ⟨position, node, there, starts, ends⟩
    · rcases stems_of_mem_connectAll earlier with old | ⟨starts, advancer, among, ends⟩
      · exact Or.inl old
      · have grows := (connectNodes_spec (connectAll source topology 0 first.advancers) (source + 1) rest).1
        exact Or.inr ⟨0, first, rfl, starts, advancer, among, grows.indexOf? ends⟩
    · exact Or.inr ⟨position + 1, node, there, by rw [starts]; omega, ends⟩

end Topology

namespace Orchestration

variable {graph : Orchestration}

theorem exists_position {id : NodeId} {node : Node} (found : graph.node? id = some node) :
    ∃ position, graph.nodes[position]? = some node ∧ graph.topology.indexOf? id = some position := by
  obtain ⟨named, position, lt, rfl, first⟩ := List.find?_eq_some_iff_getElem.1 found
  refine ⟨position, List.getElem?_eq_getElem lt, ?_⟩
  refine (Topology.connectNodes_spec { names := graph.ids } 0 graph.nodes).1.indexOf? ?_
  refine List.findIdx?_eq_some_iff_getElem.2 ⟨by simpa [ids] using lt, ?_, fun earlier before => ?_⟩
  · simpa [ids] using named
  · simpa [ids] using first earlier before

/-- **Every advancer of a registered node has its link**, from the number of the node to that of its target. -/
theorem exists_link {id : NodeId} {node : Node} (found : graph.node? id = some node) {advancer : Advancer}
    (mem : advancer ∈ node.advancers) : ∃ link ∈ graph.topology.links,
      graph.topology.indexOf? id = some link.source ∧ graph.topology.indexOf? advancer.target = some link.target := by
  obtain ⟨position, there, numbered⟩ := exists_position found
  obtain ⟨link, among, starts, ends⟩ :=
    (Topology.connectNodes_spec { names := graph.ids } 0 graph.nodes).2 position node there advancer mem
  rw [Nat.zero_add] at starts
  exact ⟨link, among, starts ▸ numbered, ends⟩

/-- ranks of names that go down along every advancer of a registered node -/
def Ranks (graph : Orchestration) (rank : NodeId → Nat) : Prop :=
  ∀ id node advancer, graph.node? id = some node → advancer ∈ node.advancers → rank advancer.target < rank id

/-- **In a graph without a circle the names have ranks.** -/
theorem exists_rank (acyclic : graph.isCyclic = false) : ∃ rank, graph.Ranks rank := by
  refine ⟨fun id => ((graph.topology.indexOf? id).map (Topology.vanishes acyclic)).getD 0, ?_⟩
  intro id node advancer found mem
  obtain ⟨link, among, starts, ends⟩ := exists_link found mem
  have lt : link.source < graph.topology.names.length := (List.findIdx?_eq_some_iff_getElem.1 starts).1
  simpa [starts, ends] using Topology.vanishes_lt acyclic among lt

def vertexRank (graph : Orchestration) (rank : NodeId → Nat) (vertex : Nat) : Nat :=
  ((graph.topology.name? vertex).map rank).getD 0

theorem vertexRank_eq {rank : NodeId → Nat} {id : NodeId} {vertex : Nat} (named : graph.topology.name? vertex = some id) :
    graph.vertexRank rank vertex = rank id := by
  rw [vertexRank, named]
  rfl

/-- **Every link is that of an advancer**, from the vertex of its node to that of its target. -/
theorem exists_advancer (distinct : graph.ids.Nodup) {link : Link} (mem : link ∈ graph.topology.links) :
    ∃ id node advancer, graph.node? id = some node ∧ advancer ∈ node.advancers ∧
      graph.topology.name? link.source = some id ∧ graph.topology.name? link.target = some advancer.target := by
  rcases Topology.stems_of_mem_connectNodes mem with old | ⟨position, node, there, starts, advancer, among, ends⟩
  · cases old
  · have found : graph.node? node.id = some node := node?_of_mem distinct (List.mem_of_getElem? there)
    have source : graph.topology.name? link.source = some node.id := by
      rw [starts, Nat.zero_add]
      refine (Topology.connectNodes_spec { names := graph.ids } 0 graph.nodes).1.name? ?_
      simp [Topology.name?, ids, there]
    exact ⟨node.id, node, advancer, found, among, source, Topology.name?_of_indexOf? ends⟩

/-- **Graphs without a circle are those whose names have ranks.** -/
theorem isCyclic_eq_false_iff (distinct : graph.ids.Nodup) : graph.isCyclic = false ↔ ∃ rank, graph.Ranks rank := by
  refine ⟨exists_rank, fun ⟨rank, ranks⟩ => Topology.isCyclic_eq_false (graph.vertexRank rank) ?_⟩
  intro link mem
  obtain ⟨id, node, advancer, found, among, source, target⟩ := exists_advancer distinct mem
  rw [vertexRank_eq source, vertexRank_eq target]
  exact ranks id node advancer found among

end Orchestration

end StepFlow
