/-
What a breadth-first search reaches.

`Reached` is the least set of names that holds a start and is closed under the advancers of registered nodes to
registered targets. Results:
- `explore_nil`, `explore_cons`: one visit of the search at a time;
- `followAll_expands`: what meeting the targets of a node does to the frontier;
- `mem_reachableFrom_iff`: the search lists exactly the registered nodes that are reached. A node is met at most once,
  so that the search ends, and nothing that it has met is dropped;
- `reachableFrom_distinct`: and it lists each of them once.
-/
import Mathlib.Data.List.Nodup
import StepFlow.Orchestration.Reachable

namespace StepFlow.Orchestration

/-- the names that advancers lead to from a start, whatever their guards, as long as their targets are registered -/
inductive Reached (graph : Orchestration) (start : NodeId) : NodeId → Prop where
  | start : Reached graph start start
  | follow {id : NodeId} {node : Node} {advancer : Advancer} : Reached graph start id → graph.node? id = some node →
      advancer ∈ node.advancers → graph.contains advancer.target = true → Reached graph start advancer.target

theorem contains_iff {graph : Orchestration} {id : NodeId} :
    graph.contains id = true ↔ ∃ node, graph.node? id = some node := by
  simp [contains, Option.isSome_iff_exists]

theorem contains_iff_mem_ids {graph : Orchestration} {id : NodeId} : graph.contains id = true ↔ id ∈ graph.ids := by
  simp [contains, node?, ids, List.find?_isSome]

theorem node?_of_mem {graph : Orchestration} (distinct : graph.ids.Nodup) {node : Node} (mem : node ∈ graph.nodes) :
    graph.node? node.id = some node := by
  obtain ⟨other, found⟩ := contains_iff.1 (contains_iff_mem_ids.2 (List.mem_map_of_mem mem))
  rw [found, List.inj_on_of_nodup_map distinct (mem_nodes_of_node? found) mem (id_of_node? found)]

theorem node?_eq_some_iff {graph : Orchestration} (distinct : graph.ids.Nodup) {id : NodeId} {node : Node} :
    graph.node? id = some node ↔ node ∈ graph.nodes ∧ node.id = id := by
  refine ⟨fun found => ⟨mem_nodes_of_node? found, id_of_node? found⟩, ?_⟩
  rintro ⟨mem, rfl⟩
  exact node?_of_mem distinct mem

theorem node?_id {graph : Orchestration} {id : NodeId} {node : Node} (h : graph.node? id = some node) :
    graph.node? node.id = some node := by
  rw [id_of_node? h]; exact h

/-- Only the start itself may be reached without being registered. -/
theorem Reached.contains {graph : Orchestration} {start id : NodeId} (h : graph.Reached start id)
    (registered : graph.contains start = true) : graph.contains id = true := by
  cases h with
  | start => exact registered
  | follow _ _ _ target => exact target

/-! ## The search -/

theorem explore_nil (graph : Orchestration) (met : List NodeId) : graph.explore { met := met, queue := [] } = [] := by
  rw [explore]

theorem explore_cons (graph : Orchestration) (met : List NodeId) (node : Node) (rest : List Node) :
    graph.explore { met := met, queue := node :: rest } =
      node :: graph.explore (graph.followAll node.advancers { met := met, queue := rest }) := by
  rw [explore]

/-- Frontiers are visited node by node: what holds where nothing is queued, and of a frontier once it holds of the one that
the first visit leaves, holds of all. -/
@[elab_as_elim]
theorem frontier_induction (graph : Orchestration) {motive : Frontier → Prop}
    (done : ∀ met, motive { met := met, queue := [] })
    (visit : ∀ met node rest, motive (graph.followAll node.advancers { met := met, queue := rest }) →
      motive { met := met, queue := node :: rest }) (frontier : Frontier) : motive frontier := by
  induction frontier using explore.induct graph with
  | case1 frontier empty =>
    obtain ⟨met, queue⟩ := frontier
    subst empty
    exact done met
  | case2 frontier node rest split ih =>
    obtain ⟨met, queue⟩ := frontier
    subst split
    exact visit met node rest ih

/-- the frontier after meeting the targets of some advancers: nothing is dropped from the queue, every registered
target has been met, and what is new are targets -/
structure Expands (graph : Orchestration) (advancers : List Advancer) (before after : Frontier) : Prop where
  keeps : ∀ node ∈ before.queue, node ∈ after.queue
  meets : ∀ advancer ∈ advancers, ∀ target, graph.node? advancer.target = some target →
    target.id ∈ before.met ∨ target ∈ after.queue
  met : ∀ id ∈ after.met, id ∈ before.met ∨ ∃ target ∈ after.queue, graph.node? id = some target
  comes : ∀ node ∈ after.queue, node ∈ before.queue ∨ ∃ advancer ∈ advancers, graph.node? advancer.target = some node

theorem follow_expands (graph : Orchestration) (frontier : Frontier) (advancer : Advancer) :
    Expands graph [advancer] frontier (graph.follow frontier advancer) := by
  unfold follow
  cases found : graph.node? advancer.target with
  | none =>
    refine ⟨fun _ h => h, fun other ho target ht => ?_, fun _ h => Or.inl h, fun _ h => Or.inl h⟩
    rw [List.mem_singleton.1 ho, found] at ht
    exact absurd ht (by simp)
  | some node =>
    have only : ∀ other ∈ [advancer], ∀ target, graph.node? other.target = some target → target = node := by
      intro other ho target ht
      rw [List.mem_singleton.1 ho, found] at ht
      exact (Option.some.inj ht).symm
    simp only [Frontier.meet]
    split
    · rename_i known
      exact ⟨fun _ h => h, fun other ho target ht => Or.inl (only other ho target ht ▸ known), fun _ h => Or.inl h,
        fun _ h => Or.inl h⟩
    · refine ⟨fun _ h => List.mem_append_left _ h, fun other ho target ht => ?_, fun id h => ?_, fun other h => ?_⟩
      · rw [only other ho target ht]
        exact Or.inr (by simp)
      · rcases List.mem_cons.1 h with rfl | h
        · exact Or.inr ⟨node, by simp, node?_id found⟩
        · exact Or.inl h
      · rcases List.mem_append.1 h with h | h
        · exact Or.inl h
        · rw [List.mem_singleton.1 h]
          exact Or.inr ⟨advancer, by simp, found⟩

theorem followAll_expands (graph : Orchestration) (advancers : List Advancer) (frontier : Frontier) :
    Expands graph advancers frontier (graph.followAll advancers frontier) := by
  induction advancers generalizing frontier with
  | nil => exact ⟨fun _ h => h, by simp, fun _ h => Or.inl h, fun _ h => Or.inl h⟩
  | cons advancer rest ih =>
    have first := graph.follow_expands frontier advancer
    have others : Expands graph rest (graph.follow frontier advancer) (graph.followAll (advancer :: rest) frontier) :=
      ih (graph.follow frontier advancer)
    refine ⟨fun node h => others.keeps node (first.keeps node h), fun other ho target ht => ?_, fun id h => ?_,
      fun node h => ?_⟩
    · rcases List.mem_cons.1 ho with rfl | ho
      · rcases first.meets _ (by simp) target ht with h | h
        · exact Or.inl h
        · exact Or.inr (others.keeps target h)
      · rcases others.meets other ho target ht with h | h
        · rcases first.met _ h with h | ⟨met, queued, same⟩
          · exact Or.inl h
          · rw [node?_id ht] at same
            exact Or.inr (others.keeps _ (Option.some.inj same ▸ queued))
        · exact Or.inr h
    · rcases others.met id h with h | h
      · rcases first.met id h with h | ⟨target, queued, found⟩
        · exact Or.inl h
        · exact Or.inr ⟨target, others.keeps target queued, found⟩
      · exact Or.inr h
    · rcases others.comes node h with h | ⟨other, ho, found⟩
      · rcases first.comes node h with h | ⟨other, ho, found⟩
        · exact Or.inl h
        · rw [List.mem_singleton.1 ho] at found
          exact Or.inr ⟨advancer, List.mem_cons_self, found⟩
      · exact Or.inr ⟨other, List.mem_cons_of_mem _ ho, found⟩

theorem mem_explore_of_queue {graph : Orchestration} {frontier : Frontier} {node : Node} (h : node ∈ frontier.queue) :
    node ∈ graph.explore frontier := by
  induction frontier using frontier_induction graph with
  | done met => cases h
  | visit met first rest ih =>
    rw [explore_cons]
    rcases List.mem_cons.1 h with rfl | h
    · exact List.mem_cons_self
    · exact List.mem_cons_of_mem _ (ih ((graph.followAll_expands first.advancers _).keeps node h))

/-- Whatever holds of the queue and is handed on along advancers holds of every visited node. -/
theorem explore_induction {graph : Orchestration} {frontier : Frontier} {P : Node → Prop}
    (queued : ∀ node ∈ frontier.queue, P node)
    (follow : ∀ node, P node → ∀ advancer ∈ node.advancers, ∀ target, graph.node? advancer.target = some target →
      P target) : ∀ node ∈ graph.explore frontier, P node := by
  induction frontier using frontier_induction graph with
  | done met => simp [explore_nil]
  | visit met first rest ih =>
    rw [explore_cons]
    have holds : P first := queued first List.mem_cons_self
    intro node h
    rcases List.mem_cons.1 h with rfl | h
    · exact holds
    · refine ih (fun other ho => ?_) node h
      rcases (graph.followAll_expands first.advancers _).comes other ho with ho | ⟨advancer, ha, found⟩
      · exact queued other (List.mem_cons_of_mem _ ho)
      · exact follow first holds advancer ha other found

/-- A registered target of a visited node had been met before the search or is visited itself. -/
theorem explore_closed {graph : Orchestration} {frontier : Frontier} :
    ∀ node ∈ graph.explore frontier, ∀ advancer ∈ node.advancers, ∀ target,
      graph.node? advancer.target = some target → target.id ∈ frontier.met ∨ target ∈ graph.explore frontier := by
  induction frontier using frontier_induction graph with
  | done met => simp [explore_nil]
  | visit met first rest ih =>
    rw [explore_cons]
    have expands := graph.followAll_expands first.advancers { met := met, queue := rest }
    intro node h advancer ha target ht
    rcases List.mem_cons.1 h with rfl | h
    · rcases expands.meets advancer ha target ht with h | h
      · exact Or.inl h
      · exact Or.inr (List.mem_cons_of_mem _ (mem_explore_of_queue h))
    · rcases ih node h advancer ha target ht with h | h
      · rcases expands.met _ h with h | ⟨met, queued, same⟩
        · exact Or.inl h
        · rw [node?_id ht] at same
          rw [Option.some.inj same]
          exact Or.inr (List.mem_cons_of_mem _ (mem_explore_of_queue queued))
      · exact Or.inr (List.mem_cons_of_mem _ h)

/-- **The search is exact.** It lists the registered nodes that are reached from the start, and no others. -/
theorem mem_reachableFrom_iff {graph : Orchestration} {start : NodeId} (registered : graph.contains start = true)
    {node : Node} :
    node ∈ graph.reachableFrom start ↔ graph.Reached start node.id ∧ graph.node? node.id = some node := by
  obtain ⟨first, found⟩ := contains_iff.1 registered
  have named : first.id = start := id_of_node? found
  simp only [reachableFrom, found]
  constructor
  · refine explore_induction (P := fun node => graph.Reached start node.id ∧ graph.node? node.id = some node)
      (fun other h => ?_) (fun other h advancer ha target ht => ?_) node
    · rw [List.mem_singleton.1 h]
      exact ⟨named ▸ .start, node?_id found⟩
    · have there : graph.contains advancer.target = true := contains_iff.2 ⟨target, ht⟩
      rw [id_of_node? ht]
      exact ⟨.follow h.1 h.2 ha there, ht⟩
  · rintro ⟨reached, same⟩
    generalize node.id = id at reached same
    induction reached generalizing node with
    | start =>
      rw [found] at same
      rw [← Option.some.inj same]
      exact mem_explore_of_queue (by simp)
    | @follow id source advancer reached hs ha target ih =>
      rcases explore_closed source (ih hs) advancer ha node same with h | h
      · have again := node?_id same
        rw [List.mem_singleton.1 h, named, found] at again
        rw [← Option.some.inj again]
        exact mem_explore_of_queue (by simp)
      · exact h

theorem node?_of_mem_reachableFrom {graph : Orchestration} {start : NodeId} {node : Node}
    (h : node ∈ graph.reachableFrom start) : graph.node? node.id = some node := by
  unfold reachableFrom at h
  split at h
  · cases h
  · rename_i first found
    refine explore_induction (P := fun node => graph.node? node.id = some node) (fun other mem => ?_)
      (fun _ _ _ _ _ ht => node?_id ht) node h
    exact List.mem_singleton.1 mem ▸ node?_id found

/-! ## Each node once -/

/-- what is queued has been met, and is queued once -/
structure Frontier.Lawful (frontier : Frontier) : Prop where
  met : ∀ node ∈ frontier.queue, node.id ∈ frontier.met
  distinct : (frontier.queue.map Node.id).Nodup

/-- nothing that was met is forgotten, and what is new in the queue had not been met -/
structure Frontier.Grows (before after : Frontier) : Prop where
  met : before.met ⊆ after.met
  fresh : ∀ node ∈ after.queue, node ∈ before.queue ∨ node.id ∉ before.met

theorem Frontier.Grows.refl (frontier : Frontier) : frontier.Grows frontier :=
  ⟨List.Subset.refl _, fun _ mem => Or.inl mem⟩

theorem Frontier.Grows.trans {a b c : Frontier} (first : a.Grows b) (second : b.Grows c) : a.Grows c := by
  refine ⟨List.Subset.trans first.met second.met, fun node mem => ?_⟩
  rcases second.fresh node mem with mem | fresh
  · exact first.fresh node mem
  · exact Or.inr fun known => fresh (first.met known)

theorem Frontier.Lawful.meet {frontier : Frontier} (h : frontier.Lawful) (node : Node) :
    (frontier.meet node).Lawful ∧ frontier.Grows (frontier.meet node) := by
  unfold Frontier.meet
  split
  · exact ⟨h, .refl frontier⟩
  · rename_i fresh
    have new : node.id ∉ frontier.queue.map Node.id := by
      rintro mem
      obtain ⟨other, queued, same⟩ := List.mem_map.1 mem
      exact fresh (same ▸ h.met other queued)
    refine ⟨⟨fun other mem => ?_, ?_⟩, ⟨List.subset_cons_self _ _, fun other mem => ?_⟩⟩
    · rcases List.mem_append.1 mem with mem | mem
      · exact List.mem_cons_of_mem _ (h.met other mem)
      · exact List.mem_singleton.1 mem ▸ List.mem_cons_self
    · simpa [List.nodup_append] using ⟨h.distinct, fun other mem same => new (same ▸ List.mem_map_of_mem mem)⟩
    · rcases List.mem_append.1 mem with mem | mem
      · exact Or.inl mem
      · exact Or.inr (List.mem_singleton.1 mem ▸ fresh)

theorem Frontier.Lawful.followAll {frontier : Frontier} (h : frontier.Lawful) (graph : Orchestration)
    (advancers : List Advancer) :
    (graph.followAll advancers frontier).Lawful ∧ frontier.Grows (graph.followAll advancers frontier) := by
  induction advancers generalizing frontier with
  | nil => exact ⟨h, .refl frontier⟩
  | cons advancer rest ih =>
    have first : (graph.follow frontier advancer).Lawful ∧ frontier.Grows (graph.follow frontier advancer) := by
      unfold follow
      split
      · exact ⟨h, .refl frontier⟩
      · exact h.meet _
    obtain ⟨lawful, grows⟩ := ih first.1
    exact ⟨lawful, first.2.trans grows⟩

theorem Frontier.Lawful.tail {met : List NodeId} {node : Node} {rest : List Node}
    (h : Frontier.Lawful { met := met, queue := node :: rest }) : Frontier.Lawful { met := met, queue := rest } :=
  ⟨fun other mem => h.met other (List.mem_cons_of_mem _ mem), (List.nodup_cons.1 h.distinct).2⟩

/-- A search visits no name twice, and none that had been met and was not queued. -/
theorem explore_distinct {graph : Orchestration} {frontier : Frontier} (h : frontier.Lawful) :
    ((graph.explore frontier).map Node.id).Nodup ∧
      ∀ node ∈ graph.explore frontier, node ∈ frontier.queue ∨ node.id ∉ frontier.met := by
  induction frontier using frontier_induction graph with
  | done met => simp [explore_nil]
  | visit met first rest ih =>
    obtain ⟨lawful, grows⟩ := h.tail.followAll graph first.advancers
    obtain ⟨distinct, fresh⟩ := ih lawful
    have later : ∀ node ∈ graph.explore (graph.followAll first.advancers { met := met, queue := rest }),
        node ∈ rest ∨ node.id ∉ met := by
      intro node mem
      rcases fresh node mem with mem | new
      · exact grows.fresh node mem
      · exact Or.inr fun known => new (grows.met known)
    rw [explore_cons]
    refine ⟨List.nodup_cons.2 ⟨fun again => ?_, distinct⟩, fun node mem => ?_⟩
    · obtain ⟨node, mem, same⟩ := List.mem_map.1 again
      rcases later node mem with mem | new
      · exact (List.nodup_cons.1 h.distinct).1 (same ▸ List.mem_map_of_mem mem)
      · exact new (same ▸ h.met first List.mem_cons_self)
    · rcases List.mem_cons.1 mem with rfl | mem
      · exact Or.inl List.mem_cons_self
      · exact (later node mem).imp_left (List.mem_cons_of_mem _)

theorem lawful_start (node : Node) : Frontier.Lawful { met := [node.id], queue := [node] } :=
  ⟨by simp, by simp⟩

/-- **Each node is yielded once.** -/
theorem reachableFrom_distinct (graph : Orchestration) (start : NodeId) :
    ((graph.reachableFrom start).map Node.id).Nodup := by
  unfold reachableFrom
  split
  · exact List.nodup_nil
  · exact (explore_distinct (lawful_start _)).1

end StepFlow.Orchestration
