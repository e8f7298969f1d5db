/-
The order in which a search lists nodes.

A search lists the start and then the registered targets of the nodes that it lists, each name where it first occurs
(`listing`). That is all one has to know about the queue: of two nodes, the one listed earlier is a target of a node that
stands before every node with an advancer to the other (`listed_before`). Results:
- `seed_yields`: going through a search yields its list and ends;
- `exists_distance`: what is reached has a distance, the fewest advancers that lead to it;
- `reachableFrom_breadth_first`: a search is breadth first. It lists what is reached, each node once, the start first, nearer
  nodes before farther ones, and nodes discovered from the same node in the order of that node's advancers.
-/
import Mathlib.Order.Nat
import StepFlow.Proofs.Build.Record
import StepFlow.Proofs.Orchestration.Reached

namespace StepFlow

/-! ## First occurrences -/

section FirstOccurrences

variable {α β : Type}

/-- Without repetitions, elements stand in the order in which they first occur. -/
theorem pairwise_eraseDups [BEq α] [LawfulBEq α] (items : List α) :
    items.eraseDups.Pairwise fun earlier later =>
      ∃ before after, items = before ++ earlier :: after ∧ earlier ∉ before ∧ later ∉ before := by
  induction bound : items.length using Nat.strong_induction_on generalizing items with
  | _ length ih =>
    cases items with
    | nil => exact List.Pairwise.nil
    | cons first rest =>
      rw [List.eraseDups_cons]
      refine List.pairwise_cons.2 ⟨fun later _ => ⟨[], rest, rfl, by simp, by simp⟩, ?_⟩
      have shorter : (rest.filter fun item => !item == first).length < length := by
        have := List.length_filter_le (fun item => !item == first) rest
        simp only [List.length_cons] at bound
        omega
      refine (ih _ shorter _ rfl).imp_of_mem fun {earlier later} early late => ?_
      have other : ∀ item ∈ (rest.filter fun item => !item == first).eraseDups, item ≠ first := by
        intro item mem
        simpa using (List.mem_filter.1 (List.mem_eraseDups.1 mem)).2
      rintro ⟨before, after, split, fresh, free⟩
      obtain ⟨left, right, rfl, rfl, onward⟩ := List.filter_eq_append_iff.1 split
      obtain ⟨skipped, tail, rfl, dropped, -, -⟩ := List.filter_eq_cons_iff.1 onward
      -- what the filter has dropped before the earlier element are copies of the first one
      have absent : ∀ item, item ≠ first → item ∉ left.filter (fun item => !item == first) →
          item ∉ first :: (left ++ skipped) := by
        intro item differs out mem
        rcases List.mem_cons.1 mem with same | mem
        · exact differs same
        · rcases List.mem_append.1 mem with mem | mem
          · exact out (List.mem_filter.2 ⟨mem, by simpa using differs⟩)
          · exact dropped item mem (by simpa using differs)
      exact ⟨first :: (left ++ skipped), tail, by simp, absent earlier (other earlier early) fresh,
        absent later (other later late) free⟩

/-- Where an element of some joined lists comes from, with what stands before it. -/
theorem flatMap_split {items : List α} {f : α → List β} {before after : List β} {found : β}
    (h : items.flatMap f = before ++ found :: after) :
    ∃ left item right prior later, items = left ++ item :: right ∧ f item = prior ++ found :: later ∧
      before = left.flatMap f ++ prior := by
  induction items generalizing before with
  | nil => simp at h
  | cons first rest ih =>
    rw [List.flatMap_cons] at h
    rcases List.append_eq_append_iff.1 h with ⟨middle, rfl, onward⟩ | ⟨middle, whole, onward⟩
    · obtain ⟨left, item, right, prior, later, rfl, own, rfl⟩ := ih onward
      exact ⟨first :: left, item, right, prior, later, rfl, own, by simp⟩
    · cases middle with
      | nil =>
        obtain ⟨left, item, right, prior, later, rfl, own, empty⟩ := @ih [] onward.symm
        have whole : f first = before := by simpa using whole
        exact ⟨first :: left, item, right, prior, later, rfl, own, by
          rw [List.flatMap_cons, List.append_assoc, ← empty, List.append_nil, whole]⟩
      | cons head middle =>
        obtain ⟨rfl, rfl⟩ := List.cons.inj onward
        exact ⟨[], first, rest, before, middle, rfl, whole, by simp⟩

theorem mem_of_pair {items : List α} {earlier later : α} (before : [earlier, later].Sublist items) :
    earlier ∈ items ∧ later ∈ items := by
  simpa using before.subset

end FirstOccurrences

namespace Orchestration

variable {graph : Orchestration} {start : NodeId}

/-! ## Ways and distances -/

/-- a way from a start, of so many advancers through registered nodes -/
inductive Way (graph : Orchestration) (start : NodeId) : Nat → NodeId → Prop where
  | here : Way graph start 0 start
  | onward {length : Nat} {id : NodeId} {node : Node} {advancer : Advancer} : Way graph start length id →
      graph.node? id = some node → advancer ∈ node.advancers → graph.contains advancer.target = true →
      Way graph start (length + 1) advancer.target

/-- the length of the shortest ways to a name -/
structure Distance (graph : Orchestration) (start id : NodeId) (length : Nat) : Prop where
  way : graph.Way start length id
  least : ∀ other, graph.Way start other id → length ≤ other

theorem reached_iff_way {id : NodeId} : graph.Reached start id ↔ ∃ length, graph.Way start length id := by
  constructor
  · intro reached
    induction reached with
    | start => exact ⟨0, .here⟩
    | follow _ found mem target ih =>
      obtain ⟨length, way⟩ := ih
      exact ⟨length + 1, .onward way found mem target⟩
  · rintro ⟨length, way⟩
    induction way with
    | here => exact .start
    | onward _ found mem target ih => exact .follow ih found mem target

theorem exists_distance {id : NodeId} (reached : graph.Reached start id) : ∃ length, graph.Distance start id length := by
  classical
  have some := reached_iff_way.1 reached
  exact ⟨Nat.find some, Nat.find_spec some, fun other way => Nat.find_min' some way⟩

theorem Distance.eq {id : NodeId} {length other : Nat} (one : graph.Distance start id length)
    (two : graph.Distance start id other) : length = other :=
  Nat.le_antisymm (one.least other two.way) (two.least length one.way)

theorem Distance.of_zero {id : NodeId} (h : graph.Distance start id 0) : id = start := by
  cases h.way with
  | here => rfl

/-- The node before the end of a shortest way is one advancer nearer. -/
theorem Distance.of_succ {id : NodeId} {length : Nat} (h : graph.Distance start id (length + 1)) :
    ∃ before node advancer, graph.Distance start before length ∧ graph.node? before = some node ∧
      advancer ∈ node.advancers ∧ advancer.target = id ∧ graph.contains id = true := by
  obtain ⟨way, least⟩ := h
  cases way with
  | @onward _ before node advancer way found mem target =>
    refine ⟨before, node, advancer, ⟨way, fun other shorter => ?_⟩, found, mem, rfl, target⟩
    exact Nat.le_of_succ_le_succ (least (other + 1) (.onward shorter found mem target))

/-! ## The order of a search -/

def targets (graph : Orchestration) (advancers : List Advancer) : List NodeId :=
  (advancers.map Advancer.target).filter graph.contains

theorem mem_targets {advancers : List Advancer} {id : NodeId} :
    id ∈ graph.targets advancers ↔ (∃ advancer ∈ advancers, advancer.target = id) ∧ graph.contains id = true := by
  simp [targets]

theorem targets_cons_of_none {advancer : Advancer} (missing : graph.node? advancer.target = none)
    (rest : List Advancer) : graph.targets (advancer :: rest) = graph.targets rest := by
  simp [targets, contains, missing]

theorem targets_cons_of_some {advancer : Advancer} {node : Node} (found : graph.node? advancer.target = some node)
    (rest : List Advancer) : graph.targets (advancer :: rest) = node.id :: graph.targets rest := by
  simp [targets, contains, found, id_of_node? found]

/-- **What is queued**: the registered targets that had not been met, each where it first occurs. -/
theorem queue_followAll (advancers : List Advancer) (frontier : Frontier) :
    (graph.followAll advancers frontier).queue.map Node.id =
      frontier.queue.map Node.id ++ ((graph.targets advancers).removeAll frontier.met).eraseDups := by
  induction advancers generalizing frontier with
  | nil => simp [followAll, targets, List.removeAll]
  | cons advancer rest ih =>
    rw [followAll, List.foldl_cons]
    refine (ih (graph.follow frontier advancer)).trans ?_
    unfold follow
    cases found : graph.node? advancer.target with
    | none => rw [targets_cons_of_none found]
    | some node =>
      rw [targets_cons_of_some found]
      by_cases known : node.id ∈ frontier.met
      · simp [Frontier.meet, List.removeAll, known]
      · have kept : (node.id :: graph.targets rest).removeAll frontier.met =
            node.id :: (graph.targets rest).removeAll frontier.met := by simp [List.removeAll, known]
        have swapped : ((graph.targets rest).filter fun id => !id == node.id).removeAll frontier.met =
            ((graph.targets rest).removeAll frontier.met).filter fun id => !id == node.id := by
          simp only [List.removeAll, List.filter_filter, Bool.and_comm]
        rw [kept, List.eraseDups_cons]
        simp [Frontier.meet, known, List.removeAll_cons, swapped]

theorem met_followAll (advancers : List Advancer) (frontier : Frontier) (id : NodeId) :
    id ∈ (graph.followAll advancers frontier).met ↔ id ∈ frontier.met ∨ id ∈ graph.targets advancers := by
  induction advancers generalizing frontier with
  | nil => simp [followAll, targets]
  | cons advancer rest ih =>
    rw [followAll, List.foldl_cons]
    refine (ih (graph.follow frontier advancer)).trans ?_
    unfold follow
    cases found : graph.node? advancer.target with
    | none => rw [targets_cons_of_none found]
    | some node =>
      rw [targets_cons_of_some found, List.mem_cons]
      by_cases known : node.id ∈ frontier.met
      · have absorbed : id = node.id → id ∈ frontier.met := fun same => same ▸ known
        simp only [Frontier.meet, known, if_true]
        tauto
      · simp only [Frontier.meet, known, if_false, List.mem_cons]
        tauto

/-- **The order of a search.** What is queued comes first. The rest are the registered targets of the visited nodes that
had not been met, each where it first occurs. -/
theorem explore_order (frontier : Frontier) :
    (graph.explore frontier).map Node.id = frontier.queue.map Node.id ++
      (((graph.explore frontier).flatMap fun node => graph.targets node.advancers).removeAll frontier.met).eraseDups := by
  induction frontier using frontier_induction graph with
  | done met => simp [explore_nil, List.removeAll]
  | visit met node rest ih =>
    rw [explore_cons, List.map_cons, ih, queue_followAll, List.flatMap_cons]
    generalize (graph.explore _).flatMap (fun node => graph.targets node.advancers) = others
    -- what the other visits meet is new if it is neither among the names met so far nor among this node's own targets
    have fresh : others.removeAll (graph.followAll node.advancers { met := met, queue := rest }).met =
        (others.removeAll met).removeAll ((graph.targets node.advancers).removeAll met) := by
      simp only [List.removeAll, List.filter_filter]
      refine List.filter_congr fun id _ => ?_
      rw [Bool.eq_iff_iff]
      simp [met_followAll]
      tauto
    have split : (graph.targets node.advancers ++ others).removeAll met =
        (graph.targets node.advancers).removeAll met ++ others.removeAll met := List.filter_append ..
    rw [fresh, split, List.eraseDups_append]
    simp

/-- **A search lists the start and then the registered targets of the nodes that it lists, each where it first occurs.** -/
theorem listing (registered : graph.contains start = true) :
    (graph.reachableFrom start).map Node.id =
      (start :: (graph.reachableFrom start).flatMap fun node => graph.targets node.advancers).eraseDups := by
  obtain ⟨first, found⟩ := contains_iff.1 registered
  simp only [reachableFrom, found]
  rw [explore_order, List.eraseDups_cons, List.removeAll_cons]
  simp [List.removeAll, id_of_node? found]

theorem reachableFrom_of_unregistered (missing : graph.contains start = false) : graph.reachableFrom start = [] := by
  have none : graph.node? start = none := by simpa [contains] using missing
  rw [reachableFrom, none]

theorem registered_of_mem {node : Node} (mem : node ∈ graph.reachableFrom start) : graph.contains start = true := by
  by_contra missing
  rw [reachableFrom_of_unregistered (by simpa using missing)] at mem
  exact absurd mem List.not_mem_nil

theorem reached_of_mem {node : Node} (mem : node ∈ graph.reachableFrom start) :
    graph.Reached start node.id ∧ graph.node? node.id = some node :=
  (mem_reachableFrom_iff (registered_of_mem mem)).1 mem

theorem head?_reachableFrom {first : Node} (found : graph.node? start = some first) :
    (graph.reachableFrom start).head? = some first := by
  simp only [reachableFrom, found]
  rw [explore_cons]
  rfl

theorem ne_start_of_after {earlier later : Node} (before : [earlier, later].Sublist (graph.reachableFrom start)) :
    later.id ≠ start := by
  obtain ⟨first, found⟩ := contains_iff.1 (registered_of_mem (mem_of_pair before).1)
  obtain ⟨rest, order⟩ := List.head?_eq_some_iff.1 (head?_reachableFrom found)
  have distinct := graph.reachableFrom_distinct start
  rw [order] at before distinct
  have behind : later ∈ rest := before.tail.subset List.mem_cons_self
  intro same
  refine (List.nodup_cons.1 distinct).1 ?_
  rw [id_of_node? found, ← same]
  exact List.mem_map_of_mem behind

/-- **What a search has listed before.** Of two nodes in the order of a search, the later one is a target of no node before
the one that leads to the earlier one, nor does it come first among the targets of that node. -/
theorem listed_before {earlier later : Node} (before : [earlier, later].Sublist (graph.reachableFrom start))
    (moved : earlier.id ≠ start) :
    ∃ left source right prior after, graph.reachableFrom start = left ++ source :: right ∧
      graph.targets source.advancers = prior ++ earlier.id :: after ∧
      (∀ node ∈ left, earlier.id ∉ graph.targets node.advancers ∧ later.id ∉ graph.targets node.advancers) ∧
      earlier.id ∉ prior ∧ later.id ∉ prior := by
  have registered := registered_of_mem (mem_of_pair before).1
  have pair := List.pairwise_iff_forall_sublist.1 (pairwise_eraseDups _) (listing registered ▸ before.map Node.id)
  obtain ⟨prior, after, split, fresh, free⟩ := pair
  cases prior with
  | nil => exact absurd (List.cons.inj split).1 (Ne.symm moved)
  | cons first prior =>
    obtain ⟨left, source, right, own, rest, whole, targets, rfl⟩ := flatMap_split (List.cons.inj split).2
    simp only [List.mem_cons, List.mem_append, List.mem_flatMap, not_or, not_exists, not_and] at fresh free
    exact ⟨left, source, right, own, rest, whole, targets, fun node mem => ⟨fresh.2.1 node mem, free.2.1 node mem⟩,
      fresh.2.2, free.2.2⟩

/-! ## Nearer nodes first -/

theorem Way.targets {node : Node} {length : Nat} {id : NodeId} (way : graph.Way start length node.id)
    (found : graph.node? node.id = some node) (mem : id ∈ graph.targets node.advancers) :
    graph.Way start (length + 1) id := by
  obtain ⟨⟨advancer, attached, rfl⟩, there⟩ := mem_targets.1 mem
  exact .onward way found attached there

/-- **Nearer nodes come first.** The node that leads to the earlier of two nodes stands no later than the one before the
end of a shortest way to the later one. -/
theorem distance_le {earlier later : Node} {near far : Nat}
    (before : [earlier, later].Sublist (graph.reachableFrom start)) (close : graph.Distance start earlier.id near)
    (distant : graph.Distance start later.id far) : near ≤ far := by
  induction far generalizing earlier later near with
  | zero => exact absurd distant.of_zero (ne_start_of_after before)
  | succ far ih =>
    by_cases moved : earlier.id = start
    · exact Nat.le_trans (close.least 0 (moved ▸ .here)) (Nat.zero_le _)
    obtain ⟨left, source, right, prior, after, order, targets, skipped, -, -⟩ := listed_before before moved
    obtain ⟨name, node, advancer, nearer, found, mem, same, there⟩ := distant.of_succ
    have leads : later.id ∈ graph.targets node.advancers := mem_targets.2 ⟨⟨advancer, mem, same⟩, there⟩
    have registered := registered_of_mem (mem_of_pair before).1
    have named : node.id = name := id_of_node? found
    have listed : node ∈ graph.reachableFrom start :=
      (mem_reachableFrom_iff registered).2 ⟨named ▸ reached_iff_way.2 ⟨far, nearer.way⟩, node?_id found⟩
    have sourced : source ∈ graph.reachableFrom start := order ▸ List.mem_append_right _ List.mem_cons_self
    obtain ⟨length, distance⟩ := exists_distance (reached_of_mem sourced).1
    have bound : length ≤ far := by
      rw [order] at listed
      rcases List.mem_append.1 listed with mem | mem
      · exact absurd leads (skipped node mem).2
      rcases List.mem_cons.1 mem with rfl | mem
      · exact distance.least far (named ▸ nearer.way)
      · refine ih ?_ distance (named ▸ nearer)
        rw [order]
        exact ((List.singleton_sublist.2 mem).cons_cons source).trans (List.sublist_append_right left _)
    have led : earlier.id ∈ graph.targets source.advancers := by simp [targets]
    exact Nat.le_trans (close.least _ (distance.way.targets (reached_of_mem sourced).2 led)) (Nat.succ_le_succ bound)

/-! ## The node that discovers -/

def discoverer (order : List Node) (id : NodeId) : Option Node :=
  order.find? fun node => node.advancers.any fun advancer => advancer.target = id

theorem discoverer_eq {left right : List Node} {source : Node} {id : NodeId} (registered : graph.contains id = true)
    (skipped : ∀ node ∈ left, id ∉ graph.targets node.advancers) (led : id ∈ graph.targets source.advancers) :
    discoverer (left ++ source :: right) id = some source := by
  simp only [mem_targets, registered, and_true] at skipped led
  exact List.find?_eq_some_iff_append.2 ⟨by simpa using led, left, right, rfl, fun node mem => by
    simpa using skipped node mem⟩

/-- Of two names, the one that comes first among the registered targets has the first advancer. -/
theorem findIdx_lt_of_targets {advancers : List Advancer} {prior after : List NodeId} {one two : NodeId}
    (split : graph.targets advancers = prior ++ one :: after) (different : one ≠ two)
    (registered : graph.contains one = true ∧ graph.contains two = true) (free : one ∉ prior ∧ two ∉ prior) :
    advancers.findIdx (fun advancer => advancer.target = one) <
      advancers.findIdx (fun advancer => advancer.target = two) := by
  obtain ⟨left, right, names, rfl, onward⟩ := List.filter_eq_append_iff.1 split
  obtain ⟨skipped, tail, rfl, dropped, -, -⟩ := List.filter_eq_cons_iff.1 onward
  obtain ⟨before, later, rfl, rfl, laterNames⟩ := List.map_eq_append_iff.1 names
  obtain ⟨between, found, rfl, rfl, foundNames⟩ := List.map_eq_append_iff.1 laterNames
  obtain ⟨advancer, rest, rfl, rfl, -⟩ := List.map_eq_cons_iff.1 foundNames
  have passed : ∀ id, graph.contains id = true → id ∉ (before.map Advancer.target).filter graph.contains →
      ∀ advancer ∈ before ++ between, advancer.target ≠ id := by
    intro id there out advancer mem same
    rcases List.mem_append.1 mem with mem | mem
    · exact out (List.mem_filter.2 ⟨same ▸ List.mem_map_of_mem mem, there⟩)
    · exact dropped id (same ▸ List.mem_map_of_mem mem) there
  have whole : ∀ id, graph.contains id = true → id ∉ (before.map Advancer.target).filter graph.contains →
      (before ++ between).findIdx (fun advancer => advancer.target = id) = (before ++ between).length := by
    intro id there out
    refine List.findIdx_eq_length_of_false fun advancer mem => ?_
    simpa using passed id there out advancer mem
  have one := whole _ registered.1 free.1
  have two := whole _ registered.2 free.2
  rw [← List.append_assoc]
  generalize before ++ between = front at one two
  rw [List.findIdx_append, List.findIdx_append, one, two]
  simp [List.findIdx_cons, different]

/-- **Nodes discovered from the same node come in the order of its advancers.** -/
theorem findIdx_lt {earlier later source : Node} (before : [earlier, later].Sublist (graph.reachableFrom start))
    (moved : earlier.id ≠ start) (one : discoverer (graph.reachableFrom start) earlier.id = some source)
    (two : discoverer (graph.reachableFrom start) later.id = some source) :
    source.advancers.findIdx (fun advancer => advancer.target = earlier.id) <
      source.advancers.findIdx (fun advancer => advancer.target = later.id) := by
  obtain ⟨left, first, right, prior, after, order, targets, skipped, fresh, free⟩ := listed_before before moved
  have early := reached_of_mem (mem_of_pair before).1
  have late := reached_of_mem (mem_of_pair before).2
  have there : graph.contains earlier.id = true ∧ graph.contains later.id = true :=
    ⟨contains_iff.2 ⟨_, early.2⟩, contains_iff.2 ⟨_, late.2⟩⟩
  have found : discoverer (graph.reachableFrom start) earlier.id = some first := by
    rw [order]
    exact discoverer_eq there.1 (fun node mem => (skipped node mem).1) (by simp [targets])
  obtain rfl : first = source := Option.some.inj (found.symm.trans one)
  have distinct := (before.map Node.id).nodup (graph.reachableFrom_distinct start)
  refine findIdx_lt_of_targets targets ?_ there ⟨fresh, free⟩
  simpa using distinct

/-! ## The search as a whole -/

/-- Going through a search yields the nodes of its queue and those met behind them, and ends. -/
theorem yields_explore (frontier : Frontier) : Yields graph.next frontier (graph.explore frontier) := by
  induction frontier using frontier_induction graph with
  | done met =>
    rw [explore_nil]
    exact .done rfl
  | visit met node rest ih =>
    rw [explore_cons]
    exact .next rfl ih

/-- **Going through a search ends**, whatever circles the graph has, with nothing more to come. -/
theorem seed_yields (graph : Orchestration) (start : NodeId) :
    Yields graph.next (graph.seed start) (graph.reachableFrom start) := by
  unfold seed reachableFrom
  cases graph.node? start with
  | none => exact .done rfl
  | some node => exact yields_explore _

/-- what is breadth first about an order of the nodes that a start leads to -/
structure BreadthFirst (graph : Orchestration) (start : NodeId) (order : List Node) : Prop where
  /-- a start that is not registered leads nowhere -/
  nowhere : graph.contains start = false → order = []
  /-- what is listed is registered and reached, and all of that is listed -/
  listed : graph.contains start = true →
    ∀ node, node ∈ order ↔ graph.Reached start node.id ∧ graph.node? node.id = some node
  once : (order.map Node.id).Nodup
  first : ∀ node, graph.node? start = some node → order.head? = some node
  nearer : order.Pairwise fun earlier later =>
    ∃ near far, graph.Distance start earlier.id near ∧ graph.Distance start later.id far ∧ near ≤ far
  /-- nodes discovered from the same node come in the order of its advancers to them -/
  siblings : order.Pairwise fun earlier later => ∀ source, earlier.id ≠ start →
    discoverer order earlier.id = some source → discoverer order later.id = some source →
    source.advancers.findIdx (fun advancer => advancer.target = earlier.id) <
      source.advancers.findIdx (fun advancer => advancer.target = later.id)

/-- **A search is breadth first.** Going through it ends. It lists nothing if the start is not registered, and else exactly
the registered nodes that the start leads to, each once: the start first, nearer nodes before farther ones, and nodes that are
discovered from the same node in the order of that node's advancers. -/
theorem reachableFrom_breadth_first (graph : Orchestration) (start : NodeId) :
    Yields graph.next (graph.seed start) (graph.reachableFrom start) ∧
      BreadthFirst graph start (graph.reachableFrom start) := by
  refine ⟨graph.seed_yields start, ?_⟩
  refine { nowhere := reachableFrom_of_unregistered, listed := fun registered _ => mem_reachableFrom_iff registered,
           once := graph.reachableFrom_distinct start, first := fun _ => head?_reachableFrom,
           nearer := ?_, siblings := ?_ }
  · refine List.pairwise_iff_forall_sublist.2 fun {earlier later} before => ?_
    have early := reached_of_mem (mem_of_pair before).1
    have late := reached_of_mem (mem_of_pair before).2
    obtain ⟨near, close⟩ := exists_distance early.1
    obtain ⟨far, distant⟩ := exists_distance late.1
    exact ⟨near, far, close, distant, distance_le before close distant⟩
  · refine List.pairwise_iff_forall_sublist.2 fun before source moved one two => ?_
    exact findIdx_lt before moved one two

end Orchestration

end StepFlow
