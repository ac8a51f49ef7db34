import ContikiMaster.Lib.Pointer
import ContikiMaster.Scheduler.Dijkstra
import Mathlib.Data.List.Sort

/-!
# The time sources of the nodes

`get_timesource_for_nodes` of `scheduling_contiki.py`: a scheduled node takes the next hop of a
shortest path among the scheduled nodes, where the search for one succeeds, and every other node
the next hop of a shortest path in the whole network.
-/

namespace ContikiMaster.Scheduler

open Lib Function List Option

/-- The fields of `Contiki_schedule` that the time sources depend on; of `node_schedule` only the
keys, and nothing before it exists. -/
structure ContikiSchedule where
  graph : CostGraph
  nodeIds : List ℕ
  networkTimeSource : ℕ
  nodeSchedule : Option (List ℕ)

/-- `timesource_graph` for the scheduled nodes: a sender is a key if it has a receiver. -/
def participatingGraph (graph : CostGraph) (participatingNodes : List ℕ) : CostGraph :=
  participatingNodes.filterMap fun sender ↦
    (graph.lookup sender).bind fun receivers ↦
      let kept := participatingNodes.filterMap fun receiver ↦
        (receivers.lookup receiver).map fun cost ↦ (receiver, cost ^ 2)
      if kept.isEmpty then none else some (sender, kept)

/-- `timesource_graph` for all nodes. -/
def squaredGraph (graph : CostGraph) : CostGraph :=
  graph.map fun entry ↦ (entry.1, entry.2.map fun receiver ↦ (receiver.1, receiver.2 ^ 2))

/-- `path[1]` of the shortest path to the time source of the network. -/
def nextHop (graph : CostGraph) (networkTimeSource node : ℕ) : Except PathError ℕ := do
  let (_, path) ← shortestPath graph node networkTimeSource
  match path[1]? with
  | none => .error .indexError
  | some hop => return hop

/-- `self.timesource` and `remaining_nodes`. -/
structure Sources where
  timesource : ℕ → Option ℕ
  remainingNodes : List ℕ

/-- One scheduled node; whatever is raised, the node remains. -/
def addScheduledSource (graph : CostGraph) (networkTimeSource : ℕ) (x : Sources) (node : ℕ) :
    Sources :=
  if node = networkTimeSource then x
  else
    match nextHop graph networkTimeSource node with
    | .ok hop => { x with timesource := update x.timesource node (some hop) }
    | .error _ => { x with remainingNodes := x.remainingNodes ++ [node] }

def addRemainingSource (graph : CostGraph) (networkTimeSource : ℕ) (timesource : ℕ → Option ℕ)
    (node : ℕ) : Except PathError (ℕ → Option ℕ) :=
  if node = networkTimeSource then .ok timesource
  else do
    let hop ← nextHop graph networkTimeSource node
    return update timesource node (some hop)

namespace ContikiSchedule

/-- The scheduled nodes, if the time source of the network is one of them. -/
def participating (s : ContikiSchedule) : Option (List ℕ) :=
  s.nodeSchedule.filter fun nodes ↦ decide (s.networkTimeSource ∈ nodes)

def scheduledSources (s : ContikiSchedule) : Sources :=
  match s.participating with
  | some nodes =>
    nodes.foldl (addScheduledSource (participatingGraph s.graph nodes) s.networkTimeSource)
      ⟨fun _ ↦ none, []⟩
  -- `remaining_nodes` is `node_ids` itself
  | none => ⟨fun _ ↦ none, s.nodeIds⟩

/-- `remaining_nodes` after it has been completed and sorted. -/
def remainingNodes (s : ContikiSchedule) : List ℕ :=
  let remainingNodes := s.scheduledSources.remainingNodes
  let participatingNodes := (s.nodeSchedule.getD []).filter fun node ↦
    decide (node ∉ remainingNodes)
  (remainingNodes ++ (s.nodeIds.filter fun node ↦ decide (node ∉ participatingNodes)).dedup)
    |>.insertionSort (· ≤ ·)

/-- `get_timesource_for_nodes`: the time sources, and `node_ids`, which is extended where it is
`remaining_nodes`. -/
def getTimesourceForNodes (s : ContikiSchedule) :
    Except PathError ((ℕ → Option ℕ) × List ℕ) := do
  let timesource ← s.remainingNodes.foldlM
    (addRemainingSource (squaredGraph s.graph) s.networkTimeSource) s.scheduledSources.timesource
  return (timesource, if s.participating.isSome then s.nodeIds else s.remainingNodes)

end ContikiSchedule

section Graphs

variable {graph : CostGraph} {participatingNodes : List ℕ} {v w node root hop : ℕ} {c d : ℚ}

theorem mem_of_lookup {entries : List (ℕ × ℚ)} (hlookup : entries.lookup w = some c) :
    (w, c) ∈ entries := by
  obtain ⟨front, back, rfl, -⟩ := lookup_eq_some_iff.mp hlookup
  exact mem_append_right _ mem_cons_self

theorem edge_participatingGraph (hedge : (participatingGraph graph participatingNodes).Edge v w c) :
    w ∈ participatingNodes ∧ ∃ cost, graph.Edge v w cost ∧ c = cost ^ 2 := by
  obtain ⟨kept, hlookup, hmem⟩ := hedge
  obtain ⟨front, back, hentries, -⟩ := lookup_eq_some_iff.mp hlookup
  have hentry : (v, kept) ∈ participatingGraph graph participatingNodes := by
    rw [hentries]
    exact mem_append_right _ mem_cons_self
  obtain ⟨sender, -, hsome⟩ := mem_filterMap.mp hentry
  obtain ⟨receivers, hreceivers, hkept⟩ := bind_eq_some_iff.mp hsome
  dsimp only at hkept
  split at hkept
  · cases hkept
  · cases hkept
    obtain ⟨receiver, hreceiver, hcost⟩ := mem_filterMap.mp hmem
    obtain ⟨cost, hlookup_cost, hpair⟩ := map_eq_some_iff.mp hcost
    cases hpair
    exact ⟨hreceiver, cost, ⟨receivers, hreceivers, mem_of_lookup hlookup_cost⟩, rfl⟩

theorem lookup_squaredGraph : (squaredGraph graph).lookup v =
    (graph.lookup v).map fun receivers ↦ receivers.map fun receiver ↦
      (receiver.1, receiver.2 ^ 2) := by
  induction graph with
  | nil => rfl
  | cons entry graph ih =>
    unfold squaredGraph at ih ⊢
    rw [map_cons, lookup_cons, lookup_cons, ih]
    split
    · rfl
    · rfl

theorem edge_squaredGraph_iff :
    (squaredGraph graph).Edge v w c ↔ ∃ cost, graph.Edge v w cost ∧ c = cost ^ 2 := by
  unfold CostGraph.Edge
  rw [lookup_squaredGraph]
  constructor
  · rintro ⟨squares, hlookup, hmem⟩
    obtain ⟨receivers, hreceivers, rfl⟩ := map_eq_some_iff.mp hlookup
    obtain ⟨receiver, hreceiver, hpair⟩ := mem_map.mp hmem
    cases hpair
    exact ⟨receiver.2, ⟨receivers, hreceivers, hreceiver⟩, rfl⟩
  · rintro ⟨cost, ⟨receivers, hreceivers, hreceiver⟩, rfl⟩
    refine ⟨_, by rw [hreceivers]; rfl, mem_map.mpr ⟨_, hreceiver, rfl⟩⟩

theorem positive_participatingGraph (hpos : graph.Positive) :
    (participatingGraph graph participatingNodes).Positive := by
  intro v w c hedge
  obtain ⟨-, cost, hcost, rfl⟩ := edge_participatingGraph hedge
  exact pow_pos (hpos v w cost hcost) 2

theorem positive_squaredGraph (hpos : graph.Positive) : (squaredGraph graph).Positive := by
  intro v w c hedge
  obtain ⟨cost, hcost, rfl⟩ := edge_squaredGraph_iff.mp hedge
  exact pow_pos (hpos v w cost hcost) 2

theorem IsShortest.split {path : List ℕ} (hshortest : IsShortest graph node root d path)
    (hne : node ≠ root) : ∃ hop rest c d', path = node :: hop :: rest ∧ graph.Edge node hop c ∧
      IsDist graph.Edge hop root d' ∧ d = c + d' := by
  obtain ⟨halong, hfirst, hlast, hleast⟩ := hshortest
  cases halong with
  | single v => exact absurd ((some.inj hfirst).symm.trans (some.inj hlast)) hne
  | @cons u hop rest c d' hedge hrest =>
    obtain rfl := some.inj hfirst
    rw [getLast?_cons_cons] at hlast
    exact ⟨hop, rest, c, d', rfl, hedge, hleast.rest hedge (hrest.pathCost rfl hlast), rfl⟩

theorem nextHop_eq_ok (hpos : graph.Positive) (hne : node ≠ root)
    (hcall : nextHop graph root node = .ok hop) :
    ∃ d path c d', shortestPath graph node root = .ok (d, path) ∧ graph.Edge node hop c ∧
      IsDist graph.Edge hop root d' ∧ d = c + d' := by
  obtain ⟨⟨d, path⟩, hpath, hrest⟩ := bind_eq_ok hcall
  obtain ⟨hop', rest, c, d', rfl, hedge, hdist, hcost⟩ :=
    (shortestPath_eq_ok hpos hpath).1.split hne
  obtain rfl : hop' = hop := Except.ok.inj hrest
  exact ⟨d, _, c, d', hpath, hedge, hdist, hcost⟩

theorem exists_nextHop {path : List ℕ} (hpos : graph.Positive) (hne : node ≠ root)
    (hcall : shortestPath graph node root = .ok (d, path)) :
    ∃ hop, nextHop graph root node = .ok hop := by
  obtain ⟨hop, rest, c, d', rfl, -⟩ := (shortestPath_eq_ok hpos hcall).1.split hne
  refine ⟨hop, ?_⟩
  unfold nextHop
  rw [hcall]
  rfl

theorem exists_nextHop_of_nextHop (hpos : graph.Positive) (hne : node ≠ root)
    (hcall : nextHop graph root node = .ok hop) (hhop : hop ≠ root) :
    ∃ hop', nextHop graph root hop = .ok hop' := by
  obtain ⟨d, path, c, d', hpath, hedge, hdist, rfl⟩ := nextHop_eq_ok hpos hne hcall
  obtain ⟨-, hbefore⟩ := shortestPath_eq_ok hpos hpath
  have hrest : ∀ v dv, PathCost graph.Edge hop v dv → v ≠ root →
      (∀ d, PathCost graph.Edge hop root d → toLex (dv, v) < toLex (d, root)) → graph.Has v := by
    intro v dv hv _ hlt
    apply hbefore v (c + dv) (hv.cons hedge)
    have hfirst := hlt d' hdist.1
    rw [Prod.Lex.toLex_lt_toLex] at hfirst ⊢
    rcases hfirst with hless | ⟨hsame, hid⟩
    · exact Or.inl (add_lt_add_right hless c)
    · exact Or.inr ⟨congrArg (c + ·) hsame, hid⟩
  obtain ⟨d'', path', hpath'⟩ := exists_shortestPath hpos hdist.1 hrest
  exact exists_nextHop hpos hhop hpath'

def sourceDistance (graph : CostGraph) (root node : ℕ) : ℚ :=
  match shortestPath graph node root with
  | .ok (d, _) => d
  | .error _ => 0

theorem sourceDistance_lt {hop' : ℕ} (hpos : graph.Positive) (hne : node ≠ root)
    (hcall : nextHop graph root node = .ok hop) (hhop : hop ≠ root)
    (hnext : nextHop graph root hop = .ok hop') :
    sourceDistance graph root hop < sourceDistance graph root node := by
  obtain ⟨d, path, c, d', hpath, hedge, hdist, rfl⟩ := nextHop_eq_ok hpos hne hcall
  obtain ⟨e, path', -, -, hpath', -⟩ := nextHop_eq_ok hpos hhop hnext
  have hsame : e = d' := (shortestPath_eq_ok hpos hpath').1.least.unique hdist
  unfold sourceDistance
  rw [hpath, hpath']
  dsimp only
  rw [hsame]
  exact lt_add_of_pos_left d' (hpos _ _ _ hedge)

end Graphs

section Sources

variable {graph : CostGraph} {root node hop : ℕ} {nodes : List ℕ}

/-- The scheduled nodes with a next hop have it as time source, the others remain. -/
structure Sources.Settled (graph : CostGraph) (root : ℕ) (nodes : List ℕ) (x : Sources) : Prop where
  timesource : ∀ node hop, x.timesource node = some hop ↔
    node ∈ nodes ∧ node ≠ root ∧ nextHop graph root node = .ok hop
  remaining : ∀ node, node ∈ x.remainingNodes ↔
    node ∈ nodes ∧ node ≠ root ∧ ∀ hop, nextHop graph root node ≠ .ok hop

theorem mem_snoc_iff_of_ne {last : ℕ} (hne : node ≠ last) :
    node ∈ nodes ++ [last] ↔ node ∈ nodes := by
  rw [mem_append, mem_singleton, or_iff_left hne]

theorem Sources.Settled.add {x : Sources} {last : ℕ} (hx : x.Settled graph root nodes) :
    (addScheduledSource graph root x last).Settled graph root (nodes ++ [last]) := by
  unfold addScheduledSource
  by_cases hroot : last = root
  · rw [if_pos hroot]
    have hmem : ∀ node, node ≠ root → (node ∈ nodes ++ [last] ↔ node ∈ nodes) :=
      fun node hne ↦ mem_snoc_iff_of_ne (hroot ▸ hne)
    constructor
    · intro node hop
      rw [hx.timesource]
      exact ⟨fun ⟨hn, hne, hcall⟩ ↦ ⟨(hmem node hne).mpr hn, hne, hcall⟩,
        fun ⟨hn, hne, hcall⟩ ↦ ⟨(hmem node hne).mp hn, hne, hcall⟩⟩
    · intro node
      rw [hx.remaining]
      exact ⟨fun ⟨hn, hne, hcall⟩ ↦ ⟨(hmem node hne).mpr hn, hne, hcall⟩,
        fun ⟨hn, hne, hcall⟩ ↦ ⟨(hmem node hne).mp hn, hne, hcall⟩⟩
  rw [if_neg hroot]
  have hlast : last ∈ nodes ++ [last] := mem_append_right _ mem_cons_self
  cases hnext : nextHop graph root last with
  | ok next =>
    constructor
    · intro node hop
      dsimp only
      by_cases hsame : node = last
      · subst hsame
        rw [update_self, some.injEq, hnext, Except.ok.injEq, and_iff_right hlast,
          and_iff_right hroot]
      · rw [update_of_ne hsame, hx.timesource, mem_snoc_iff_of_ne hsame]
    · intro node
      dsimp only
      rw [hx.remaining]
      by_cases hsame : node = last
      · subst hsame
        exact iff_of_false (fun hnode ↦ hnode.2.2 next hnext) fun hnode ↦ hnode.2.2 next hnext
      · rw [mem_snoc_iff_of_ne hsame]
  | error fault =>
    have hfails : ∀ hop, nextHop graph root last ≠ .ok hop := by
      intro hop hok
      rw [hnext] at hok
      cases hok
    constructor
    · intro node hop
      dsimp only
      rw [hx.timesource]
      by_cases hsame : node = last
      · subst hsame
        exact iff_of_false (fun hnode ↦ hfails hop hnode.2.2) fun hnode ↦ hfails hop hnode.2.2
      · rw [mem_snoc_iff_of_ne hsame]
    · intro node
      dsimp only
      by_cases hsame : node = last
      · subst hsame
        exact iff_of_true (mem_append_right _ mem_cons_self) ⟨hlast, hroot, hfails⟩
      · rw [mem_snoc_iff_of_ne hsame, mem_snoc_iff_of_ne hsame, hx.remaining]

theorem settled_foldl :
    (nodes.foldl (addScheduledSource graph root) ⟨fun _ ↦ none, []⟩).Settled graph root nodes := by
  induction nodes using reverseRecOn with
  | nil =>
    constructor
    · exact fun node hop ↦ iff_of_false (fun heq ↦ nomatch heq) fun hall ↦ nomatch hall.1
    · exact fun node ↦ iff_of_false (fun hmem ↦ nomatch hmem) fun hall ↦ nomatch hall.1
  | append_singleton nodes last ih =>
    rw [foldl_append]
    exact ih.add

theorem addRemainingSource_foldlM (timesource : ℕ → Option ℕ)
    (hall : ∀ node ∈ nodes, node ≠ root → ∃ hop, nextHop graph root node = .ok hop) :
    ∃ after, nodes.foldlM (addRemainingSource graph root) timesource = .ok after ∧
      ∀ node, (node ∈ nodes → node ≠ root → ∃ hop, nextHop graph root node = .ok hop ∧
          after node = some hop) ∧ (node ∉ nodes ∨ node = root → after node = timesource node) := by
  induction nodes using reverseRecOn with
  | nil => exact ⟨timesource, rfl, fun node ↦ ⟨fun hmem ↦ (nomatch hmem), fun _ ↦ rfl⟩⟩
  | append_singleton nodes last ih =>
    obtain ⟨before, hfirst, hbefore⟩ := ih fun node hnode ↦ hall node (mem_append_left _ hnode)
    rw [foldlM_append, hfirst, ok_bind, foldlM_cons, addRemainingSource]
    by_cases hroot : last = root
    · rw [if_pos hroot]
      refine ⟨before, rfl, fun node ↦ ⟨fun hmem hne ↦ ?_, fun hnot ↦ ?_⟩⟩
      · exact (hbefore node).1 ((mem_snoc_iff_of_ne (hroot ▸ hne)).mp hmem) hne
      · apply (hbefore node).2
        exact hnot.imp_left fun hnot hmem ↦ hnot (mem_append_left _ hmem)
    · rw [if_neg hroot]
      obtain ⟨next, hnext⟩ := hall last (mem_append_right _ mem_cons_self) hroot
      rw [hnext]
      refine ⟨update before last (some next), rfl, fun node ↦ ?_⟩
      by_cases hsame : node = last
      · subst hsame
        rw [update_self]
        refine ⟨fun _ _ ↦ ⟨next, hnext, rfl⟩, fun hnot ↦ ?_⟩
        exact absurd hnot (not_or.mpr
          ⟨not_not.mpr (mem_append_right _ mem_cons_self), hroot⟩)
      · rw [update_of_ne hsame, mem_snoc_iff_of_ne hsame]
        exact hbefore node

end Sources

/-! ## The tree -/

namespace ContikiSchedule

variable {s : ContikiSchedule} {node hop : ℕ} {nodes : List ℕ}

/-- All costs are positive, the graph connects the nodes of the network, the scheduled nodes are
nodes of the network, and from every node a path leads to the time source. -/
structure Connected (s : ContikiSchedule) : Prop where
  positive : s.graph.Positive
  receivers : ∀ v w c, s.graph.Edge v w c → w ∈ s.nodeIds
  scheduled : ∀ nodes, s.nodeSchedule = some nodes → ∀ v ∈ nodes, v ∈ s.nodeIds
  reachable : ∀ v ∈ s.nodeIds, ∃ d, PathCost s.graph.Edge v s.networkTimeSource d

/-- The next hop of a node among the scheduled nodes, where the search for it succeeds. -/
def ScheduledHop (s : ContikiSchedule) (node hop : ℕ) : Prop :=
  ∃ nodes, s.participating = some nodes ∧ node ∈ nodes ∧ node ≠ s.networkTimeSource ∧
    nextHop (participatingGraph s.graph nodes) s.networkTimeSource node = .ok hop

theorem scheduledSources_timesource_iff :
    s.scheduledSources.timesource node = some hop ↔ s.ScheduledHop node hop := by
  unfold scheduledSources ScheduledHop
  cases hnodes : s.participating with
  | none => exact iff_of_false (fun heq ↦ nomatch heq) fun ⟨nodes, hnone, _⟩ ↦ nomatch hnone
  | some nodes =>
    dsimp only
    rw [settled_foldl.timesource]
    constructor
    · exact fun hall ↦ ⟨nodes, rfl, hall⟩
    · rintro ⟨nodes', hsame, hall⟩
      rwa [← some.inj hsame] at hall

theorem nodeSchedule_of_participating (hnodes : s.participating = some nodes) :
    s.nodeSchedule = some nodes :=
  (filter_eq_some_iff.mp hnodes).1

theorem mem_remainingNodes : node ∈ s.remainingNodes ↔ node ∈ s.scheduledSources.remainingNodes ∨
      node ∈ s.nodeIds ∧ (node ∈ s.nodeSchedule.getD [] →
        node ∈ s.scheduledSources.remainingNodes) := by
  unfold remainingNodes
  rw [mem_insertionSort, mem_append, mem_dedup, mem_filter]
  simp only [mem_filter, decide_eq_true_eq, not_and, not_not]

theorem mem_remainingNodes_iff (hnode : node ∈ s.nodeIds) (hne : node ≠ s.networkTimeSource) :
    node ∈ s.remainingNodes ↔ ∀ hop, ¬ s.ScheduledHop node hop := by
  rw [mem_remainingNodes, and_iff_right hnode]
  unfold scheduledSources ScheduledHop
  cases hnodes : s.participating with
  | none => exact iff_of_true (Or.inl hnode) fun hop ⟨nodes, hnone, _⟩ ↦ nomatch hnone
  | some nodes =>
    dsimp only
    rw [nodeSchedule_of_participating hnodes, getD_some, settled_foldl.remaining]
    constructor
    · rintro hremains hop ⟨nodes', hsame, hmem, -, hcall⟩
      obtain rfl := some.inj hsame
      rcases hremains with ⟨-, -, hfails⟩ | hremains
      · exact hfails hop hcall
      · exact (hremains hmem).2.2 hop hcall
    · intro hnone
      right
      intro hmem
      exact ⟨hmem, hne, fun hop hcall ↦ hnone hop ⟨nodes, rfl, hmem, hne, hcall⟩⟩

theorem Connected.mem_nodeIds (hs : s.Connected) (hnode : node ∈ s.remainingNodes) :
    node ∈ s.nodeIds := by
  rcases mem_remainingNodes.mp hnode with hremains | ⟨hmem, -⟩
  · unfold scheduledSources at hremains
    cases hnodes : s.participating with
    | none =>
      rw [hnodes] at hremains
      exact hremains
    | some nodes =>
      rw [hnodes] at hremains
      exact hs.scheduled nodes (nodeSchedule_of_participating hnodes) node
        ((settled_foldl.remaining node).mp hremains).1
  · exact hmem

theorem Connected.exists_nextHop (hs : s.Connected) (hnode : node ∈ s.nodeIds)
    (hne : node ≠ s.networkTimeSource) :
    ∃ hop, nextHop (squaredGraph s.graph) s.networkTimeSource node = .ok hop := by
  have hedges : ∀ u v c, s.graph.Edge u v c → ∃ c', (squaredGraph s.graph).Edge u v c' :=
    fun u v c hedge ↦ ⟨c ^ 2, edge_squaredGraph_iff.mpr ⟨c, hedge, rfl⟩⟩
  obtain ⟨d, hpath⟩ := hs.reachable node hnode
  obtain ⟨d', hpath'⟩ := hpath.exists_of_edges hedges
  have hpos := positive_squaredGraph hs.positive
  obtain ⟨d'', path, hcall⟩ := exists_shortestPath hpos hpath' fun v dv hv hroot _ ↦ by
    -- every vertex on the way has a path to the time source, and so an edge
    have hv_mem : v ∈ s.nodeIds := by
      apply hv.mem hnode
      intro u w c hedge
      obtain ⟨cost, hcost, -⟩ := edge_squaredGraph_iff.mp hedge
      exact hs.receivers u w cost hcost
    obtain ⟨e, he⟩ := hs.reachable v hv_mem
    obtain ⟨w, c, hedge⟩ := he.exists_edge (Ne.symm hroot)
    obtain ⟨c', receivers, hlookup, -⟩ := hedges v w c hedge
    rw [CostGraph.Has, hlookup]
    rfl
  exact Scheduler.exists_nextHop hpos hne hcall

/-- The time source of a node is the next hop among the scheduled nodes where there is one, and the
next hop in the whole network elsewhere. -/
def SourceHop (s : ContikiSchedule) (node hop : ℕ) : Prop :=
  s.ScheduledHop node hop ∨ (∀ hop, ¬ s.ScheduledHop node hop) ∧
    nextHop (squaredGraph s.graph) s.networkTimeSource node = .ok hop

theorem Connected.getTimesourceForNodes_eq (hs : s.Connected) :
    ∃ timesource nodeIds, s.getTimesourceForNodes = .ok (timesource, nodeIds) ∧
      timesource s.networkTimeSource = none ∧ ∀ node ∈ s.nodeIds, node ≠ s.networkTimeSource →
        ∃ hop, timesource node = some hop ∧ s.SourceHop node hop := by
  obtain ⟨after, hfold, hafter⟩ := addRemainingSource_foldlM s.scheduledSources.timesource
    fun node hnode hne ↦ hs.exists_nextHop (hs.mem_nodeIds hnode) hne
  refine ⟨after, _, by rw [getTimesourceForNodes, hfold]; rfl, ?_, fun node hnode hne ↦ ?_⟩
  · rw [(hafter s.networkTimeSource).2 (Or.inr rfl)]
    by_contra hsome
    obtain ⟨hop, hhop⟩ := ne_none_iff_exists'.mp hsome
    obtain ⟨nodes, -, -, hne, -⟩ := scheduledSources_timesource_iff.mp hhop
    exact hne rfl
  · by_cases hremains : node ∈ s.remainingNodes
    · obtain ⟨hop, hcall, hhop⟩ := (hafter node).1 hremains hne
      exact ⟨hop, hhop, Or.inr ⟨(mem_remainingNodes_iff hnode hne).mp hremains, hcall⟩⟩
    · have hscheduled := mt (mem_remainingNodes_iff hnode hne).mpr hremains
      push Not at hscheduled
      obtain ⟨hop, hhop⟩ := hscheduled
      refine ⟨hop, ?_, Or.inl hhop⟩
      rw [(hafter node).2 (Or.inl hremains)]
      exact scheduledSources_timesource_iff.mpr hhop

/-- The nodes with a next hop among the scheduled nodes come before the others, and the nearer ones
before the farther ones. -/
def rank (s : ContikiSchedule) (node : ℕ) : ℕ ×ₗ ℚ :=
  match s.scheduledSources.timesource node with
  | some _ => toLex (0, sourceDistance (participatingGraph s.graph (s.participating.getD []))
      s.networkTimeSource node)
  | none => toLex (1, sourceDistance (squaredGraph s.graph) s.networkTimeSource node)

theorem rank_of_scheduledHop (hnodes : s.participating = some nodes)
    (hhop : s.ScheduledHop node hop) : s.rank node =
      toLex (0, sourceDistance (participatingGraph s.graph nodes) s.networkTimeSource node) := by
  unfold rank
  rw [scheduledSources_timesource_iff.mpr hhop, hnodes]
  rfl

theorem rank_of_not_scheduledHop (hnone : ∀ hop, ¬ s.ScheduledHop node hop) : s.rank node =
    toLex (1, sourceDistance (squaredGraph s.graph) s.networkTimeSource node) := by
  have hsource : s.scheduledSources.timesource node = none := by
    by_contra hsome
    obtain ⟨hop, hhop⟩ := ne_none_iff_exists'.mp hsome
    exact hnone hop (scheduledSources_timesource_iff.mp hhop)
  unfold rank
  rw [hsource]

theorem Connected.rank_lt (hs : s.Connected) (hne : node ≠ s.networkTimeSource)
    (hsource : s.SourceHop node hop) (hhop : hop ≠ s.networkTimeSource) :
    hop ∈ s.nodeIds ∧ s.rank hop < s.rank node := by
  rcases hsource with ⟨nodes, hnodes, hmem, -, hcall⟩ | ⟨hnone, hcall⟩
  · have hpos : (participatingGraph s.graph nodes).Positive :=
      positive_participatingGraph hs.positive
    obtain ⟨-, -, c, -, -, hedge, -⟩ := nextHop_eq_ok hpos hne hcall
    obtain ⟨hhop_mem, cost, hcost, -⟩ := edge_participatingGraph hedge
    -- the search among the scheduled nodes succeeds for the next hop as well
    obtain ⟨hop', hcall'⟩ := exists_nextHop_of_nextHop hpos hne hcall hhop
    refine ⟨hs.receivers node hop cost hcost, ?_⟩
    rw [rank_of_scheduledHop hnodes ⟨nodes, hnodes, hmem, hne, hcall⟩,
      rank_of_scheduledHop hnodes ⟨nodes, hnodes, hhop_mem, hhop, hcall'⟩, Prod.Lex.toLex_lt_toLex]
    exact Or.inr ⟨rfl, sourceDistance_lt hpos hne hcall hhop hcall'⟩
  · have hpos := positive_squaredGraph hs.positive
    obtain ⟨-, -, c, -, -, hedge, -⟩ := nextHop_eq_ok hpos hne hcall
    obtain ⟨cost, hcost, -⟩ := edge_squaredGraph_iff.mp hedge
    have hhop_mem := hs.receivers node hop cost hcost
    refine ⟨hhop_mem, ?_⟩
    rw [rank_of_not_scheduledHop hnone]
    by_cases hscheduled : ∃ hop', s.ScheduledHop hop hop'
    · obtain ⟨hop', hhop'⟩ := hscheduled
      obtain ⟨nodes, hnodes, -⟩ := id hhop'
      rw [rank_of_scheduledHop hnodes hhop', Prod.Lex.toLex_lt_toLex]
      exact Or.inl Nat.one_pos
    · obtain ⟨hop', hcall'⟩ := hs.exists_nextHop hhop_mem hhop
      rw [rank_of_not_scheduledHop (not_exists.mp hscheduled), Prod.Lex.toLex_lt_toLex]
      exact Or.inr ⟨rfl, sourceDistance_lt hpos hne hcall hhop hcall'⟩

/-- Every node but the time source of the network gets a time source, and following the time sources
from any node arrives at that of the network without repetition. -/
theorem timeSources_form_tree (hs : s.Connected) :
    ∃ timesource nodeIds, s.getTimesourceForNodes = .ok (timesource, nodeIds) ∧
      ∀ node ∈ s.nodeIds, (node ≠ s.networkTimeSource → (timesource node).isSome) ∧
        ReachesWithoutRepeat (fun v ↦ (timesource v).getD v) s.networkTimeSource node := by
  obtain ⟨timesource, nodeIds, hcall, -, hsources⟩ := hs.getTimesourceForNodes_eq
  refine ⟨timesource, nodeIds, hcall, fun node hnode ↦ ⟨fun hne ↦ ?_, ?_⟩⟩
  · obtain ⟨hop, hhop, -⟩ := hsources node hnode hne
    rw [hhop]
    rfl
  · apply LeadsTo.withoutRepeat
    apply leadsTo_of_rank s.nodeIds.toFinset s.rank _ (List.mem_toFinset.mpr hnode)
    intro v hv hne hnext
    obtain ⟨hop, hhop, hsource⟩ := hsources v (List.mem_toFinset.mp hv) hne
    rw [hhop, getD_some] at hnext ⊢
    rw [List.mem_toFinset]
    exact hs.rank_lt hne hsource hnext

def fourNodes : ContikiSchedule where
  graph := [(1, [(2, 1)]), (2, [(1, 1), (3, 2)]), (3, [(2, 2), (4, 1)]), (4, [(3, 1)])]
  nodeIds := [1, 2, 3, 4]
  networkTimeSource := 1
  nodeSchedule := some [1, 3]

theorem connected_fourNodes : fourNodes.Connected where
  positive v w c := by
    rintro ⟨receivers, hlookup, hmem⟩
    have hall : ∀ entry ∈ fourNodes.graph, ∀ receiver ∈ entry.2, 0 < receiver.2 := by decide +kernel
    obtain ⟨front, back, hgraph, -⟩ := lookup_eq_some_iff.mp hlookup
    exact hall (v, receivers) (hgraph ▸ mem_append_right _ mem_cons_self) (w, c) hmem
  receivers v w c := by
    rintro ⟨receivers, hlookup, hmem⟩
    have hall : ∀ entry ∈ fourNodes.graph, ∀ receiver ∈ entry.2, receiver.1 ∈ fourNodes.nodeIds := by
      decide +kernel
    obtain ⟨front, back, hgraph, -⟩ := lookup_eq_some_iff.mp hlookup
    exact hall (v, receivers) (hgraph ▸ mem_append_right _ mem_cons_self) (w, c) hmem
  scheduled nodes hnodes := by
    obtain rfl := some.inj hnodes
    decide
  reachable v hv := by
    have htwo : fourNodes.graph.Edge 2 1 1 := ⟨_, rfl, by decide +kernel⟩
    have hthree : fourNodes.graph.Edge 3 2 2 := ⟨_, rfl, by decide +kernel⟩
    have hfour : fourNodes.graph.Edge 4 3 1 := ⟨_, rfl, by decide +kernel⟩
    have hpath := ((pathCost_single hfour).hop hthree).hop htwo
    have hcases : v = 1 ∨ v = 2 ∨ v = 3 ∨ v = 4 := by simpa [fourNodes] using hv
    rcases hcases with rfl | rfl | rfl | rfl
    · exact ⟨0, .start⟩
    · exact ⟨_, pathCost_single htwo⟩
    · exact ⟨_, (pathCost_single hthree).hop htwo⟩
    · exact ⟨_, hpath⟩

theorem timeSources_fourNodes :
    ∃ timesource nodeIds, fourNodes.getTimesourceForNodes = .ok (timesource, nodeIds) ∧
      ∀ node ∈ fourNodes.nodeIds, (node ≠ 1 → (timesource node).isSome) ∧
        ReachesWithoutRepeat (fun v ↦ (timesource v).getD v) 1 node :=
  timeSources_form_tree connected_fourNodes

end ContikiSchedule

end ContikiMaster.Scheduler
