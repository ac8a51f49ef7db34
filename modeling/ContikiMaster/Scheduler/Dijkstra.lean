import ContikiMaster.Lib.Call
import ContikiMaster.Lib.ShortestPath
import Mathlib.Data.Finset.Card
import Mathlib.Data.List.MinMax
import Mathlib.Data.Prod.Lex
import Mathlib.Tactic.Linarith

/-!
# Dijkstra's algorithm

`dijkstra.py` of the Master tool. A vertex without an entry in the graph raises when it is reached
before the end of the path; with positive costs nothing else goes wrong, and the path is a shortest
one. Costs are rationals: the rounding of the floats in `vwLength` is not modelled.
-/

namespace ContikiMaster.Scheduler

open Lib Function List Option

/-- A dictionary of dictionaries: what it costs every sender to reach its receivers. -/
abbrev CostGraph := List (ℕ × List (ℕ × ℚ))

/-- The ways `shortestPath` raises, and running out of fuel. -/
inductive PathError
  | notInGraph (v : ℕ)
  | betterPath
  | keyError
  | indexError
  | outOfFuel
  deriving DecidableEq

/-- The dictionaries `D`, `P` and `Q`. -/
structure DijkstraState where
  dist : ℕ → Option ℚ
  pred : ℕ → Option ℕ
  queue : ℕ → Option ℚ

/-- Everything that can become a key of `Q`. -/
def CostGraph.vertices (graph : CostGraph) (start : ℕ) : List ℕ :=
  start :: graph.flatMap fun entry ↦ entry.2.map Prod.fst

/-- `smallest` of the priority dictionary: the key of the least pair of a value and a key. -/
def smallest (vertices : List ℕ) (queue : ℕ → Option ℚ) : Option (ℕ × ℚ) :=
  (vertices.filterMap fun v ↦ (queue v).map fun d ↦ (v, d)).argmin fun entry ↦
    toLex (entry.2, entry.1)

/-- One receiver `w` of the vertex `v` in `Dijkstra`; `dv` is `D[v]`. -/
def relax (v : ℕ) (dv : ℚ) (x : DijkstraState) (receiver : ℕ × ℚ) :
    Except PathError DijkstraState :=
  let w := receiver.1
  let vwLength := dv + receiver.2
  match x.dist w with
  | some dw => if vwLength < dw then .error .betterPath else .ok x
  | none =>
    if (x.queue w).all fun old ↦ decide (vwLength < old) then
      .ok { x with
        queue := update x.queue w (some vwLength)
        pred := update x.pred w (some v) }
    else .ok x

/-- The loop over `Q`. -/
def dijkstraLoop (graph : CostGraph) (vertices : List ℕ) (finish : ℕ) :
    ℕ → DijkstraState → Except PathError DijkstraState
  | 0, _ => .error .outOfFuel
  | fuel + 1, x =>
    match smallest vertices x.queue with
    | none => .ok x
    | some (v, dv) =>
      let x := { x with dist := update x.dist v (some dv) }
      if v = finish then .ok x
      else
        match graph.lookup v with
        | none => .error (.notInGraph v)
        | some receivers => do
          let x ← receivers.foldlM (relax v dv) x
          -- the iterator deletes the key when it is resumed
          dijkstraLoop graph vertices finish fuel
            { x with queue := update x.queue v none }

def dijkstra (graph : CostGraph) (start finish : ℕ) : Except PathError DijkstraState :=
  dijkstraLoop graph (graph.vertices start) finish ((graph.vertices start).length + 1)
    ⟨fun _ ↦ none, fun _ ↦ none, fun v ↦ if v = start then some 0 else none⟩

/-- The loop of `shortestPath` along the predecessors. -/
def walkBack (pred : ℕ → Option ℕ) (start : ℕ) : ℕ → ℕ → List ℕ → Except PathError (List ℕ)
  | 0, _, _ => .error .outOfFuel
  | fuel + 1, v, path =>
    if v = start then .ok (v :: path)
    else
      match pred v with
      | none => .error .keyError
      | some u => walkBack pred start fuel u (v :: path)

def shortestPath (graph : CostGraph) (start finish : ℕ) : Except PathError (ℚ × List ℕ) := do
  let x ← dijkstra graph start finish
  match x.dist finish with
  | none => .error .keyError
  | some d =>
    let path ← walkBack x.pred start ((graph.vertices start).length + 1) finish []
    return (d, path)

/-- An entry of the inner dictionary of a vertex. -/
def CostGraph.Edge (graph : CostGraph) (v w : ℕ) (c : ℚ) : Prop :=
  ∃ receivers, graph.lookup v = some receivers ∧ (w, c) ∈ receivers

def CostGraph.Positive (graph : CostGraph) : Prop := ∀ v w c, graph.Edge v w c → 0 < c

/-- A vertex that is a key of the graph. -/
def CostGraph.Has (graph : CostGraph) (v : ℕ) : Prop := (graph.lookup v).isSome

section Smallest

variable {vertices : List ℕ} {queue : ℕ → Option ℚ} {v w : ℕ} {d d' : ℚ}

theorem mem_entries_iff :
    (v, d) ∈ vertices.filterMap (fun v ↦ (queue v).map fun d ↦ (v, d)) ↔
      v ∈ vertices ∧ queue v = some d := by
  rw [mem_filterMap]
  constructor
  · rintro ⟨u, hu, heq⟩
    obtain ⟨e, he, hpair⟩ := map_eq_some_iff.mp heq
    cases hpair
    exact ⟨hu, he⟩
  · rintro ⟨hv, heq⟩
    exact ⟨v, hv, by rw [heq]; rfl⟩

theorem smallest_spec (hkeys : ∀ w, queue w ≠ none → w ∈ vertices)
    (hsmallest : smallest vertices queue = some (v, d)) :
    queue v = some d ∧ ∀ w d', queue w = some d' → toLex (d, v) ≤ toLex (d', w) := by
  refine ⟨(mem_entries_iff.mp (argmin_mem hsmallest)).2, fun w d' hw ↦ ?_⟩
  have hmem := mem_entries_iff.mpr ⟨hkeys w (by rw [hw]; exact some_ne_none _), hw⟩
  have hle := le_of_mem_argmin hmem hsmallest
  exact hle

theorem smallest_ne_none (hkeys : ∀ w, queue w ≠ none → w ∈ vertices) (hw : queue w = some d) :
    smallest vertices queue ≠ none := by
  intro hnone
  have hempty := argmin_eq_none.mp hnone
  have hmem := mem_entries_iff.mpr ⟨hkeys w (by rw [hw]; exact some_ne_none _), hw⟩
  rw [hempty] at hmem
  cases hmem

end Smallest

section Relax

variable {v : ℕ} {dv : ℚ} {x y : DijkstraState} {done : List (ℕ × ℚ)} {receiver : ℕ × ℚ}

/-- What the receivers of a vertex that have been looked at have changed. -/
structure Relaxed (v : ℕ) (dv : ℚ) (x : DijkstraState) (done : List (ℕ × ℚ)) (y : DijkstraState) :
    Prop where
  dist : y.dist = x.dist
  pred : ∀ w, (x.dist w).isSome → y.pred w = x.pred w
  lower : ∀ w d, x.queue w = some d → ∃ d', y.queue w = some d' ∧ d' ≤ d
  origin : ∀ w d, y.queue w = some d → x.queue w = some d ∧ y.pred w = x.pred w ∨
    x.dist w = none ∧ y.pred w = some v ∧ ∃ c, (w, c) ∈ done ∧ d = dv + c
  reached : ∀ w c, (w, c) ∈ done → (x.dist w).isSome ∨ ∃ d, y.queue w = some d ∧ d ≤ dv + c

theorem relaxed_nil : Relaxed v dv x [] x where
  dist := rfl
  pred _ _ := rfl
  lower _ d heq := ⟨d, heq, le_rfl⟩
  origin _ _ heq := Or.inl ⟨heq, rfl⟩
  reached _ _ hmem := nomatch hmem

theorem Relaxed.skip (hy : Relaxed v dv x done y)
    (hreached : (x.dist receiver.1).isSome ∨ ∃ d, y.queue receiver.1 = some d ∧
      d ≤ dv + receiver.2) : Relaxed v dv x (done ++ [receiver]) y where
  dist := hy.dist
  pred := hy.pred
  lower := hy.lower
  origin w d heq := by
    apply (hy.origin w d heq).imp_right
    rintro ⟨hopen, hpred, c, hmem, hd⟩
    exact ⟨hopen, hpred, c, mem_append_left _ hmem, hd⟩
  reached w c hmem := by
    rcases mem_append.mp hmem with hmem | hmem
    · exact hy.reached w c hmem
    · rw [← mem_singleton.mp hmem] at hreached
      exact hreached

theorem Relaxed.put (hy : Relaxed v dv x done y) (hopen : x.dist receiver.1 = none)
    (hlower : ∀ old, y.queue receiver.1 = some old → dv + receiver.2 < old) :
    Relaxed v dv x (done ++ [receiver]) { y with
      queue := update y.queue receiver.1 (some (dv + receiver.2))
      pred := update y.pred receiver.1 (some v) } where
  dist := hy.dist
  pred w hfinal := by
    have hne : w ≠ receiver.1 := by
      rintro rfl
      rw [hopen] at hfinal
      cases hfinal
    exact (update_of_ne hne _ _).trans (hy.pred w hfinal)
  lower w d heq := by
    obtain ⟨d', hd', hle⟩ := hy.lower w d heq
    by_cases hw : w = receiver.1
    · subst hw
      exact ⟨_, update_self _ _ _, (hlower d' hd').le.trans hle⟩
    · exact ⟨d', (update_of_ne hw _ _).trans hd', hle⟩
  origin w d heq := by
    by_cases hw : w = receiver.1
    · subst hw
      dsimp only at heq
      rw [update_self] at heq
      exact Or.inr ⟨hopen, update_self _ _ _, receiver.2,
        mem_append_right _ mem_cons_self, (some.inj heq).symm⟩
    · dsimp only at heq ⊢
      rw [update_of_ne hw] at heq ⊢
      apply (hy.origin w d heq).imp_right
      rintro ⟨hopen, hpred, c, hmem, hd⟩
      exact ⟨hopen, hpred, c, mem_append_left _ hmem, hd⟩
  reached w c hmem := by
    dsimp only
    rcases mem_append.mp hmem with hmem | hmem
    · apply (hy.reached w c hmem).imp_right
      rintro ⟨d, hd, hle⟩
      by_cases hw : w = receiver.1
      · subst hw
        exact ⟨_, update_self _ _ _, (hlower d hd).le.trans hle⟩
      · exact ⟨d, (update_of_ne hw _ _).trans hd, hle⟩
    · rw [← mem_singleton.mp hmem]
      exact Or.inr ⟨_, update_self _ _ _, le_rfl⟩

theorem Relaxed.relax (hy : Relaxed v dv x done y) (hnear : ∀ w dw, x.dist w = some dw → dw ≤ dv)
    (hcost : 0 < receiver.2) :
    ∃ z, relax v dv y receiver = .ok z ∧ Relaxed v dv x (done ++ [receiver]) z := by
  unfold Scheduler.relax
  dsimp only
  cases hdist : y.dist receiver.1 with
  | some dw =>
    rw [hy.dist] at hdist
    have hle := hnear receiver.1 dw hdist
    dsimp only
    rw [if_neg (by linarith)]
    exact ⟨y, rfl, hy.skip (Or.inl (by rw [hdist]; rfl))⟩
  | none =>
    have hopen : x.dist receiver.1 = none := by rw [← hy.dist, hdist]
    dsimp only
    split
    · rename_i hall
      refine ⟨_, rfl, hy.put hopen fun old hold ↦ ?_⟩
      rw [hold] at hall
      exact of_decide_eq_true hall
    · rename_i hkept
      refine ⟨y, rfl, hy.skip (Or.inr ?_)⟩
      cases hqueue : y.queue receiver.1 with
      | none =>
        rw [hqueue] at hkept
        exact absurd rfl hkept
      | some old =>
        rw [hqueue] at hkept
        exact ⟨old, rfl, not_lt.mp fun hlt ↦ hkept (decide_eq_true hlt)⟩

theorem exists_relaxed {receivers : List (ℕ × ℚ)} (hnear : ∀ w dw, x.dist w = some dw → dw ≤ dv)
    (hcosts : ∀ w c, (w, c) ∈ receivers → 0 < c) :
    ∃ z, receivers.foldlM (relax v dv) x = .ok z ∧ Relaxed v dv x receivers z := by
  induction receivers using reverseRecOn with
  | nil => exact ⟨x, rfl, relaxed_nil⟩
  | append_singleton receivers receiver ih =>
    obtain ⟨y, hfirst, hy⟩ := ih fun w c hmem ↦ hcosts w c (mem_append_left _ hmem)
    obtain ⟨z, hlast, hz⟩ := hy.relax hnear
      (hcosts _ _ (mem_append_right _ mem_cons_self))
    refine ⟨z, ?_, hz⟩
    rw [foldlM_append, hfirst, ok_bind, foldlM_cons, hlast]
    rfl

end Relax

/-! ## The search -/

section Search

variable {graph : CostGraph} {start finish v w : ℕ} {d dv dw : ℚ} {x y z : DijkstraState}

/-- A final or queued vertex is the start, or reached by an edge from a final one. -/
def DijkstraState.Reached (graph : CostGraph) (start : ℕ) (x : DijkstraState) (v : ℕ) (d : ℚ) :
    Prop :=
  v = start ∧ d = 0 ∨
    ∃ u c du, x.pred v = some u ∧ x.dist u = some du ∧ graph.Edge u v c ∧ d = du + c

/-- The state before a vertex is taken from the queue: the final vertices have their distances and
are expanded, and the queue holds costs of paths that continue those. -/
structure DijkstraState.Searching (graph : CostGraph) (start finish : ℕ) (x : DijkstraState) :
    Prop where
  keys : ∀ w, x.queue w ≠ none → w ∈ graph.vertices start
  finalKeys : ∀ w, x.dist w ≠ none → w ∈ graph.vertices start ∧ x.queue w = none
  final : ∀ v d, x.dist v = some d → IsDist graph.Edge start v d ∧ graph.Has v ∧ v ≠ finish
  queued : ∀ v d, x.queue v = some d → PathCost graph.Edge start v d
  expanded : ∀ u v d c, x.dist u = some d → graph.Edge u v c →
    (x.dist v).isSome ∨ ∃ d', x.queue v = some d' ∧ d' ≤ d + c
  begun : x.dist start = some 0 ∨ x.queue start = some 0
  order : ∀ u v d d', x.dist u = some d → x.queue v = some d' → d ≤ d'
  finalReached : ∀ v d, x.dist v = some d → x.Reached graph start v d
  queueReached : ∀ v d, x.queue v = some d → x.Reached graph start v d

theorem DijkstraState.Searching.frontier (hx : x.Searching graph start finish)
    (hpos : graph.Positive) (hpath : PathCost graph.Edge start v d) :
    (∃ dv, x.dist v = some dv ∧ dv ≤ d) ∨ (∃ dv, x.queue v = some dv ∧ dv ≤ d) ∨
      ∃ w dw, x.queue w = some dw ∧ dw < d := by
  induction hpath with
  | start =>
    rcases hx.begun with hfinal | hqueue
    · exact Or.inl ⟨0, hfinal, le_rfl⟩
    · exact Or.inr (Or.inl ⟨0, hqueue, le_rfl⟩)
  | @hop u v d c hpath hedge ih =>
    have hcost := hpos u v c hedge
    rcases ih with ⟨du, hu, hle⟩ | ⟨du, hu, hle⟩ | ⟨w, dw, hw, hlt⟩
    · rcases hx.expanded u v du c hu hedge with hfinal | ⟨d', hqueue, hle'⟩
      · obtain ⟨dv, hv⟩ := isSome_iff_exists.mp hfinal
        exact Or.inl ⟨dv, hv, (hx.final v dv hv).1.2 (hpath.hop hedge)⟩
      · exact Or.inr (Or.inl ⟨d', hqueue, by linarith⟩)
    · exact Or.inr (Or.inr ⟨u, du, hu, by linarith⟩)
    · exact Or.inr (Or.inr ⟨w, dw, hw, by linarith⟩)

theorem fst_le_of_toLex_le (hle : toLex (d, v) ≤ toLex (dw, w)) : d ≤ dw := by
  rcases Prod.Lex.toLex_le_toLex.mp hle with hlt | ⟨heq, -⟩
  · exact hlt.le
  · exact heq.le

section

variable (hx : x.Searching graph start finish) (hpos : graph.Positive)
  (hsmallest : smallest (graph.vertices start) x.queue = some (v, dv))

include hx hpos hsmallest

theorem DijkstraState.Searching.popped : x.dist v = none ∧ IsDist graph.Edge start v dv := by
  obtain ⟨hqueue, hmin⟩ := smallest_spec hx.keys hsmallest
  have hopen : x.dist v = none := by
    by_contra hfinal
    rw [(hx.finalKeys v hfinal).2] at hqueue
    cases hqueue
  refine ⟨hopen, hx.queued v dv hqueue, fun d hd ↦ ?_⟩
  rcases hx.frontier hpos hd with ⟨d', hfinal, -⟩ | ⟨d', hd', hle⟩ | ⟨w, dw, hw, hlt⟩
  · rw [hopen] at hfinal
    cases hfinal
  · rw [hqueue] at hd'
    rwa [some.inj hd']
  · exact (fst_le_of_toLex_le (hmin w dw hw)).trans hlt.le

theorem DijkstraState.Searching.final_of_lt
    (hpath : PathCost graph.Edge start w d) (hlt : toLex (d, w) < toLex (dv, v)) :
    (x.dist w).isSome := by
  obtain ⟨-, hmin⟩ := smallest_spec hx.keys hsmallest
  rcases hx.frontier hpos hpath with ⟨d', hfinal, -⟩ | ⟨d', hqueue, hle⟩ | ⟨u, du, hu, hlt'⟩
  · rw [hfinal]
    rfl
  · have hmono : toLex (d', w) ≤ toLex (d, w) := by
      rw [Prod.Lex.toLex_le_toLex]
      exact hle.lt_or_eq.imp_right fun heq ↦ ⟨heq, le_rfl⟩
    exact absurd hlt (not_lt.mpr ((hmin w d' hqueue).trans hmono))
  · have hle := fst_le_of_toLex_le (hmin u du hu)
    have hle' := fst_le_of_toLex_le hlt.le
    linarith

end

theorem mem_vertices_of_edge {c : ℚ} (hedge : graph.Edge v w c) : w ∈ graph.vertices start := by
  obtain ⟨receivers, hlookup, hmem⟩ := hedge
  obtain ⟨front, back, rfl, -⟩ := lookup_eq_some_iff.mp hlookup
  have hentry : (v, receivers) ∈ front ++ (v, receivers) :: back := mem_append_right _ mem_cons_self
  exact mem_cons_of_mem _ (mem_flatMap.mpr ⟨_, hentry, mem_map_of_mem hmem⟩)

theorem DijkstraState.Reached.mono (hreached : x.Reached graph start v d)
    (hpred : y.pred v = x.pred v) (hdist : ∀ u du, x.dist u = some du → y.dist u = some du) :
    y.Reached graph start v d := by
  apply hreached.imp_right
  rintro ⟨u, c, du, hu, hdu, hedge, hd⟩
  exact ⟨u, c, du, hpred.trans hu, hdist u du hdu, hedge, hd⟩

theorem DijkstraState.Searching.near (hx : x.Searching graph start finish)
    (hqueue : x.queue v = some dv) : ∀ w dw, update x.dist v (some dv) w = some dw → dw ≤ dv := by
  intro w dw hw
  by_cases hsame : w = v
  · subst hsame
    rw [update_self] at hw
    exact (some.inj hw).ge
  · rw [update_of_ne hsame] at hw
    exact hx.order w v dw dv hw hqueue

theorem DijkstraState.Searching.expand {receivers : List (ℕ × ℚ)}
    (hx : x.Searching graph start finish) (hpos : graph.Positive)
    (hsmallest : smallest (graph.vertices start) x.queue = some (v, dv)) (hne : v ≠ finish)
    (hlookup : graph.lookup v = some receivers)
    (hz : Relaxed v dv { x with dist := update x.dist v (some dv) } receivers z) :
    ({ z with queue := update z.queue v none } : DijkstraState).Searching graph start
      finish := by
  obtain ⟨hqueue, hmin⟩ := smallest_spec hx.keys hsmallest
  obtain ⟨hopen, hdist⟩ := hx.popped hpos hsmallest
  have hedge : ∀ w c, (w, c) ∈ receivers → graph.Edge v w c :=
    fun w c hmem ↦ ⟨receivers, hlookup, hmem⟩
  have hzdist : z.dist = update x.dist v (some dv) := hz.dist
  have hzv : z.dist v = some dv := by rw [hzdist, update_self]
  have hzother : ∀ w, w ≠ v → z.dist w = x.dist w := by
    intro w hw
    rw [hzdist, update_of_ne hw]
  have hkept : ∀ u du, x.dist u = some du → z.dist u = some du := by
    intro u du hu
    rw [hzother u, hu]
    rintro rfl
    rw [hopen] at hu
    cases hu
  have hsome : ∀ u, (x.dist u).isSome → (z.dist u).isSome := by
    intro u hu
    obtain ⟨du, hdu⟩ := isSome_iff_exists.mp hu
    rw [hkept u du hdu]
    rfl
  -- the queue without the vertex
  have hrest : ∀ w d, update z.queue v none w = some d → w ≠ v ∧ z.queue w = some d := by
    intro w d hw
    by_cases hsame : w = v
    · subst hsame
      rw [update_self] at hw
      cases hw
    · rw [update_of_ne hsame] at hw
      exact ⟨hsame, hw⟩
  have horigin : ∀ w d, z.queue w = some d → x.queue w = some d ∧ z.pred w = x.pred w ∨
      x.dist w = none ∧ z.pred w = some v ∧ ∃ c, graph.Edge v w c ∧ d = dv + c := by
    intro w d hw
    apply (hz.origin w d hw).imp_right
    rintro ⟨hwopen, hpred, c, hmem, hd⟩
    refine ⟨?_, hpred, c, hedge w c hmem, hd⟩
    by_contra hfinal
    obtain ⟨dw, hdw⟩ := ne_none_iff_exists'.mp hfinal
    have hzw := hkept w dw hdw
    rw [hz.dist, hwopen] at hzw
    cases hzw
  constructor
  case keys =>
    intro w hw
    obtain ⟨d, hd⟩ := ne_none_iff_exists'.mp hw
    obtain ⟨-, hzw⟩ := hrest w d hd
    rcases horigin w d hzw with ⟨hxw, -⟩ | ⟨-, -, c, hvw, -⟩
    · exact hx.keys w (by rw [hxw]; exact some_ne_none d)
    · exact mem_vertices_of_edge hvw
  case finalKeys =>
    intro w hw
    by_cases hsame : w = v
    · subst hsame
      exact ⟨hx.keys w (by rw [hqueue]; exact some_ne_none dv), update_self _ _ _⟩
    · have hxw : x.dist w ≠ none := by
        rw [← hzother w hsame]
        exact hw
      refine ⟨(hx.finalKeys w hxw).1, ?_⟩
      dsimp only
      rw [update_of_ne hsame]
      by_contra hqueued
      obtain ⟨d, hd⟩ := ne_none_iff_exists'.mp hqueued
      rcases horigin w d hd with ⟨hxq, -⟩ | ⟨hwopen, -⟩
      · rw [(hx.finalKeys w hxw).2] at hxq
        cases hxq
      · exact hxw hwopen
  case final =>
    intro w d hw
    by_cases hsame : w = v
    · subst hsame
      obtain rfl := some.inj (hzv.symm.trans hw)
      exact ⟨hdist, by rw [CostGraph.Has, hlookup]; rfl, hne⟩
    · exact hx.final w d ((hzother w hsame).symm.trans hw)
  case queued =>
    intro w d hw
    obtain ⟨-, hzw⟩ := hrest w d hw
    rcases horigin w d hzw with ⟨hxw, -⟩ | ⟨-, -, c, hvw, rfl⟩
    · exact hx.queued w d hxw
    · exact hdist.1.hop hvw
  case expanded =>
    intro u w du c hu huw
    by_cases hwv : w = v
    · rw [hwv]
      exact Or.inl (by rw [hzv]; rfl)
    have hopt : (∃ d', z.queue w = some d' ∧ d' ≤ du + c) →
        ∃ d', update z.queue v none w = some d' ∧ d' ≤ du + c := by
      rintro ⟨d', hd', hle⟩
      exact ⟨d', (update_of_ne hwv _ _).trans hd', hle⟩
    by_cases huv : u = v
    · subst huv
      obtain rfl := some.inj (hzv.symm.trans hu)
      obtain ⟨receivers', hlookup', hmem⟩ := huw
      rw [hlookup] at hlookup'
      rw [← some.inj hlookup'] at hmem
      apply (hz.reached w c hmem).imp _ hopt
      exact fun hfinal ↦ by rwa [hz.dist]
    · rcases hx.expanded u w du c ((hzother u huv).symm.trans hu) huw with hfinal | ⟨d', hd', hle⟩
      · exact Or.inl (hsome w hfinal)
      · obtain ⟨d'', hd'', hle'⟩ := hz.lower w d' hd'
        exact Or.inr (hopt ⟨d'', hd'', hle'.trans hle⟩)
  case begun =>
    rcases hx.begun with hfinal | hstart
    · exact Or.inl (hkept start 0 hfinal)
    · -- the start is the only vertex at distance 0
      have hle : dv ≤ 0 := fst_le_of_toLex_le (hmin start 0 hstart)
      have hsame : v = start := by
        by_contra hother
        have hgt := hdist.1.pos hpos hother
        linarith
      left
      have hzero : dv = 0 := le_antisymm hle (hdist.1.nonneg hpos)
      rw [← hsame, ← hzero]
      exact hzv
  case order =>
    intro u w du d' hu hw
    obtain ⟨-, hzw⟩ := hrest w d' hw
    have hnear : du ≤ dv := hx.near hqueue u du (by rw [← hzdist]; exact hu)
    rcases horigin w d' hzw with ⟨hxw, -⟩ | ⟨-, -, c, hvw, rfl⟩
    · exact hnear.trans (fst_le_of_toLex_le (hmin w d' hxw))
    · have hcost := hpos v w c hvw
      linarith
  case finalReached =>
    intro w d hw
    by_cases hsame : w = v
    · subst hsame
      obtain rfl := some.inj (hzv.symm.trans hw)
      refine (hx.queueReached w dv hqueue).mono (hz.pred w ?_) hkept
      dsimp only
      rw [update_self]
      rfl
    · have hxw : x.dist w = some d := (hzother w hsame).symm.trans hw
      refine (hx.finalReached w d hxw).mono (hz.pred w ?_) hkept
      dsimp only
      rw [update_of_ne hsame, hxw]
      rfl
  case queueReached =>
    intro w d hw
    obtain ⟨-, hzw⟩ := hrest w d hw
    rcases horigin w d hzw with ⟨hxw, hpred⟩ | ⟨-, hpred, c, hvw, rfl⟩
    · exact (hx.queueReached w d hxw).mono hpred hkept
    · exact Or.inr ⟨v, c, dv, hpred, hzv, hvw, rfl⟩

theorem searching_start : (⟨fun _ ↦ none, fun _ ↦ none,
    fun v ↦ if v = start then some 0 else none⟩ : DijkstraState).Searching graph start finish := by
  have honly : ∀ v d, (if v = start then some (0 : ℚ) else none) = some d → v = start ∧ d = 0 := by
    intro v d hv
    by_cases hsame : v = start
    · rw [if_pos hsame] at hv
      exact ⟨hsame, (some.inj hv).symm⟩
    · rw [if_neg hsame] at hv
      cases hv
  constructor
  case keys =>
    intro w hw
    obtain ⟨d, hd⟩ := ne_none_iff_exists'.mp hw
    rw [(honly w d hd).1]
    exact mem_cons_self
  case finalKeys => exact fun w hw ↦ absurd rfl hw
  case final => exact fun v d hv ↦ nomatch hv
  case queued =>
    intro v d hv
    obtain ⟨rfl, rfl⟩ := honly v d hv
    exact .start
  case expanded => exact fun u v d c hu ↦ nomatch hu
  case begun => exact Or.inr (if_pos rfl)
  case order => exact fun u v d d' hu ↦ nomatch hu
  case finalReached => exact fun v d hv ↦ nomatch hv
  case queueReached => exact fun v d hv ↦ Or.inl (honly v d hv)

/-! ## The end of the search -/

/-- What is known when the end of the path is taken from the queue. -/
structure DijkstraState.Found (graph : CostGraph) (start finish : ℕ) (x : DijkstraState) (d : ℚ) :
    Prop where
  dist : x.dist finish = some d
  final : ∀ v dv, x.dist v = some dv → IsDist graph.Edge start v dv
  before : ∀ v dv, PathCost graph.Edge start v dv → toLex (dv, v) < toLex (d, finish) → graph.Has v
  keys : ∀ v, x.dist v ≠ none → v ∈ graph.vertices start
  reached : ∀ v d, x.dist v = some d → x.Reached graph start v d

theorem DijkstraState.Searching.found (hx : x.Searching graph start finish) (hpos : graph.Positive)
    (hsmallest : smallest (graph.vertices start) x.queue = some (finish, d)) :
    ({ x with dist := update x.dist finish (some d) } : DijkstraState).Found graph start
      finish d := by
  obtain ⟨hqueue, -⟩ := smallest_spec hx.keys hsmallest
  obtain ⟨hopen, hdist⟩ := hx.popped hpos hsmallest
  have hkept : ∀ u du, x.dist u = some du →
      update x.dist finish (some d) u = some du := by
    intro u du hu
    rw [update_of_ne, hu]
    rintro rfl
    rw [hopen] at hu
    cases hu
  constructor
  case dist => exact update_self _ _ _
  case final =>
    intro v dv hv
    by_cases hsame : v = finish
    · subst hsame
      dsimp only at hv
      rw [update_self] at hv
      rwa [← some.inj hv]
    · dsimp only at hv
      rw [update_of_ne hsame] at hv
      exact (hx.final v dv hv).1
  case before =>
    intro v dv hpath hlt
    obtain ⟨dv', hv⟩ := isSome_iff_exists.mp (hx.final_of_lt hpos hsmallest hpath hlt)
    exact (hx.final v dv' hv).2.1
  case keys =>
    intro v hv
    by_cases hsame : v = finish
    · rw [hsame]
      exact hx.keys finish (by rw [hqueue]; exact some_ne_none d)
    · dsimp only at hv
      rw [update_of_ne hsame] at hv
      exact (hx.finalKeys v hv).1
  case reached =>
    intro v dv hv
    by_cases hsame : v = finish
    · subst hsame
      dsimp only at hv
      rw [update_self] at hv
      obtain rfl := some.inj hv
      exact (hx.queueReached v d hqueue).mono rfl hkept
    · dsimp only at hv
      rw [update_of_ne hsame] at hv
      exact (hx.finalReached v dv hv).mono rfl hkept

variable {fuel : ℕ}

theorem dijkstraLoop_turn (hpos : graph.Positive) (hx : x.Searching graph start finish)
    (hsmallest : smallest (graph.vertices start) x.queue = some (v, dv)) (hne : v ≠ finish)
    (hhas : graph.Has v) : ∃ t : DijkstraState, t.Searching graph start finish ∧
      t.dist = update x.dist v (some dv) ∧
        dijkstraLoop graph (graph.vertices start) finish (fuel + 1) x =
          dijkstraLoop graph (graph.vertices start) finish fuel t := by
  obtain ⟨receivers, hlookup⟩ := isSome_iff_exists.mp hhas
  obtain ⟨hqueue, -⟩ := smallest_spec hx.keys hsmallest
  obtain ⟨z, hfold, hz⟩ := exists_relaxed
    (x := { x with dist := update x.dist v (some dv) }) (hx.near hqueue)
    fun w c hmem ↦ hpos v w c ⟨receivers, hlookup, hmem⟩
  refine ⟨_, hx.expand hpos hsmallest hne hlookup hz, hz.dist, ?_⟩
  rw [dijkstraLoop, hsmallest]
  dsimp only
  rw [if_neg hne, hlookup]
  dsimp only
  rw [hfold, ok_bind]

theorem dijkstraLoop_found (hpos : graph.Positive) (hx : x.Searching graph start finish)
    (hloop : dijkstraLoop graph (graph.vertices start) finish fuel x = .ok y)
    (hy : y.dist finish = some d) : y.Found graph start finish d := by
  induction fuel generalizing x with
  | zero => cases hloop
  | succ fuel ih =>
    cases hsmallest : smallest (graph.vertices start) x.queue with
    | none =>
      rw [dijkstraLoop, hsmallest] at hloop
      obtain rfl := Except.ok.inj hloop
      exact absurd rfl (hx.final finish d hy).2.2
    | some entry =>
      obtain ⟨v, dv⟩ := entry
      by_cases hne : v = finish
      · subst hne
        rw [dijkstraLoop, hsmallest] at hloop
        dsimp only at hloop
        rw [if_pos rfl] at hloop
        obtain rfl := Except.ok.inj hloop
        have hfound := hx.found hpos hsmallest
        obtain rfl := some.inj (hfound.dist.symm.trans hy)
        exact hfound
      by_cases hhas : graph.Has v
      · obtain ⟨t, ht, -, hturn⟩ := dijkstraLoop_turn hpos hx hsmallest hne hhas
        rw [hturn] at hloop
        exact ih ht hloop
      · have hlookup := not_isSome_iff_eq_none.mp hhas
        rw [dijkstraLoop, hsmallest] at hloop
        dsimp only at hloop
        rw [if_neg hne, hlookup] at hloop
        cases hloop

def openVertices (graph : CostGraph) (start : ℕ) (x : DijkstraState) : Finset ℕ :=
  (graph.vertices start).toFinset.filter fun v ↦ x.dist v = none

theorem card_openVertices_lt (hv : v ∈ graph.vertices start) (hopen : x.dist v = none)
    (hdist : y.dist = update x.dist v (some dv)) :
    (openVertices graph start y).card < (openVertices graph start x).card := by
  apply Finset.card_lt_card
  rw [Finset.ssubset_iff_of_subset]
  · refine ⟨v, Finset.mem_filter.mpr ⟨mem_toFinset.mpr hv, hopen⟩, fun hmem ↦ ?_⟩
    have hnone := (Finset.mem_filter.mp hmem).2
    rw [hdist, update_self] at hnone
    cases hnone
  · intro w hw
    obtain ⟨hmem, hnone⟩ := Finset.mem_filter.mp hw
    refine Finset.mem_filter.mpr ⟨hmem, ?_⟩
    rw [hdist] at hnone
    by_cases hsame : w = v
    · rw [hsame]
      exact hopen
    · rwa [update_of_ne hsame] at hnone

theorem DijkstraState.Searching.lt_finish (hx : x.Searching graph start finish)
    (hpos : graph.Positive) (hsmallest : smallest (graph.vertices start) x.queue = some (v, dv))
    (hne : v ≠ finish) (hpath : PathCost graph.Edge start finish d) :
    toLex (dv, v) < toLex (d, finish) := by
  by_contra hnot
  have hle : toLex (d, finish) < toLex (dv, v) := by
    apply lt_of_le_of_ne (not_lt.mp hnot)
    intro heq
    exact hne (congrArg Prod.snd (toLex_inj.mp heq)).symm
  obtain ⟨d', hfinal⟩ := isSome_iff_exists.mp (hx.final_of_lt hpos hsmallest hpath hle)
  exact (hx.final finish d' hfinal).2.2 rfl

theorem dijkstraLoop_returns (hpos : graph.Positive) (hx : x.Searching graph start finish)
    (hpath : PathCost graph.Edge start finish d)
    (hbefore : ∀ v dv, PathCost graph.Edge start v dv → v ≠ finish →
      (∀ d, PathCost graph.Edge start finish d → toLex (dv, v) < toLex (d, finish)) → graph.Has v)
    (hfuel : (openVertices graph start x).card < fuel) :
    ∃ y, dijkstraLoop graph (graph.vertices start) finish fuel x = .ok y ∧
      (y.dist finish).isSome := by
  induction fuel generalizing x with
  | zero => cases hfuel
  | succ fuel ih =>
    cases hsmallest : smallest (graph.vertices start) x.queue with
    | none =>
      -- the path has left the final vertices
      rcases hx.frontier hpos hpath with ⟨d', hfinal, -⟩ | ⟨d', hqueue, -⟩ | ⟨w, dw, hqueue, -⟩
      · exact absurd rfl (hx.final finish d' hfinal).2.2
      · exact absurd hsmallest (smallest_ne_none hx.keys hqueue)
      · exact absurd hsmallest (smallest_ne_none hx.keys hqueue)
    | some entry =>
      obtain ⟨v, dv⟩ := entry
      obtain ⟨hqueue, -⟩ := smallest_spec hx.keys hsmallest
      obtain ⟨hopen, -⟩ := hx.popped hpos hsmallest
      by_cases hne : v = finish
      · subst hne
        refine ⟨{ x with dist := update x.dist v (some dv) }, ?_, ?_⟩
        · rw [dijkstraLoop, hsmallest]
          exact if_pos rfl
        · dsimp only
          rw [update_self]
          rfl
      · have hhas : graph.Has v := by
          apply hbefore v dv (hx.queued v dv hqueue) hne
          exact fun d hd ↦ hx.lt_finish hpos hsmallest hne hd
        obtain ⟨t, ht, hdist, hturn⟩ := dijkstraLoop_turn hpos hx hsmallest hne hhas
        rw [hturn]
        apply ih ht
        have hv := hx.keys v (by rw [hqueue]; exact some_ne_none dv)
        have hless := card_openVertices_lt hv hopen hdist
        omega

/-- The final vertices that are nearer than a distance. -/
def nearVertices (graph : CostGraph) (start : ℕ) (x : DijkstraState) (d : ℚ) : Finset ℕ :=
  (graph.vertices start).toFinset.filter fun v ↦ (x.dist v).any fun dv ↦ decide (dv < d)

theorem card_nearVertices_lt (hv : v ∈ graph.vertices start) (hdist : x.dist v = some dv)
    (hlt : dv < d) : (nearVertices graph start x dv).card < (nearVertices graph start x d).card := by
  have hmem : ∀ w e, w ∈ nearVertices graph start x e ↔
      w ∈ graph.vertices start ∧ ∃ dw, x.dist w = some dw ∧ dw < e := by
    intro w e
    unfold nearVertices
    rw [Finset.mem_filter, List.mem_toFinset, Option.any_eq_true]
    simp only [decide_eq_true_eq]
  apply Finset.card_lt_card
  rw [Finset.ssubset_iff_of_subset]
  · refine ⟨v, (hmem v d).mpr ⟨hv, dv, hdist, hlt⟩, fun hnear ↦ ?_⟩
    obtain ⟨-, dw, hdw, hlt'⟩ := (hmem v dv).mp hnear
    rw [some.inj (hdw.symm.trans hdist)] at hlt'
    exact lt_irrefl dv hlt'
  · intro w hw
    obtain ⟨hvertex, dw, hdw, hlt'⟩ := (hmem w dv).mp hw
    exact (hmem w d).mpr ⟨hvertex, dw, hdw, hlt'.trans hlt⟩

theorem DijkstraState.Found.walkBack_eq {path : List ℕ} {e : ℚ}
    (hfound : x.Found graph start finish d) (hpos : graph.Positive) (hv : x.dist v = some dv)
    (halong : CostAlong graph.Edge (v :: path) e)
    (hfuel : (nearVertices graph start x dv).card < fuel) :
    ∃ whole, walkBack x.pred start fuel v path = .ok whole ∧
      CostAlong graph.Edge whole (dv + e) ∧ whole.head? = some start ∧
        whole.getLast? = (v :: path).getLast? := by
  induction fuel generalizing v dv path e with
  | zero => cases hfuel
  | succ fuel ih =>
    rw [walkBack]
    by_cases hstart : v = start
    · subst hstart
      have hdist := hfound.final v dv hv
      have hzero : dv = 0 := le_antisymm (hdist.2 .start) (hdist.1.nonneg hpos)
      rw [if_pos rfl, hzero, zero_add]
      exact ⟨v :: path, rfl, halong, rfl, rfl⟩
    · rw [if_neg hstart]
      rcases hfound.reached v dv hv with ⟨hsame, -⟩ | ⟨u, c, du, hpred, hdu, hedge, hcost⟩
      · exact absurd hsame hstart
      rw [hpred]
      have hpos_edge := hpos u v c hedge
      have hu := hfound.keys u (by rw [hdu]; exact some_ne_none du)
      have hless := card_nearVertices_lt hu hdu (by linarith : du < dv)
      obtain ⟨whole, hwalk, hwhole, hfirst, hlast⟩ := ih hdu (.cons hedge halong) (by omega)
      refine ⟨whole, hwalk, ?_, hfirst, hlast.trans getLast?_cons_cons⟩
      rwa [hcost, add_assoc]

/-- A path that `shortestPath` returns. -/
structure IsShortest (graph : CostGraph) (start finish : ℕ) (d : ℚ) (path : List ℕ) : Prop where
  along : CostAlong graph.Edge path d
  first : path.head? = some start
  last : path.getLast? = some finish
  least : IsDist graph.Edge start finish d

theorem DijkstraState.Found.exists_path (hfound : x.Found graph start finish d)
    (hpos : graph.Positive) :
    ∃ path, walkBack x.pred start ((graph.vertices start).length + 1) finish [] = .ok path ∧
      IsShortest graph start finish d path := by
  have hcard : (nearVertices graph start x d).card ≤ (graph.vertices start).length :=
    (Finset.card_filter_le _ _).trans (toFinset_card_le _)
  obtain ⟨path, hwalk, halong, hfirst, hlast⟩ :=
    hfound.walkBack_eq hpos hfound.dist (.single finish) (Nat.lt_succ_of_le hcard)
  rw [add_zero] at halong
  exact ⟨path, hwalk, halong, hfirst, hlast, hfound.final finish d hfound.dist⟩

theorem shortestPath_eq_ok {path : List ℕ} (hpos : graph.Positive)
    (hcall : shortestPath graph start finish = .ok (d, path)) :
    IsShortest graph start finish d path ∧
      ∀ v dv, PathCost graph.Edge start v dv → toLex (dv, v) < toLex (d, finish) → graph.Has v := by
  obtain ⟨x, hsearch, hrest⟩ := bind_eq_ok hcall
  cases hdist : x.dist finish with
  | none =>
    rw [hdist] at hrest
    cases hrest
  | some d' =>
    rw [hdist] at hrest
    obtain ⟨path', hwalk, hdone⟩ := bind_eq_ok hrest
    cases hdone
    have hfound := dijkstraLoop_found hpos searching_start hsearch hdist
    obtain ⟨path'', hwalk', hshortest⟩ := hfound.exists_path hpos
    obtain rfl := Except.ok.inj (hwalk.symm.trans hwalk')
    exact ⟨hshortest, hfound.before⟩

theorem exists_shortestPath (hpos : graph.Positive) (hpath : PathCost graph.Edge start finish d)
    (hbefore : ∀ v dv, PathCost graph.Edge start v dv → v ≠ finish →
      (∀ d, PathCost graph.Edge start finish d → toLex (dv, v) < toLex (d, finish)) → graph.Has v) :
    ∃ d path, shortestPath graph start finish = .ok (d, path) := by
  have hcard : ∀ x, (openVertices graph start x).card ≤ (graph.vertices start).length :=
    fun x ↦ (Finset.card_filter_le _ _).trans (toFinset_card_le _)
  obtain ⟨x, hsearch, hsome⟩ := dijkstraLoop_returns hpos searching_start hpath hbefore
    (Nat.lt_succ_of_le (hcard _))
  obtain ⟨d', hdist⟩ := isSome_iff_exists.mp hsome
  obtain ⟨path, hwalk, -⟩ :=
    (dijkstraLoop_found hpos searching_start hsearch hdist).exists_path hpos
  refine ⟨d', path, ?_⟩
  unfold shortestPath dijkstra
  rw [hsearch, ok_bind, hdist]
  dsimp only
  rw [hwalk]
  rfl

/-- With positive costs, `shortestPath` returns exactly if there is a path and every vertex nearer
than its end is a key of the graph; what it returns is a shortest path. -/
theorem shortestPath_returns_iff (hpos : graph.Positive) :
    ((∃ d path, shortestPath graph start finish = .ok (d, path)) ↔
      ∃ d, IsDist graph.Edge start finish d ∧ ∀ v dv, PathCost graph.Edge start v dv →
        toLex (dv, v) < toLex (d, finish) → graph.Has v) ∧
    ∀ d path, shortestPath graph start finish = .ok (d, path) →
      IsShortest graph start finish d path := by
  refine ⟨⟨?_, ?_⟩, fun d path hcall ↦ (shortestPath_eq_ok hpos hcall).1⟩
  · rintro ⟨d, path, hcall⟩
    obtain ⟨hshortest, hbefore⟩ := shortestPath_eq_ok hpos hcall
    exact ⟨d, hshortest.least, hbefore⟩
  · rintro ⟨d, hdist, hbefore⟩
    exact exists_shortestPath hpos hdist.1 fun v dv hv _ hlt ↦ hbefore v dv hv (hlt d hdist.1)

/-- The way over vertex 2 costs less than the edge. -/
theorem shortestPath_returns_detour :
    IsShortest [(1, [(2, 1), (3, 5)]), (2, [(3, 1)])] 1 3 2 [1, 2, 3] := by
  refine (shortestPath_returns_iff ?_).2 2 [1, 2, 3] (by decide +kernel)
  rintro v w c ⟨receivers, hlookup, hmem⟩
  obtain ⟨front, back, hgraph, -⟩ := lookup_eq_some_iff.mp hlookup
  have hall : ∀ entry ∈ front ++ (v, receivers) :: back, ∀ edge ∈ entry.2, 0 < edge.2 := by
    rw [← hgraph]
    decide +kernel
  exact hall _ (mem_append_right _ mem_cons_self) _ hmem

end Search

end ContikiMaster.Scheduler
