import Mathlib.Algebra.Order.Monoid.Defs
import Mathlib.Order.Bounds.Defs
import Mathlib.Tactic.Common

/-!
# Shortest and widest paths

Edges have positive costs, and the distance of a vertex is the least cost of a path to it. The rest
of a shortest path is a shortest path. Where links have widths, a path is as wide as the narrowest;
widths of paths that no link improves are those of the widest paths.
-/

namespace ContikiMaster.Lib

open Option

universe u v

variable {ι : Type u} {K : Type v} [AddCommMonoid K]

/-- The costs of the paths that lead to a vertex. -/
inductive PathCost (edge : ι → ι → K → Prop) (s : ι) : ι → K → Prop
  | start : PathCost edge s s 0
  | hop {u v : ι} {d c : K} (hpath : PathCost edge s u d) (hedge : edge u v c) :
      PathCost edge s v (d + c)

variable {edge : ι → ι → K → Prop} {s u v w : ι} {c d d' : K}

inductive CostAlong (edge : ι → ι → K → Prop) : List ι → K → Prop
  | single (v : ι) : CostAlong edge [v] 0
  | cons {u v : ι} {path : List ι} {c d : K} (hedge : edge u v c)
      (hrest : CostAlong edge (v :: path) d) : CostAlong edge (u :: v :: path) (c + d)

theorem pathCost_single (hedge : edge u v c) : PathCost edge u v c := by
  have hpath := PathCost.hop PathCost.start hedge
  rwa [zero_add] at hpath

theorem PathCost.trans (hfirst : PathCost edge s u d) (hsecond : PathCost edge u v d') :
    PathCost edge s v (d + d') := by
  induction hsecond with
  | start => rwa [add_zero]
  | hop _ hedge ih =>
    rw [← add_assoc]
    exact ih.hop hedge

/-- A network with other costs on the same edges has a path as well. -/
theorem PathCost.exists_of_edges {edge' : ι → ι → K → Prop}
    (hedges : ∀ u v c, edge u v c → ∃ c', edge' u v c') (hpath : PathCost edge s v d) :
    ∃ d', PathCost edge' s v d' := by
  induction hpath with
  | start => exact ⟨0, .start⟩
  | hop _ hedge ih =>
    obtain ⟨d', hd'⟩ := ih
    obtain ⟨c', hc'⟩ := hedges _ _ _ hedge
    exact ⟨d' + c', hd'.hop hc'⟩

/-- A path to another vertex has a first edge. -/
theorem PathCost.exists_edge (hpath : PathCost edge s v d) (hne : v ≠ s) : ∃ w c, edge s w c := by
  induction hpath with
  | start => exact absurd rfl hne
  | @hop u v d c _ hedge ih =>
    rcases eq_or_ne u s with rfl | hu
    · exact ⟨v, c, hedge⟩
    · exact ih hu

/-- A path stays where its edges lead. -/
theorem PathCost.mem {P : ι → Prop} (hpath : PathCost edge s v d) (hs : P s)
    (hedges : ∀ u v c, edge u v c → P v) : P v := by
  cases hpath with
  | start => exact hs
  | hop _ hedge => exact hedges _ _ _ hedge

/-- A list of vertices is a path from the first to the last of them. -/
theorem CostAlong.pathCost {path : List ι} (halong : CostAlong edge path d)
    (hfirst : path.head? = some u) (hlast : path.getLast? = some w) : PathCost edge u w d := by
  induction halong generalizing u with
  | single v =>
    obtain rfl := some.inj hfirst
    obtain rfl := some.inj hlast
    exact .start
  | cons hedge hrest ih =>
    obtain rfl := some.inj hfirst
    rw [List.getLast?_cons_cons] at hlast
    exact (pathCost_single hedge).trans (ih rfl hlast)

theorem PathCost.cons (hedge : edge u v c) (hpath : PathCost edge v w d) :
    PathCost edge u w (c + d) :=
  (pathCost_single hedge).trans hpath

section Distance

variable [LinearOrder K] [IsOrderedCancelAddMonoid K]

def IsDist (edge : ι → ι → K → Prop) (s v : ι) (d : K) : Prop := IsLeast {d | PathCost edge s v d} d

theorem PathCost.nonneg (hpos : ∀ u v c, edge u v c → 0 < c) (hpath : PathCost edge s v d) :
    0 ≤ d := by
  induction hpath with
  | start => exact le_rfl
  | hop _ hedge ih => exact add_nonneg ih (hpos _ _ _ hedge).le

/-- A path to another vertex has a last edge. -/
theorem PathCost.pos (hpos : ∀ u v c, edge u v c → 0 < c) (hpath : PathCost edge s v d)
    (hne : v ≠ s) : 0 < d := by
  cases hpath with
  | start => exact absurd rfl hne
  | hop hpath hedge => exact add_pos_of_nonneg_of_pos (hpath.nonneg hpos) (hpos _ _ _ hedge)

/-- The rest of a shortest path is a shortest path. -/
theorem IsDist.rest (hdist : IsDist edge u w (c + d)) (hedge : edge u v c)
    (hpath : PathCost edge v w d) : IsDist edge v w d := by
  refine ⟨hpath, fun d' hd' ↦ ?_⟩
  exact le_of_add_le_add_left (hdist.2 (hd'.cons hedge))

end Distance

section Widest

/-- Who hears whom, and how well. The source announces a width of its own. -/
structure Links (ι : Type u) (α : Type v) [LinearOrder α] where
  source : ι
  top : α
  bottom : α
  hears : ι → ι → Prop
  link : ι → ι → α
  bottom_lt_top : bottom < top
  bottom_lt_link : ∀ i j, hears j i → bottom < link j i

variable {ι : Type u} {α : Type v} [LinearOrder α] {links : Links ι α} {i j : ι} {w : α}

/-- A path from the source to a node has a width. -/
inductive PathWidth (links : Links ι α) : ι → α → Prop
  | source : PathWidth links links.source links.top
  | hop {i j : ι} {w : α} (hpath : PathWidth links i w) (hhears : links.hears j i) :
      PathWidth links j (min w (links.link j i))

namespace PathWidth

theorem bottom_lt (hpath : PathWidth links j w) : links.bottom < w := by
  induction hpath with
  | source => exact links.bottom_lt_top
  | hop _ hhears ih => exact lt_min ih (links.bottom_lt_link _ _ hhears)

theorem le_top (hpath : PathWidth links j w) : w ≤ links.top := by
  induction hpath with
  | source => exact le_rfl
  | hop _ _ ih => exact (min_le_left _ _).trans ih

/-- What holds of the source and is passed on by hearing holds wherever a path leads. -/
theorem reaches {P : ι → Prop} (hsource : P links.source)
    (hhop : ∀ i j, P i → links.hears j i → P j) (hpath : PathWidth links j w) : P j := by
  induction hpath with
  | source => exact hsource
  | hop _ hhears ih => exact hhop _ _ ih hhears

section

variable {width : ι → α} (htop : links.top ≤ width links.source)
  (hclosed : ∀ i j w, PathWidth links i w → links.hears j i → min (width i) (links.link j i) ≤ width j)

include htop hclosed

/-- Widths that no link improves bound those of the paths. -/
theorem le_of_closed (hpath : PathWidth links j w) : w ≤ width j := by
  induction hpath with
  | source => exact htop
  | @hop i j w hpath hhears ih =>
    calc
      min w (links.link j i) ≤ min (width i) (links.link j i) := min_le_min_right _ ih
      _ ≤ width j := hclosed i j w hpath hhears

/-- Such widths, when they belong to paths, are those of the widest paths. -/
theorem isGreatest_of_closed
    (hpath : PathWidth links j (width j)) : IsGreatest {w | PathWidth links j w} (width j) :=
  ⟨hpath, fun _ hother ↦ hother.le_of_closed htop hclosed⟩

end

end PathWidth

end Widest

end ContikiMaster.Lib
